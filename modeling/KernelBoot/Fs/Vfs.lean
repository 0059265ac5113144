import Mathlib
import KernelBoot.Lib.Linked

/-!
# VFS nodes (`kernel/fs/vfs/vfs.c`)

Nodes live in a heap and point to their parent, their first child and their next sibling. Every
function is one call on the heap; the locks it takes make it atomic. `live` lists the allocated
addresses, in the allocator's books, not in the nodes: the walks along pointers take their fuel from
it. A call that is handed an address where no node lives is refused; the source would read freed
memory there.

Names are C strings without their final zero byte. The callbacks and the private data of a node,
which no function here reads, are left out.
-/

namespace KernelBoot.Fs

open Lib

/-- `UINT32_MAX`. -/
def uint32Max : Nat := 2 ^ 32 - 1

/-- `sizeof(node->name)`. -/
def nameSize : Nat := 32

inductive VfsNodeType where
  | directory
  | regular
  | device
  deriving DecidableEq

structure VfsNode where
  parent : Option Nat
  firstChild : Option Nat
  nextSibling : Option Nat
  childCount : Nat
  references : Nat
  destroying : Bool
  ownerUid : Nat
  ownerGid : Nat
  mode : Nat
  type : VfsNodeType
  name : List UInt8

structure VfsHeap where
  nodes : Nat → Option VfsNode
  live : List Nat

/-- Writing some fields of a node. -/
def VfsHeap.update (s : VfsHeap) (a : Nat) (f : VfsNode → VfsNode) : VfsHeap :=
  { s with nodes := fun x => if x = a then (s.nodes a).map f else s.nodes x }

def VfsHeap.nextSibling (s : VfsHeap) (a : Nat) : Option Nat := (s.nodes a).bind VfsNode.nextSibling

def VfsHeap.parent (s : VfsHeap) (a : Nat) : Option Nat := (s.nodes a).bind VfsNode.parent

def VfsHeap.name (s : VfsHeap) (a : Nat) : Option (List UInt8) := (s.nodes a).map VfsNode.name

/-- The children of a node, as the loops over `next_sibling` meet them. -/
def VfsHeap.children (s : VfsHeap) (node : VfsNode) : List Nat :=
  follow s.nextSibling s.live.length node.firstChild

/-- A node and its ancestors, as the loop over `parent` meets them. -/
def VfsHeap.ancestors (s : VfsHeap) (a : Nat) : List Nat :=
  follow s.parent s.live.length (some a)

/-- The name check of `vfs_node_create`. -/
def nameAccepted (name : List UInt8) : Bool := name.length ≠ 0 ∧ name.length < nameSize

/-- The name check of `vfs_node_rename` and `vfs_node_move`, which also refuses `.` and `..`. -/
def newNameAccepted (name : List UInt8) : Bool :=
  nameAccepted name ∧ name ≠ [46] ∧ name ≠ [46, 46]

/-- `vfs_node_create`; `allocated` is what `kmalloc` returned. -/
def vfsNodeCreate (s : VfsHeap) (name : List UInt8) (type : VfsNodeType) (uid gid mode : Nat)
    (allocated : Option Nat) : Option Nat × VfsHeap :=
  if !nameAccepted name ∨ 512 ≤ mode then (none, s)
  else
    match allocated with
    | none => (none, s)
    | some a =>
      let node : VfsNode :=
        { parent := none, firstChild := none, nextSibling := none, childCount := 0,
          references := 1, destroying := false, ownerUid := uid, ownerGid := gid, mode := mode,
          type := type, name := name }
      (some a, { nodes := fun x => if x = a then some node else s.nodes x, live := a :: s.live })

/-- `try_destroy`. -/
def tryDestroy (s : VfsHeap) (a : Nat) : VfsHeap :=
  match s.nodes a with
  | none => s
  | some node =>
    if node.destroying ∨ node.references ≠ 0 ∨ node.childCount ≠ 0 then s
    else { nodes := fun x => if x = a then none else s.nodes x, live := s.live.erase a }

def vfsNodeRetain (s : VfsHeap) (a : Nat) : Bool × VfsHeap :=
  match s.nodes a with
  | none => (false, s)
  | some node =>
    if !node.destroying ∧ node.references ≠ 0 ∧ node.references ≠ uint32Max then
      (true, s.update a fun n => { n with references := n.references + 1 })
    else (false, s)

def vfsNodeRelease (s : VfsHeap) (a : Nat) : VfsHeap :=
  match s.nodes a with
  | none => s
  | some node =>
    if node.destroying ∨ node.references = 0 then s
    else tryDestroy (s.update a fun n => { n with references := n.references - 1 }) a

/-- Linking `child` in front of the children of `parent`. -/
def VfsHeap.attach (s : VfsHeap) (parent child : Nat) : VfsHeap :=
  let first := (s.nodes parent).bind VfsNode.firstChild
  (s.update child fun n => { n with parent := some parent, nextSibling := first }).update parent
    fun n => { n with firstChild := some child, childCount := n.childCount + 1 }

/-- The child before `child` in a list of children. -/
def predecessor (children : List Nat) (child : Nat) : Option Nat :=
  (children.takeWhile (· ≠ child)).getLast?

/-- Taking `child` out of the children of `parent`: `*link = child->next_sibling`, where `link` is
the parent's `first_child` or the `next_sibling` of the child before it. -/
def VfsHeap.detach (s : VfsHeap) (parent child : Nat) (before : Option Nat) : VfsHeap :=
  let next := s.nextSibling child
  let relinked :=
    match before with
    | none => s.update parent fun n => { n with firstChild := next }
    | some b => s.update b fun n => { n with nextSibling := next }
  (relinked.update child fun n => { n with nextSibling := none, parent := none }).update parent
    fun n => { n with childCount := n.childCount - 1 }

def vfsNodeAddChild (s : VfsHeap) (parent child : Nat) : Bool × VfsHeap :=
  match s.nodes parent, s.nodes child with
  | some p, some c =>
    if parent = child ∨ p.type ≠ .directory ∨ c.name = [] then (false, s)
    else if c.parent.isSome ∨ c.destroying ∨ c.references = 0 ∨ c.references = uint32Max then
      (false, s)
    else if child ∈ s.ancestors parent then (false, s)
    else if (s.children p).any fun existing => s.name existing = some c.name then (false, s)
    else
      (true, (s.attach parent child).update child fun n => { n with references := n.references + 1 })
  | _, _ => (false, s)

def vfsNodeLookup (s : VfsHeap) (parent : Nat) (name : List UInt8) : Option Nat × VfsHeap :=
  match s.nodes parent with
  | none => (none, s)
  | some p =>
    if p.type ≠ .directory then (none, s)
    else
      match (s.children p).find? fun child => s.name child = some name with
      | none => (none, s)
      | some child =>
        match vfsNodeRetain s child with
        | (true, s') => (some child, s')
        | (false, _) => (none, s)

def vfsNodeRemove (s : VfsHeap) (parent child : Nat) : Bool × VfsHeap :=
  match s.nodes parent, s.nodes child with
  | some p, some c =>
    if parent = child then (false, s)
    else if p.type ≠ .directory ∨ c.parent ≠ some parent ∨ c.childCount ≠ 0 then (false, s)
    else if child ∉ s.children p then (false, s)
    else
      let detached := s.detach parent child (predecessor (s.children p) child)
      (true, tryDestroy (vfsNodeRelease detached child) parent)
  | _, _ => (false, s)

def vfsNodeRename (s : VfsHeap) (parent child : Nat) (name : List UInt8) : Bool × VfsHeap :=
  match s.nodes parent, s.nodes child with
  | some p, some c =>
    if parent = child ∨ p.type ≠ .directory then (false, s)
    else if !newNameAccepted name then (false, s)
    else if c.parent ≠ some parent ∨ c.destroying ∨ c.references = 0 then (false, s)
    else if (s.children p).any fun existing =>
        existing ≠ child ∧ s.name existing = some name then (false, s)
    else (true, s.update child fun n => { n with name := name })
  | _, _ => (false, s)

def vfsNodeMove (s : VfsHeap) (oldParent newParent child : Nat) (name : List UInt8) :
    Bool × VfsHeap :=
  match s.nodes oldParent, s.nodes newParent, s.nodes child with
  | some old, some new, some c =>
    if oldParent = newParent ∨ oldParent = child ∨ newParent = child ∨ old.type ≠ .directory ∨
        new.type ≠ .directory ∨ c.type ≠ .regular then (false, s)
    else if !newNameAccepted name then (false, s)
    else if c.parent ≠ some oldParent ∨ c.destroying ∨ c.references = 0 then (false, s)
    else if (s.children new).any fun existing =>
        existing ≠ child ∧ s.name existing = some name then (false, s)
    else if child ∉ s.children old then (false, s)
    else
      let detached := s.detach oldParent child (predecessor (s.children old) child)
      let renamed := detached.update child fun n => { n with name := name }
      (true, tryDestroy (tryDestroy (renamed.attach newParent child) oldParent) newParent)
  | _, _, _ => (false, s)

end KernelBoot.Fs
