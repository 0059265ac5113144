import KernelBoot.Fs.Vfs
import KernelBoot.Lib.Run

/-!
# The VFS tree and its callers

A heap of nodes together with the references its callers hold: those `vfs_node_create`,
`vfs_node_lookup` and `vfs_node_retain` gave them and they have not released. The reference a
directory holds on each of its children is not among them.
-/

namespace KernelBoot.Fs

structure VfsSystem where
  heap : VfsHeap
  held : Nat → Nat

def VfsSystem.initial : VfsSystem where
  heap := ⟨fun _ => none, []⟩
  held := fun _ => 0

inductive VfsCall where
  | create (name : List UInt8) (type : VfsNodeType) (uid gid mode : Nat) (allocated : Option Nat)
  | addChild (parent child : Nat)
  | remove (parent child : Nat)
  | rename (parent child : Nat) (name : List UInt8)
  | move (oldParent newParent child : Nat) (name : List UInt8)
  | lookup (parent : Nat) (name : List UInt8)
  | retain (node : Nat)
  | release (node : Nat)

/-- A caller gets a reference. -/
def VfsSystem.take (s : VfsSystem) (heap : VfsHeap) (a : Nat) : VfsSystem where
  heap := heap
  held := fun x => if x = a then s.held a + 1 else s.held x

/-- A call: what it returns, as success or failure, and the state it leaves. -/
def VfsCall.effect (s : VfsSystem) : VfsCall → Bool × VfsSystem
  | .create name type uid gid mode allocated =>
    match vfsNodeCreate s.heap name type uid gid mode allocated with
    | (none, _) => (false, s)
    | (some a, heap) => (true, s.take heap a)
  | .addChild parent child =>
    let result := vfsNodeAddChild s.heap parent child
    (result.1, { s with heap := result.2 })
  | .remove parent child =>
    let result := vfsNodeRemove s.heap parent child
    (result.1, { s with heap := result.2 })
  | .rename parent child name =>
    let result := vfsNodeRename s.heap parent child name
    (result.1, { s with heap := result.2 })
  | .move oldParent newParent child name =>
    let result := vfsNodeMove s.heap oldParent newParent child name
    (result.1, { s with heap := result.2 })
  | .lookup parent name =>
    match vfsNodeLookup s.heap parent name with
    | (none, _) => (false, s)
    | (some child, heap) => (true, s.take heap child)
  | .retain a =>
    match vfsNodeRetain s.heap a with
    | (false, _) => (false, s)
    | (true, heap) => (true, s.take heap a)
  | .release a =>
    (true,
      { heap := vfsNodeRelease s.heap a
        held := fun x => if x = a then s.held a - 1 else s.held x })

def VfsCall.step (s : VfsSystem) (call : VfsCall) : VfsSystem := (call.effect s).2

end KernelBoot.Fs
