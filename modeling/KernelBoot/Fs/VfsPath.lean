import KernelBoot.Fs.Vfs

/-!
# Path resolution (`kernel/fs/vfs/vfs.c`, `kernel/security/credentials.c`)

The three lookups share one walk. It holds a reference on the node it stands on, steps to the next
node for every component of the path, and gives the old reference back. The variant with credentials
asks the node it stands on for search permission before each component; `grants` is that question,
and answers yes where the source does not ask. Paths are C strings without their final zero byte; the
walk's `rest` is the path from its `index` on.
-/

namespace KernelBoot.Fs

open Lib List

/-- `security_context_t`; the capabilities play no part here. -/
structure SecurityContext where
  uid : Nat
  gid : Nat

/-- `security_can_access`. -/
def securityCanAccess (context : SecurityContext) (ownerUid ownerGid mode requested : Nat) : Bool :=
  if 512 ≤ mode ∨ requested = 0 ∨ 8 ≤ requested then false
  else if context.uid = 0 then true
  else
    let permission :=
      if context.uid = ownerUid then (mode >>> 6) &&& 7
      else if context.gid = ownerGid then (mode >>> 3) &&& 7
      else mode &&& 7
    (permission &&& requested) == requested

/-- `vfs_node_access`. -/
def vfsNodeAccess (s : VfsHeap) (a : Nat) (context : SecurityContext) (requested : Nat) : Bool :=
  if requested = 0 ∨ 8 ≤ requested then false
  else
    match s.nodes a with
    | none => false
    | some node => securityCanAccess context node.ownerUid node.ownerGid node.mode requested

/-- `parent_reference`. -/
def parentReference (s : VfsHeap) (root current : Nat) : Option Nat × VfsHeap :=
  let parent :=
    match s.parent current with
    | some p => if current ≠ root then p else current
    | none => current
  match vfsNodeRetain s parent with
  | (true, s') => (some parent, s')
  | (false, _) => (none, s)

/-- The next node of a walk, with a reference on it. -/
def stepComponent (s : VfsHeap) (root current : Nat) (component : List UInt8) :
    Option Nat × VfsHeap :=
  if component = [46] then
    match vfsNodeRetain s current with
    | (true, s') => (some current, s')
    | (false, _) => (none, s)
  else if component = [46, 46] then parentReference s root current
  else vfsNodeLookup s current component

/-- `'/'`. -/
def slash : UInt8 := 47

def skipSlashes (rest : List UInt8) : List UInt8 := rest.dropWhile (· = slash)

/-- The bytes up to the next slash. -/
def componentOf (rest : List UInt8) : List UInt8 := rest.takeWhile (· ≠ slash)

def afterComponent (rest : List UInt8) : List UInt8 := rest.dropWhile (· ≠ slash)

theorem afterComponent_shortens {rest : List UInt8} (h : skipSlashes rest ≠ []) :
    (afterComponent (skipSlashes rest)).length < rest.length := by
  obtain ⟨byte, tail, htail⟩ := exists_cons_of_ne_nil h
  have hskip : (skipSlashes rest).length ≤ rest.length := (dropWhile_sublist _).length_le
  have hbyte : decide (byte ≠ slash) = true := by
    have hhead := head?_dropWhile_not (fun b : UInt8 => decide (b = slash)) rest
    rw [show rest.dropWhile (fun b => decide (b = slash)) = byte :: tail from htail] at hhead
    simpa using hhead
  have hdrop : (tail.dropWhile (· ≠ slash)).length ≤ tail.length :=
    (dropWhile_sublist _).length_le
  rw [htail] at hskip ⊢
  rw [afterComponent, dropWhile_cons, if_pos hbyte]
  rw [length_cons] at hskip
  omega

/-- The loop of the lookups, standing on `current`. -/
def walkPath (grants : VfsHeap → Nat → Bool) (root : Nat) (s : VfsHeap) (current : Nat)
    (rest : List UInt8) : Option Nat × VfsHeap :=
  if _h : skipSlashes rest = [] then (some current, s)
  else if !grants s current then (none, vfsNodeRelease s current)
  else
    let component := componentOf (skipSlashes rest)
    if nameSize ≤ component.length then (none, vfsNodeRelease s current)
    else
      match stepComponent s root current component with
      | (none, s') => (none, vfsNodeRelease s' current)
      | (some next, s') =>
        walkPath grants root (vfsNodeRelease s' current) next (afterComponent (skipSlashes rest))
termination_by rest.length
decreasing_by exact afterComponent_shortens ‹_›

/-- Begin a walk at a node. -/
def walkFrom (grants : VfsHeap → Nat → Bool) (root : Nat) (s : VfsHeap) (start : Nat)
    (rest : List UInt8) : Option Nat × VfsHeap :=
  match vfsNodeRetain s start with
  | (true, s') => walkPath grants root s' start rest
  | (false, _) => (none, s)

def vfsLookupPath (s : VfsHeap) (root : Nat) (path : List UInt8) : Option Nat × VfsHeap :=
  if path.head? ≠ some slash then (none, s)
  else walkFrom (fun _ _ => true) root s root (path.drop 1)

/-- The node exists and is a directory. -/
def isDirectory (s : VfsHeap) (a : Nat) : Bool :=
  (s.nodes a).any fun node => node.type == .directory

def vfsLookupPathAt (s : VfsHeap) (root working : Nat) (path : List UInt8) : Option Nat × VfsHeap :=
  if path = [] ∨ !isDirectory s root ∨ !isDirectory s working then (none, s)
  else if path.head? = some slash then vfsLookupPath s root path
  else walkFrom (fun _ _ => true) root s working path

def vfsLookupPathAtAccess (s : VfsHeap) (root working : Nat) (path : List UInt8)
    (context : SecurityContext) : Option Nat × VfsHeap :=
  if path = [] ∨ !isDirectory s root ∨ !isDirectory s working then (none, s)
  else
    let absolute := path.head? = some slash
    walkFrom (fun s current => vfsNodeAccess s current context 1) root s
      (if absolute then root else working) (if absolute then path.drop 1 else path)

end KernelBoot.Fs
