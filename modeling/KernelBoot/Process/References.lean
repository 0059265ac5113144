import Mathlib
import KernelBoot.Process.Process
import KernelBoot.Process.ProcessTable

/-!
# Process objects and their references (`kernel/core/process/process.c`)

The heap of process objects, the table that registers them and `current_process`. Of an object the
model keeps what decides its lifetime: identifier, reference count, parent, state, and whether its
address space still has a root. What the other subsystems answer (allocation, threads, handles,
waiters, page tables) is an argument of the call, so every answer is covered.

Each public call is one step. An address at which there is no object stands for freed memory; a call
on it does nothing here.
-/

namespace KernelBoot.Process

/-- `UINT32_MAX`, the reference count at which a process cannot be retained. -/
def referencesMax : Nat := 2 ^ 32 - 1

/-- The identifier of the process that adopts orphans. -/
def initId : Nat := 7

structure ProcessObject where
  id : Nat
  references : Nat
  parent : Option Nat
  state : ProcessState
  /-- `address_space.root != 0`. -/
  hasSpace : Bool

structure Processes where
  objects : Nat → Option ProcessObject
  /-- The addresses of the objects. -/
  live : List Nat
  /-- `process_table`; the slots are the indices below `processMax`. -/
  table : Nat → Option Nat
  /-- `current_process`. -/
  current : Option Nat

/-- After `process_initialize`. -/
def Processes.initial : Processes where
  objects := fun _ => none
  live := []
  table := fun _ => none
  current := none

namespace Processes

def update (s : Processes) (a : Nat) (f : ProcessObject → ProcessObject) : Processes :=
  { s with objects := fun x => if x = a then (s.objects a).map f else s.objects x }

def parent (s : Processes) (a : Nat) : Option Nat := (s.objects a).bind ProcessObject.parent

/-- `process_table[i]` and `process_table[i]->id`. -/
def slots (s : Processes) : Slots := fun i =>
  (s.table i).bind fun a => (s.objects a).map fun object => ⟨a, object.id⟩

def isRegistered (s : Processes) (a : Nat) : Bool :=
  (List.range processMax).any fun i => s.table i = some a

/-- One more reference, unless the count is at its limit. -/
def retain (s : Processes) (a : Nat) : Bool × Processes :=
  match s.objects a with
  | none => (false, s)
  | some object =>
    if object.references = referencesMax then (false, s)
    else (true, s.update a fun p => { p with references := p.references + 1 })

/-- `process_retain_existing`. -/
def retainExisting (s : Processes) (a : Nat) : Bool × Processes :=
  if s.isRegistered a then s.retain a else (false, s)

/-- The search of `process_lookup` and `process_lookup_retain`. -/
def lookup (s : Processes) (id : Nat) : Option Nat :=
  if id = 0 then none
  else
    (List.range processMax).findSome? fun i =>
      (s.slots i).bind fun entry => if entry.id = id then some entry.process else none

/-- `process_lookup_retain`. -/
def lookupRetain (s : Processes) (id : Nat) : Option Nat × Processes :=
  match s.lookup id with
  | none => (none, s)
  | some a =>
    match s.retain a with
    | (true, s') => (some a, s')
    | (false, _) => (none, s)

def free (s : Processes) (a : Nat) : Processes :=
  { s with objects := fun x => if x = a then none else s.objects x, live := s.live.erase a }

/-- `process_release`. -/
def release (s : Processes) (a : Nat) : Processes :=
  match s.objects a with
  | none => s
  | some object =>
    if object.references = 0 then s
    else if object.references - 1 = 0 then s.free a
    else s.update a fun p => { p with references := p.references - 1 }

def releaseOption (s : Processes) : Option Nat → Processes
  | none => s
  | some a => s.release a

/-! ## Reparenting -/

/-- The first loop of `process_reparent_children`: every registered process but the parent, with a
reference on each. -/
def snapshot (parent : Nat) : (slots : List Nat) → Processes → List Nat × Processes
  | [], s => ([], s)
  | i :: rest, s =>
    match s.table i with
    | none => snapshot parent rest s
    | some candidate =>
      if candidate = parent then snapshot parent rest s
      else
        match s.retain candidate with
        | (false, _) => snapshot parent rest s
        | (true, s') =>
          let (children, s'') := snapshot parent rest s'
          (candidate :: children, s'')

/-- The process that may adopt, with a reference on it. -/
def replacement (s : Processes) (parent : Nat) : Option Nat × Processes :=
  if (s.objects parent).any (·.id == initId) then (none, s) else s.lookupRetain initId

/-- Whether a replacement adopts. -/
def adopts (s : Processes) (parent : Nat) : Option Nat → Bool
  | none => false
  | some a => a ≠ parent && (s.objects a).any fun object => object.state ≠ .exited

/-- One turn of the second loop. -/
def reparentChild (s : Processes) (parent child : Nat) : Processes :=
  let (candidate, s) := s.replacement parent
  let adopted := s.adopts parent candidate
  if s.parent child = some parent then
    let s := s.update child fun p => { p with parent := if adopted then candidate else none }
    let s := s.release parent
    (s.releaseOption (if adopted then none else candidate)).release child
  else (s.releaseOption candidate).release child

def reparentChildren (s : Processes) (parent : Nat) : Processes :=
  let (children, s) := snapshot parent (List.range processMax) s
  children.foldl (fun s child => s.reparentChild parent child) s

/-! ## The calls -/

/-- `process_create`; `allocated` is the answer of `kmalloc` and `space` that of
`address_space_create`. -/
def create (s : Processes) (id : Nat) (allocated : Option Nat) (space : Bool) :
    Option Nat × Processes :=
  if id = 0 ∨ idUsed s.slots id then (none, s)
  else
    match allocated with
    | none => (none, s)
    | some a =>
      if !space then (none, s)
      else
        match publishSlot s.slots id processMax 0 with
        | none => (none, s)
        | some index =>
          let object : ProcessObject :=
            { id, references := 1, parent := none, state := .new, hasSpace := true }
          (some a,
            { s with
              objects := fun x => if x = a then some object else s.objects x
              live := a :: s.live
              table := fun i => if i = index then some a else s.table i })

/-- `process_set_parent`. -/
def setParent (s : Processes) (child parent : Nat) : Bool × Processes :=
  if child = parent then (false, s)
  else
    match s.retainExisting parent with
    | (false, _) => (false, s)
    | (true, s) =>
      let parentLive := (s.objects parent).any fun p => p.state ≠ .exited
      let childFree := (s.objects child).any fun c => c.state = .new ∧ c.parent = none
      if parentLive && childFree then
        (true, s.update child fun c => { c with parent := some parent })
      else (false, s.release parent)

/-- `process_load_image`, of which only the change of state matters here. -/
def loadImage (s : Processes) (a : Nat) (loaded : Bool) : Bool × Processes :=
  if (s.objects a).any (fun p => p.state = .new) && loaded then
    (true, s.update a fun p => { p with state := .ready })
  else (false, s)

/-- `process_activate`. -/
def activate (s : Processes) (a : Nat) (activated : Bool) : Bool × Processes :=
  if (s.objects a).any (fun p => p.state = .ready ∨ p.state = .running) && activated then
    (true, { s.update a fun p => { p with state := .running } with current := some a })
  else (false, s)

/-- `process_terminate`; `threadsGone` says that no thread runs and all could be destroyed. -/
def terminate (s : Processes) (a : Nat) (threadsGone : Bool) : Bool × Processes :=
  if (s.objects a).any (fun p => p.state ≠ .exited) && s.current ≠ some a && threadsGone then
    (true, s.update a fun p => { p with state := .exited })
  else (false, s)

/-- `process_exit_current`. -/
def exitCurrent (s : Processes) : Processes :=
  match s.current with
  | none => s
  | some a =>
    if (s.objects a).any fun p => p.state ≠ .exited then
      let s := (s.update a fun p => { p with state := .exited }).reparentChildren a
      { s with current := s.parent a }
    else s

/-- The table after the scan that clears the slots of an object. -/
def clearSlots (s : Processes) (a : Nat) : Processes :=
  { s with table := fun i => if s.table i = some a then none else s.table i }

/-- `process_destroy`. `idle` says that no thread, handle or waiter is in the way, and `inactive`
that the address space is neither the kernel's nor the active one. -/
def destroy (s : Processes) (a : Nat) (idle inactive : Bool) : Bool × Processes :=
  if (s.objects a).any (fun p => p.state ≠ .running) && s.current ≠ some a && idle then
    let s := s.reparentChildren a
    if (s.objects a).any (fun p => p.hasSpace) && inactive then
      let parent := s.parent a
      let s := s.update a fun p => { p with state := .exited, hasSpace := false, parent := none }
      (true, ((s.clearSlots a).releaseOption parent).release a)
    else (false, s)
  else (false, s)

/-- What the other subsystems answer during one `process_clone_user`. -/
structure CloneOutcome where
  /-- The parent has its stack, its image and its directories. -/
  ready : Bool
  allocated : Option Nat
  space : Bool
  /-- `user_image_clone` and `address_space_clone_anonymous`. -/
  cloned : Bool
  /-- `address_space_destroy` of the space the child was created with. -/
  replaced : Bool
  stackCopied : Bool
  handlesInherited : Bool
  threadCreated : Bool
  /-- The answers to the `process_destroy` of a child that could not be finished. -/
  idle : Bool
  inactive : Bool

/-- The child from `child->parent = parent` on. -/
def cloneInto (s : Processes) (child : Nat) (outcome : CloneOutcome) : Option Nat × Processes :=
  let abandon := fun s : Processes => (s.destroy child outcome.idle outcome.inactive).2
  if !outcome.cloned then (none, abandon s)
  else if !outcome.replaced then (none, abandon s)
  else
    -- the child's own space is gone and the cloned one in its place
    let s := s.update child fun p => { p with hasSpace := true }
    if !outcome.stackCopied then (none, abandon s)
    else if !outcome.handlesInherited then (none, abandon s)
    else
      let s := s.update child fun p => { p with state := .ready }
      if !outcome.threadCreated then (none, abandon s) else (some child, s)

/-- `process_clone_user`. -/
def cloneUser (s : Processes) (parent id : Nat) (outcome : CloneOutcome) : Option Nat × Processes :=
  if id = 0 then (none, s)
  else if !(s.objects parent).any (fun p => p.state ≠ .exited) || !outcome.ready then (none, s)
  else
    match s.retainExisting parent with
    | (false, _) => (none, s)
    | (true, s) =>
      match s.create id outcome.allocated outcome.space with
      | (none, s) => (none, s.release parent)
      | (some child, s) =>
        cloneInto (s.update child fun p => { p with parent := some parent }) child outcome

end Processes

/-! ## The system -/

/-- The processes, and for each the references that callers of `process_lookup_retain` have not yet
given back. -/
structure ProcessSystem where
  processes : Processes
  retained : Nat → Nat

def ProcessSystem.initial : ProcessSystem where
  processes := .initial
  retained := fun _ => 0

inductive ProcessCall where
  | create (id : Nat) (allocated : Option Nat) (space : Bool)
  | setParent (child parent : Nat)
  | lookupRetain (id : Nat)
  | release (process : Nat)
  | loadImage (process : Nat) (loaded : Bool)
  | activate (process : Nat) (activated : Bool)
  | cloneUser (parent id : Nat) (outcome : Processes.CloneOutcome)
  | exitCurrent
  | terminate (process : Nat) (threadsGone : Bool)
  | destroy (process : Nat) (idle inactive : Bool)

def ProcessCall.step (s : ProcessSystem) : ProcessCall → ProcessSystem
  | .create id allocated space =>
    { s with processes := (s.processes.create id allocated space).2 }
  | .setParent child parent => { s with processes := (s.processes.setParent child parent).2 }
  | .lookupRetain id =>
    match s.processes.lookupRetain id with
    | (none, _) => s
    | (some a, processes) =>
      { processes, retained := fun x => s.retained x + if x = a then 1 else 0 }
  | .release a =>
    { processes := s.processes.release a
      retained := fun x => s.retained x - if x = a then 1 else 0 }
  | .loadImage a loaded => { s with processes := (s.processes.loadImage a loaded).2 }
  | .activate a activated => { s with processes := (s.processes.activate a activated).2 }
  | .cloneUser parent id outcome =>
    { s with processes := (s.processes.cloneUser parent id outcome).2 }
  | .exitCurrent => { s with processes := s.processes.exitCurrent }
  | .terminate a threadsGone => { s with processes := (s.processes.terminate a threadsGone).2 }
  | .destroy a idle inactive => { s with processes := (s.processes.destroy a idle inactive).2 }

end KernelBoot.Process
