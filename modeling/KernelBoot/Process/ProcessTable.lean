import KernelBoot.Lib.Run

/-!
# The process table and its creators (`kernel/core/process/process.c`)

`process_create` visits `process_table_lock` twice: once to see that its identifier is free, and,
after the process object and its address space have been allocated without the lock, once more to
publish the object. `process_create_auto` adds a search for an unused identifier before that and
tries again when the creation failed. Between any two of these visits other creators and
`process_destroy` may run, so a creator carries a program counter (`Creator`) and one turn is one
visit under the lock.
-/

namespace KernelBoot.Process

/-- `PROCESS_MAX`. -/
def processMax : Nat := 64

/-- An occupied slot: the process object it points to and that object's identifier. -/
structure TableEntry where
  process : Nat
  id : Nat
  deriving DecidableEq

/-- `process_table`; the slots are the indices below `processMax`. -/
abbrev Slots := Nat → Option TableEntry

/-- Some slot holds a process with this identifier. -/
def idUsed (slots : Slots) (id : Nat) : Bool :=
  (List.range processMax).any fun i => (slots i).any (·.id == id)

/-- The search of `process_create_auto`: the first identifier in `1..PROCESS_MAX` no slot holds. -/
def findCandidate (slots : Slots) : Option Nat :=
  ((List.range processMax).map (· + 1)).find? fun id => !idUsed slots id

/-- The publishing scan of `process_create` from `index` on. It gives up at a slot with the same
identifier and takes the first empty slot, whichever comes first. -/
def publishSlot (slots : Slots) (id : Nat) : (remaining index : Nat) → Option Nat
  | 0, _ => none
  | remaining + 1, index =>
    match slots index with
    | some entry => if entry.id = id then none else publishSlot slots id remaining (index + 1)
    | none => some index

/-- The scan of `process_destroy` that clears the slots of the destroyed object. -/
def unregister (slots : Slots) (process : Nat) : Slots := fun i =>
  match slots i with
  | some entry => if entry.process = process then none else some entry
  | none => none

/-- Where a creator stands. `retries` counts the attempts `process_create_auto` has left after this
one; it is `none` in a plain `process_create`. -/
inductive Creator where
  | idle
  | search (retries : Nat)
  | precheck (id : Nat) (retries : Option Nat)
  | publish (id : Nat) (retries : Option Nat)

/-- A failed `process_create`: `process_create_auto` starts its next attempt, if it has one. -/
def Creator.failed : Option Nat → Creator
  | some (retries + 1) => .search retries
  | some 0 => .idle
  | none => .idle

structure Creators where
  slots : Slots
  creators : Nat → Creator

/-- No process is registered and no creator is under way. -/
def Creators.initial : Creators where
  slots := fun _ => none
  creators := fun _ => .idle

inductive CreatorTurn where
  | create (creator id : Nat)
  | createAuto (creator : Nat)
  /-- The creator's next visit. `allocated` is what `kmalloc` and `address_space_create` answered
  before it, when there were such calls, and `process` the object they made. -/
  | visit (creator : Nat) (allocated : Bool) (process : Nat)
  | destroy (process : Nat)

def Creators.setCreator (s : Creators) (c : Nat) (creator : Creator) : Creators :=
  { s with creators := fun i => if i = c then creator else s.creators i }

/-- The second visit of `process_create`. -/
def Creators.publish (s : Creators) (c id process : Nat) (retries : Option Nat) : Creators :=
  match publishSlot s.slots id processMax 0 with
  | none => s.setCreator c (.failed retries)
  | some index =>
    { s with slots := fun i => if i = index then some ⟨process, id⟩ else s.slots i }.setCreator c
      .idle

/-- A creator's next visit to the table. -/
def Creators.visit (s : Creators) (c : Nat) (allocated : Bool) (process : Nat) : Creators :=
  match s.creators c with
  | .idle => s
  | .search retries =>
    match findCandidate s.slots with
    | none => s.setCreator c .idle
    | some id => s.setCreator c (.precheck id (some retries))
  | .precheck id retries =>
    if idUsed s.slots id then s.setCreator c (.failed retries)
    else s.setCreator c (.publish id retries)
  | .publish id retries =>
    if allocated then s.publish c id process retries
    else s.setCreator c (.failed retries)

/-- One turn. A creator begins a call only when it is not in one; `process_create` refuses
identifier 0 before its first visit. -/
def CreatorTurn.step (s : Creators) : CreatorTurn → Creators
  | .create c id =>
    match s.creators c with
    | .idle => if id = 0 then s else s.setCreator c (.precheck id none)
    | _ => s
  | .createAuto c =>
    match s.creators c with
    | .idle => s.setCreator c (.search (processMax - 1))
    | _ => s
  | .visit c allocated process => s.visit c allocated process
  | .destroy process => { s with slots := unregister s.slots process }

end KernelBoot.Process
