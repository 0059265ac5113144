import Mathlib.Data.List.FinRange
import Mathlib.Logic.Function.Basic

/-!
# Process handle tables (`kernel/core/process/handle.c`)

A table of 32 slots; a handle packs a slot and the slot's 16-bit generation into one number, and
every lookup decodes it again. Pointers are numbers with 0 for null. The callbacks an entry carries
are not run here: each operation answers the list of calls it makes, in order, with the slot whose
entry makes them. An operation is one critical section of the table's lock followed by those calls.
A C caller that passes a null table or an enumerator outside `process_handle_object_kind_t` has no
counterpart in these types.
-/

namespace KernelBoot.Process

/-- An address; 0 is the null pointer. -/
abbrev Pointer := Nat

/-- Access rights, a 32-bit mask. -/
abbrev Rights := BitVec 32

abbrev handleCapacity : Nat := 32
def handleRead : Rights := 0x01
def handleWrite : Rights := 0x02
def handleExec : Rights := 0x04
def handleSlotBits : Nat := 5
def handleSlotMask : Nat := handleCapacity - 1
def uint16Max : Nat := 65535
def uint32Max : Nat := 4294967295

/-- An index into a table. -/
abbrev Slot := Fin handleCapacity

inductive ObjectKind where
  | generic
  | pipeRead
  | pipeWrite
  deriving DecidableEq

structure ProcessHandle where
  object : Pointer
  rights : Rights
  release : Pointer
  retain : Pointer
  retainedReferences : Nat
  closing : Bool
  inheritable : Bool
  kind : ObjectKind

structure HandleTable where
  entries : Slot → ProcessHandle
  generations : Slot → Nat
  retainedReferences : Nat

/-- A call of an entry's callback: which slot's entry, the function and its argument. -/
inductive Callback where
  | retain (slot : Slot) (function object : Pointer)
  | release (slot : Slot) (function object : Pointer)
  deriving DecidableEq

/-- Replace the entry of one slot. -/
def HandleTable.setEntry (table : HandleTable) (slot : Slot) (entry : ProcessHandle) : HandleTable :=
  { table with entries := Function.update table.entries slot entry }

/-- The entry of an initialized slot. -/
def freshEntry : ProcessHandle where
  object := 0
  rights := 0
  release := 0
  retain := 0
  retainedReferences := 0
  closing := false
  inheritable := true
  kind := .generic

/-- `process_handle_table_initialize`. -/
def processHandleTableInitialize : HandleTable where
  entries := fun _ => freshEntry
  generations := fun _ => 1
  retainedReferences := 0

/-! ## Handles -/

def makeHandle (slot : Slot) (generation : Nat) : Nat :=
  (generation <<< handleSlotBits) ||| (slot.val + 1)

def decodeHandle (handle : Nat) : Option (Slot × Nat) :=
  let encodedSlot := handle &&& handleSlotMask
  let encodedGeneration := handle >>> handleSlotBits
  if handle = 0 ∨ encodedSlot = 0 ∨ encodedGeneration = 0 ∨ encodedSlot > handleCapacity ∨
      encodedGeneration > uint16Max then none
  else some (Fin.ofNat handleCapacity (encodedSlot - 1), encodedGeneration)

/-- The generation after a close. -/
def nextGeneration (generation : Nat) : Nat :=
  if generation = uint16Max then 1 else generation + 1

/-- The first slot without an object. -/
def freeSlot (table : HandleTable) : Option Slot :=
  (List.finRange handleCapacity).find? fun slot => (table.entries slot).object == 0

/-- The rights bits an entry may carry. -/
def rightsOutside (rights : Rights) : Bool := (rights &&& ~~~(7 : Rights)) != 0

/-! ## Operations on one table -/

/-- `process_handle_open_owned_kind`; 0 on failure. -/
def processHandleOpenOwnedKind (table : HandleTable) (object : Pointer) (rights : Rights)
    (release retain : Pointer) (kind : ObjectKind) : Nat × HandleTable :=
  if object = 0 ∨ rights = 0 ∨ rightsOutside rights = true then (0, table)
  else
    match freeSlot table with
    | none => (0, table)
    | some slot =>
      (makeHandle slot (table.generations slot),
        table.setEntry slot { table.entries slot with
          object, rights, release, retain, closing := false, inheritable := true, kind })

def processHandleOpenOwnedRetain (table : HandleTable) (object : Pointer) (rights : Rights)
    (release retain : Pointer) : Nat × HandleTable :=
  processHandleOpenOwnedKind table object rights release retain .generic

def processHandleOpenOwned (table : HandleTable) (object : Pointer) (rights : Rights)
    (release : Pointer) : Nat × HandleTable :=
  processHandleOpenOwnedRetain table object rights release 0

def processHandleOpen (table : HandleTable) (object : Pointer) (rights : Rights) :
    Nat × HandleTable :=
  processHandleOpenOwned table object rights 0

/-- The lookup every operation on a handle begins with: a live entry of the handle's generation. -/
def HandleTable.resolve (table : HandleTable) (handle : Nat) : Option Slot :=
  match decodeHandle handle with
  | none => none
  | some (slot, generation) =>
    if table.generations slot = generation ∧ (table.entries slot).closing = false ∧
        (table.entries slot).object ≠ 0 then some slot
    else none

/-- `process_handle_duplicate`; rights 0 asks for the source's rights. -/
def processHandleDuplicate (table : HandleTable) (handle : Nat) (rights : Rights) :
    Nat × HandleTable × List Callback :=
  match table.resolve handle with
  | none => (0, table, [])
  | some source =>
    let from_ := table.entries source
    if from_.retain = 0 ∨ (rights ≠ 0 ∧ (rights &&& ~~~from_.rights) ≠ 0) then (0, table, [])
    else
      match freeSlot table with
      | none => (0, table, [])
      | some slot =>
        (makeHandle slot (table.generations slot),
          table.setEntry slot { table.entries slot with
            object := from_.object
            rights := if rights = 0 then from_.rights else rights
            release := from_.release
            retain := from_.retain
            closing := false
            inheritable := from_.inheritable
            kind := from_.kind },
          [.retain source from_.retain from_.object])

/-- `process_handle_set_inheritable`. -/
def processHandleSetInheritable (table : HandleTable) (handle : Nat) (inheritable : Int) :
    Bool × HandleTable :=
  if inheritable ≠ 0 ∧ inheritable ≠ 1 then (false, table)
  else
    match table.resolve handle with
    | none => (false, table)
    | some slot =>
      (true, table.setEntry slot { table.entries slot with inheritable := inheritable == 1 })

/-- `process_handle_get`; the object or null. -/
def processHandleGet (table : HandleTable) (handle : Nat) (required : Rights) : Pointer :=
  if rightsOutside required then 0
  else
    match table.resolve handle with
    | none => 0
    | some slot =>
      if (table.entries slot).rights &&& required = required then (table.entries slot).object else 0

/-- What closing makes of an entry: marked, stripped of its rights, and emptied unless a reference
is outstanding. -/
def closeEntry (entry : ProcessHandle) : ProcessHandle :=
  if entry.retainedReferences = 0 then
    { entry with rights := 0, closing := true, object := 0, release := 0, retain := 0 }
  else { entry with rights := 0, closing := true }

/-- The release call closing an entry makes: its own, unless a reference is outstanding. -/
def closeCalls (slot : Slot) (entry : ProcessHandle) : List Callback :=
  if entry.retainedReferences = 0 ∧ entry.release ≠ 0 then [.release slot entry.release entry.object]
  else []

/-- `process_handle_close`. -/
def processHandleClose (table : HandleTable) (handle : Nat) : Bool × HandleTable × List Callback :=
  match table.resolve handle with
  | none => (false, table, [])
  | some slot =>
    let entry := table.entries slot
    (true,
      { table.setEntry slot (closeEntry entry) with
        generations := Function.update table.generations slot (nextGeneration (table.generations slot)) },
      closeCalls slot entry)

/-- `process_handle_table_close_all`: every slot in order, the empty ones too, then the calls. -/
def processHandleTableCloseAll (table : HandleTable) : HandleTable × List Callback :=
  ({ table with
      entries := fun slot => closeEntry (table.entries slot)
      generations := fun slot => nextGeneration (table.generations slot) },
    (List.finRange handleCapacity).flatMap fun slot => closeCalls slot (table.entries slot))

/-- `process_handle_table_has_retained`. -/
def processHandleTableHasRetained (table : HandleTable) : Bool := table.retainedReferences != 0

/-! ## References -/

/-- `process_handle_ref_t`; `table` names the table the reference points into. -/
structure HandleRef where
  table : Nat
  entry : Slot
  object : Pointer
  release : Pointer
  kind : ObjectKind
  active : Bool

/-- `process_handle_get_retain` on the table called `name`: the slot it takes a reference on. -/
def processHandleGetRetain (table : HandleTable) (handle : Nat) (required : Rights) (name : Nat) :
    Option (HandleTable × HandleRef) :=
  if rightsOutside required then none
  else
    match table.resolve handle with
    | none => none
    | some slot =>
      let entry := table.entries slot
      if entry.rights &&& required ≠ required ∨ entry.retainedReferences = uint32Max ∨
          table.retainedReferences = uint32Max then none
      else some
        ({ table.setEntry slot { entry with retainedReferences := entry.retainedReferences + 1 } with
            retainedReferences := table.retainedReferences + 1 },
          { table := name, entry := slot, object := entry.object, release := entry.release,
            kind := entry.kind, active := true })

/-- `process_handle_release_ref` on the table of an active reference to `slot`. -/
def processHandleReleaseRef (table : HandleTable) (slot : Slot) : HandleTable × List Callback :=
  let entry := table.entries slot
  if entry.retainedReferences ≠ 0 ∧ table.retainedReferences ≠ 0 then
    let dropped := { entry with retainedReferences := entry.retainedReferences - 1 }
    let counted := { table with retainedReferences := table.retainedReferences - 1 }
    if entry.closing = true ∧ dropped.retainedReferences = 0 then
      (counted.setEntry slot { dropped with object := 0, release := 0 },
        if entry.release ≠ 0 then [.release slot entry.release entry.object] else [])
    else (counted.setEntry slot dropped, [])
  else (table, [])

/-! ## Inheritance -/

/-- The source entries an inheriting table takes over. -/
def ProcessHandle.inherited (entry : ProcessHandle) : Bool :=
  entry.object != 0 && !entry.closing && entry.inheritable

/-- `process_handle_table_inherit` into a table distinct from its source. -/
def processHandleTableInherit (destination source : HandleTable) :
    Bool × HandleTable × List Callback :=
  if (List.finRange handleCapacity).any (fun slot => (destination.entries slot).object != 0 ||
      ((source.entries slot).inherited && (source.entries slot).retain == 0)) then
    (false, destination, [])
  else
    (true,
      { destination with entries := fun slot =>
          if (source.entries slot).inherited then
            { source.entries slot with retainedReferences := 0, closing := false }
          else destination.entries slot },
      (List.finRange handleCapacity).filterMap fun slot =>
        if (source.entries slot).inherited then
          some (.retain slot (source.entries slot).retain (source.entries slot).object)
        else none)

end KernelBoot.Process
