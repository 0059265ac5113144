import KernelBoot.Process.Handle
import KernelBoot.Lib.Lifetime

/-!
# Handle tables in a running system

Any number of tables, every one initialized, and the references taken from them. A step is one call
on the interface of `handle.c`. `History` replays the same calls next to a record of what they did:
which entries were installed, which callbacks ran for them, and how often a slot was closed. The
record is only written, never read, by the calls.
-/

namespace KernelBoot.Process

open Lib

structure Handles where
  tables : Nat → HandleTable
  refs : List HandleRef

inductive HandleCall where
  | openKind (table : Nat) (object : Pointer) (rights : Rights) (release retain : Pointer)
      (kind : ObjectKind)
  | duplicate (table handle : Nat) (rights : Rights)
  | setInheritable (table handle : Nat) (inheritable : Int)
  | close (table handle : Nat)
  | closeAll (table : Nat)
  | getRetain (table handle : Nat) (required : Rights)
  | releaseRef (index : Nat)
  | inherit (destination source : Nat)

def Handles.initial : Handles where
  tables := fun _ => processHandleTableInitialize
  refs := []

def Handles.setTable (s : Handles) (t : Nat) (table : HandleTable) : Handles :=
  { s with tables := Function.update s.tables t table }

/-- A released `process_handle_ref_t`. -/
def HandleRef.cleared (ref : HandleRef) : HandleRef :=
  { ref with object := 0, release := 0, active := false }

/-- One call: the state it leaves and the callbacks it makes, each with its table. -/
def HandleCall.effect (s : Handles) : HandleCall → Handles × List (Nat × Callback)
  | .openKind t object rights release retain kind =>
    (s.setTable t (processHandleOpenOwnedKind (s.tables t) object rights release retain kind).2, [])
  | .duplicate t handle rights =>
    let result := processHandleDuplicate (s.tables t) handle rights
    (s.setTable t result.2.1, result.2.2.map (t, ·))
  | .setInheritable t handle inheritable =>
    (s.setTable t (processHandleSetInheritable (s.tables t) handle inheritable).2, [])
  | .close t handle =>
    let result := processHandleClose (s.tables t) handle
    (s.setTable t result.2.1, result.2.2.map (t, ·))
  | .closeAll t =>
    let result := processHandleTableCloseAll (s.tables t)
    (s.setTable t result.1, result.2.map (t, ·))
  | .getRetain t handle required =>
    match processHandleGetRetain (s.tables t) handle required t with
    | none => (s, [])
    | some (table, ref) => ({ s.setTable t table with refs := s.refs ++ [ref] }, [])
  | .releaseRef index =>
    match s.refs[index]? with
    | none => (s, [])
    | some ref =>
      -- a reference already released is inactive, and releasing it again does nothing
      if ref.active = false then (s, [])
      else
        let result := processHandleReleaseRef (s.tables ref.table) ref.entry
        ({ s.setTable ref.table result.1 with refs := s.refs.set index ref.cleared },
          result.2.map (ref.table, ·))
  | .inherit destination source =>
    if destination = source then (s, [])
    else
      let result := processHandleTableInherit (s.tables destination) (s.tables source)
      (s.setTable destination result.2.1, result.2.2.map (source, ·))

def HandleCall.step (s : Handles) (call : HandleCall) : Handles := (call.effect s).1

/-! ## What a call returns -/

/-- The handle a call answers, with the table, the object and the rights it is for. -/
def HandleCall.returned (s : Handles) : HandleCall → Option (Nat × Nat × Pointer × Rights)
  | .openKind t object rights release retain kind =>
    some (t, (processHandleOpenOwnedKind (s.tables t) object rights release retain kind).1,
      object, rights)
  | .duplicate t handle rights =>
    (s.tables t).resolve handle |>.map fun source =>
      (t, (processHandleDuplicate (s.tables t) handle rights).1,
        ((s.tables t).entries source).object,
        if rights = 0 then ((s.tables t).entries source).rights else rights)
  | _ => none

/-- The calls that close the handle `handle` of table `t`. -/
def HandleCall.Closes (call : HandleCall) (t handle : Nat) : Prop :=
  call = .close t handle ∨ call = .closeAll t

/-- Whether a call closes a slot: a successful close of it, or a close of its whole table. -/
def HandleCall.closesSlot (s : Handles) (call : HandleCall) (t : Nat) (slot : Slot) : Bool :=
  match call with
  | .close t' handle => t' == t && (s.tables t).resolve handle == some slot
  | .closeAll t' => t' == t
  | _ => false

/-! ## The record of a run -/

/-- What an entry owns: an object, and the function that releases it (0 for none). -/
structure Owned where
  object : Pointer
  release : Pointer
  deriving DecidableEq

/-- An entry of the run: its table and slot, the how-manieth of that slot it is, what it owns. -/
abbrev EntryBirth := Lifetime.Birth (Nat × Slot) Owned

structure History where
  handles : Handles
  /-- How many entries a slot has held. -/
  installs : Nat → Slot → Nat
  /-- How often a slot was closed. -/
  closes : Nat → Slot → Nat
  births : List EntryBirth
  /-- The entry of each release call, with the object and the function of the call. -/
  released : List EntryBirth
  /-- The object of each successful open. -/
  opened : List Pointer
  /-- The object of each retain call. -/
  retained : List Pointer

def History.initial : History where
  handles := .initial
  installs := fun _ _ => 0
  closes := fun _ _ => 0
  births := []
  released := []
  opened := []
  retained := []

/-- Slots of table `t` that were empty and are not. -/
def installedSlots (before after : Handles) (t : Nat) : List Slot :=
  (List.finRange handleCapacity).filter fun slot =>
    ((before.tables t).entries slot).object == 0 && ((after.tables t).entries slot).object != 0

/-- The table a call may write entries of. -/
def HandleCall.target (s : Handles) : HandleCall → Nat
  | .openKind t _ _ _ _ _ => t
  | .duplicate t _ _ => t
  | .setInheritable t _ _ => t
  | .close t _ => t
  | .closeAll t => t
  | .getRetain t _ _ => t
  | .releaseRef index => (s.refs[index]?.map HandleRef.table).getD 0
  | .inherit destination _ => destination

def HandleCall.openedObject (s : Handles) : HandleCall → List Pointer
  | .openKind t object rights release retain kind =>
    if (processHandleOpenOwnedKind (s.tables t) object rights release retain kind).1 = 0 then []
    else [object]
  | _ => []

def Callback.retainedObject : Callback → Option Pointer
  | .retain _ _ object => some object
  | .release _ _ _ => none

/-- A release call, as the entry it is made for. -/
def Callback.releasedEntry (installs : Nat → Slot → Nat) : Nat × Callback → Option EntryBirth
  | (t, .release slot function object) => some ⟨(t, slot), installs t slot, ⟨object, function⟩⟩
  | (_, .retain _ _ _) => none

/-- The record after a call that left `after` and made `callbacks`. -/
def History.record (h : History) (call : HandleCall) (after : Handles)
    (callbacks : List (Nat × Callback)) : History :=
  let t := call.target h.handles
  let installed := installedSlots h.handles after t
  { handles := after
    installs := fun t' slot =>
      if t' = t ∧ slot ∈ installed then h.installs t' slot + 1 else h.installs t' slot
    closes := fun t' slot =>
      if call.closesSlot h.handles t' slot then h.closes t' slot + 1 else h.closes t' slot
    births := h.births ++ installed.map fun slot =>
      ⟨(t, slot), h.installs t slot + 1,
        ⟨((after.tables t).entries slot).object, ((after.tables t).entries slot).release⟩⟩
    released := h.released ++ callbacks.filterMap (Callback.releasedEntry h.installs)
    opened := h.opened ++ call.openedObject h.handles
    retained := h.retained ++ callbacks.filterMap fun call => call.2.retainedObject }

def History.step (h : History) (call : HandleCall) : History :=
  h.record call (call.effect h.handles).1 (call.effect h.handles).2

end KernelBoot.Process
