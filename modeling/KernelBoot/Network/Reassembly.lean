import Mathlib
import KernelBoot.Lib.Bitmap

/-!
# Reassembly of IPv4 datagrams (`kernel/drivers/network/reassembly.c`)

Four slots hold the fragments of datagrams that are not complete yet. `ipv4_reassembly_add` puts a
fragment into a slot and answers with the whole payload when the slot says that nothing is missing.
Clearing a slot leaves its payload, its bitmap and its names as they are. The calls take the table's
lock; here they are one after the other.
-/

namespace KernelBoot.Network

open Lib

/-- `IPV4_REASSEMBLY_SLOTS`. -/
def reassemblySlots : Nat := 4

/-- `IPV4_REASSEMBLY_MAX_PAYLOAD`. -/
def reassemblyMaxPayload : Nat := 65535 - 20

/-- What tells the fragments of one datagram from those of others. -/
structure Datagram where
  identification : UInt16
  source : Vector UInt8 4
  destination : Vector UInt8 4
  protocol : UInt8
  deriving DecidableEq

/-- `ipv4_reassembly_entry_t`. -/
structure ReassemblyEntry where
  valid : Bool
  datagram : Datagram
  firstFragment : Bool
  totalLength : Nat
  received : Nat
  lastSeen : Nat
  payload : Nat → UInt8
  bitmap : Bitmap

/-- `ipv4_reassembly_table_t`: the slots below `reassemblySlots`. -/
structure ReassemblyTable where
  entries : Nat → ReassemblyEntry

/-- The arguments of `ipv4_reassembly_add`. -/
structure Fragment where
  datagram : Datagram
  offset : Nat
  more : Bool
  payload : List UInt8
  now : Nat
  timeout : Nat
  capacity : Nat

/-- Where the fragment ends in its datagram. -/
def Fragment.stop (fragment : Fragment) : Nat := fragment.offset + fragment.payload.length

/-- `clear_entry`. -/
def clearEntry (entry : ReassemblyEntry) : ReassemblyEntry :=
  { entry with valid := false, firstFragment := false, totalLength := 0, received := 0 }

/-- `same_datagram`. -/
def sameDatagram (entry : ReassemblyEntry) (datagram : Datagram) : Prop :=
  entry.valid = true ∧ entry.datagram = datagram

instance (entry : ReassemblyEntry) (datagram : Datagram) : Decidable (sameDatagram entry datagram) :=
  inferInstanceAs (Decidable (_ ∧ _))

/-- The timeout of one entry. -/
def expireEntry (now timeout : Nat) (entry : ReassemblyEntry) : ReassemblyEntry :=
  if entry.valid = true ∧ timeout ≠ 0 ∧ entry.lastSeen ≤ now ∧ timeout ≤ now - entry.lastSeen then
    clearEntry entry
  else entry

/-- `ipv4_reassembly_expire`. -/
def reassemblyExpire (now timeout : Nat) (table : ReassemblyTable) : ReassemblyTable where
  entries i := expireEntry now timeout (table.entries i)

/-- The checks on the arguments of `ipv4_reassembly_add`. -/
def Fragment.ok (fragment : Fragment) : Prop :=
  fragment.payload.length ≠ 0 ∧ fragment.offset < reassemblyMaxPayload ∧
    fragment.payload.length ≤ reassemblyMaxPayload - fragment.offset ∧
    ¬(fragment.more = true ∧ fragment.payload.length &&& 7 ≠ 0)

instance (fragment : Fragment) : Decidable fragment.ok := inferInstanceAs (Decidable (_ ∧ _))

/-- The search for a slot: the datagram's own, else the last free one, else the one that was not used
for the longest time. -/
def selectLoop (table : ReassemblyTable) (datagram : Datagram) :
    (left i : Nat) → (selected : Option Nat) → (oldest : Nat) → Nat
  | 0, _, selected, oldest => selected.getD oldest
  | left + 1, i, selected, oldest =>
    if sameDatagram (table.entries i) datagram then i
    else if (table.entries i).valid = false then
      selectLoop table datagram left (i + 1) (some i) oldest
    else if selected = none ∧ (table.entries i).lastSeen < (table.entries oldest).lastSeen then
      selectLoop table datagram left (i + 1) selected i
    else selectLoop table datagram left (i + 1) selected oldest

def selectSlot (table : ReassemblyTable) (datagram : Datagram) : Nat :=
  selectLoop table datagram reassemblySlots 0 none 0

/-- A free slot is taken for a datagram. -/
def openEntry (datagram : Datagram) (entry : ReassemblyEntry) : ReassemblyEntry :=
  if entry.valid = true then entry
  else
    { entry with
      valid := true, datagram := datagram, totalLength := 0, received := 0, firstFragment := false
      bitmap := fun _ => 0 }

/-- The length that an earlier last fragment gave does not allow this fragment. -/
def lengthClash (fragment : Fragment) (entry : ReassemblyEntry) : Prop :=
  (entry.totalLength ≠ 0 ∧ entry.totalLength < fragment.stop) ∨
    (fragment.more = false ∧ entry.totalLength ≠ 0 ∧ entry.totalLength ≠ fragment.stop)

instance (fragment : Fragment) (entry : ReassemblyEntry) : Decidable (lengthClash fragment entry) :=
  inferInstanceAs (Decidable (_ ∨ _))

/-- Some byte of the fragment was there before. -/
def overlaps (fragment : Fragment) (entry : ReassemblyEntry) : Prop :=
  ∃ i ∈ List.range' fragment.offset fragment.payload.length, entry.bitmap.test i = true

instance (fragment : Fragment) (entry : ReassemblyEntry) : Decidable (overlaps fragment entry) :=
  inferInstanceAs (Decidable (∃ i ∈ _, _))

/-- The fragment is put in its place. A last fragment gives the length. -/
def store (fragment : Fragment) (entry : ReassemblyEntry) : ReassemblyEntry :=
  { entry with
    totalLength := if fragment.more then entry.totalLength else fragment.stop
    payload := fun p =>
      if fragment.offset ≤ p ∧ p < fragment.stop then fragment.payload.getD (p - fragment.offset) 0
      else entry.payload p
    bitmap := (List.range' fragment.offset fragment.payload.length).foldl Bitmap.set entry.bitmap
    received := entry.received + fragment.payload.length
    firstFragment := fragment.offset = 0 || entry.firstFragment
    lastSeen := fragment.now }

/-- Nothing is missing, by the entry's own account. -/
def complete (entry : ReassemblyEntry) (capacity : Nat) : Prop :=
  entry.firstFragment = true ∧ entry.totalLength ≠ 0 ∧ entry.received = entry.totalLength ∧
    entry.totalLength ≤ capacity

instance (entry : ReassemblyEntry) (capacity : Nat) : Decidable (complete entry capacity) :=
  inferInstanceAs (Decidable (_ ∧ _))

/-- The payload of a complete entry. -/
def assembled (entry : ReassemblyEntry) : List UInt8 :=
  (List.range entry.totalLength).map entry.payload

/-- What a fragment does to the entry it was given. -/
def addToEntry (fragment : Fragment) (entry : ReassemblyEntry) :
    Option (List UInt8) × ReassemblyEntry :=
  if lengthClash fragment entry ∨ overlaps fragment entry then (none, clearEntry entry)
  else if complete (store fragment entry) fragment.capacity then
    (some (assembled (store fragment entry)), clearEntry (store fragment entry))
  else (none, store fragment entry)

/-- `ipv4_reassembly_add`: the payload, where the answer is 1. -/
def reassemblyAdd (fragment : Fragment) (table : ReassemblyTable) :
    Option (List UInt8) × ReassemblyTable :=
  if fragment.ok then
    let table := reassemblyExpire fragment.now fragment.timeout table
    let slot := selectSlot table fragment.datagram
    let outcome := addToEntry fragment (openEntry fragment.datagram (table.entries slot))
    (outcome.1, ⟨Function.update table.entries slot outcome.2⟩)
  else (none, table)

/-- The calls. -/
inductive ReassemblyCall where
  | add (fragment : Fragment)
  | expire (now timeout : Nat)

def reassemblyEffect (table : ReassemblyTable) :
    ReassemblyCall → Option (List UInt8) × ReassemblyTable
  | .add fragment => reassemblyAdd fragment table
  | .expire now timeout => (none, reassemblyExpire now timeout table)

def reassemblyStep (table : ReassemblyTable) (call : ReassemblyCall) : ReassemblyTable :=
  (reassemblyEffect table call).2

/-- `ipv4_reassembly_initialize`: whatever the memory held, every slot is free. -/
def Initialized (table : ReassemblyTable) : Prop :=
  ∀ i < reassemblySlots, (table.entries i).valid = false

end KernelBoot.Network
