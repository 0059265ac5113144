import KernelBoot.Lib.Cover
import KernelBoot.Lib.Run
import KernelBoot.Network.Reassembly

/-!
# What the slots of the reassembly table hold

`Tracked` follows a run of calls and keeps, for every slot, the fragments that were stored in it since
it was last cleared; it only watches (`run_trackStep_table`). `EachSlot.step` is the rule for what is
true of every slot in use and its fragments: it has to hold of a slot that was just taken, and storing a
fragment has to keep it. In every run a slot holds exactly its fragments (`Holds`): its bitmap marks the
positions they cover, its payload has their bytes there, and its count is the sum of their lengths.
-/

namespace KernelBoot.Network

open Lib List

variable {i : Nat} {call : ReassemblyCall}

section Slots

/-- A position of a fragment. -/
abbrev Fragment.Covers (fragment : Fragment) (p : Nat) : Prop :=
  Lib.Covers Fragment.offset (fun f => f.payload.length) fragment p

/-- Two fragments without a common position. -/
abbrev Fragment.Apart : Fragment → Fragment → Prop :=
  Lib.Apart Fragment.offset fun f => f.payload.length

/-- The byte of a fragment at a position of its datagram. -/
def Fragment.byteAt (fragment : Fragment) (p : Nat) : UInt8 :=
  fragment.payload.getD (p - fragment.offset) 0

/-- An entry holds these fragments and nothing else. -/
structure Holds (entry : ReassemblyEntry) (log : List Fragment) : Prop where
  bits : ∀ p, entry.bitmap.test p = true ↔ ∃ f ∈ log, f.Covers p
  bytes : ∀ f ∈ log, ∀ p, f.Covers p → entry.payload p = f.byteAt p
  received : entry.received = (log.map fun f => f.payload.length).sum
  apart : log.Pairwise Fragment.Apart
  ok : ∀ f ∈ log, f.ok

variable {entry : ReassemblyEntry} {log : List Fragment} {fragment : Fragment}

theorem test_foldl_set (b : Bitmap) (l : List Nat) (p : Nat) :
    (l.foldl Bitmap.set b).test p = (b.test p || decide (p ∈ l)) := by
  induction l generalizing b with
  | nil => simp
  | cons a l ih => simp [ih, Bitmap.test_set, Bool.or_assoc]

theorem store_test (fragment : Fragment) (entry : ReassemblyEntry) (p : Nat) :
    (store fragment entry).bitmap.test p = true ↔ entry.bitmap.test p = true ∨ fragment.Covers p := by
  rw [store, test_foldl_set, Bool.or_eq_true, decide_eq_true_eq, mem_range'_1]
  rfl

theorem store_payload (fragment : Fragment) (entry : ReassemblyEntry) (p : Nat) :
    (store fragment entry).payload p = if fragment.Covers p then fragment.byteAt p
      else entry.payload p := rfl

/-- A free slot that is taken holds nothing. -/
theorem holds_openEntry (datagram : Datagram) (h : entry.valid = false) :
    Holds (openEntry datagram entry) [] where
  bits p := by
    rw [openEntry, if_neg (by simp [h])]
    simp [Bitmap.test]
  bytes := forall_mem_nil _
  received := by
    rw [openEntry, if_neg (by simp [h])]
    rfl
  apart := .nil
  ok := forall_mem_nil _

theorem not_overlaps_iff :
    ¬overlaps fragment entry ↔ ∀ p, fragment.Covers p → entry.bitmap.test p = false := by
  rw [overlaps]
  simp only [mem_range'_1, not_exists, not_and, Bool.not_eq_true]
  rfl

/-- A fragment that overlaps none of the others is stored beside them. -/
theorem Holds.store (h : Holds entry log) (hok : fragment.ok) (hfree : ¬overlaps fragment entry) :
    Holds (store fragment entry) (log ++ [fragment]) where
  bits p := by
    rw [store_test, h.bits]
    simp [or_and_right, exists_or]
  bytes f hf p hp := by
    rw [store_payload]
    rcases mem_append.mp hf with hold | hnew
    · have hset : entry.bitmap.test p = true := (h.bits p).mpr ⟨f, hold, hp⟩
      have hnot : ¬fragment.Covers p := fun hcovers =>
        Bool.noConfusion (hset.symm.trans (not_overlaps_iff.mp hfree p hcovers))
      rw [if_neg hnot, h.bytes f hold p hp]
    · obtain rfl := mem_singleton.mp hnew
      rw [if_pos hp]
  received := by
    rw [map_append, sum_append, ← h.received]
    rfl
  apart := by
    rw [pairwise_append]
    refine ⟨h.apart, pairwise_singleton _ _, ?_⟩
    intro f hf g hg p hp
    obtain rfl := mem_singleton.mp hg
    have hset : entry.bitmap.test p = true := (h.bits p).mpr ⟨f, hf, hp.1⟩
    exact Bool.noConfusion (hset.symm.trans (not_overlaps_iff.mp hfree p hp.2))
  ok := forall_mem_append.mpr ⟨h.ok, forall_mem_singleton.mpr hok⟩

end Slots

section Select

variable {table : ReassemblyTable} {datagram : Datagram}

/-- What the search for a slot has found, looking at the slots from `i` on. -/
theorem selectLoop_cases (left i : Nat) (selected : Option Nat) (oldest : Nat)
    (hend : i + left = reassemblySlots) (holdest : oldest < reassemblySlots)
    (hfree : ∀ j, selected = some j → j < reassemblySlots ∧ (table.entries j).valid = false)
    (hbefore : ∀ j < i, ¬sameDatagram (table.entries j) datagram)
    (hfull : selected = none → ∀ j < i, (table.entries j).valid = true) :
    let slot := selectLoop table datagram left i selected oldest
    slot < reassemblySlots ∧ (sameDatagram (table.entries slot) datagram ∨
      (∀ j < reassemblySlots, ¬sameDatagram (table.entries j) datagram) ∧
        ((table.entries slot).valid = false ∨
          ∀ j < reassemblySlots, (table.entries j).valid = true)) := by
  induction left generalizing i selected oldest with
  | zero =>
    obtain rfl : i = reassemblySlots := hend
    rw [selectLoop]
    cases selected with
    | none => exact ⟨holdest, .inr ⟨hbefore, .inr (hfull rfl)⟩⟩
    | some j => exact ⟨(hfree j rfl).1, .inr ⟨hbefore, .inl (hfree j rfl).2⟩⟩
  | succ left ih =>
    have hi : i < reassemblySlots := by omega
    rw [selectLoop]
    by_cases hsame : sameDatagram (table.entries i) datagram
    · rw [if_pos hsame]
      exact ⟨hi, .inl hsame⟩
    rw [if_neg hsame]
    have hbefore' : ∀ j < i + 1, ¬sameDatagram (table.entries j) datagram := by
      intro j hj
      rcases Nat.lt_succ_iff_lt_or_eq.mp hj with hlt | rfl
      · exact hbefore j hlt
      · exact hsame
    by_cases hvalid : (table.entries i).valid = false
    · rw [if_pos hvalid]
      refine ih (i + 1) (some i) oldest (by omega) holdest ?_ hbefore' (fun h => nomatch h)
      rintro j ⟨⟩
      exact ⟨hi, hvalid⟩
    rw [if_neg hvalid]
    have hfull' : selected = none → ∀ j < i + 1, (table.entries j).valid = true := by
      intro hnone j hj
      rcases Nat.lt_succ_iff_lt_or_eq.mp hj with hlt | rfl
      · exact hfull hnone j hlt
      · exact Bool.not_eq_false _ ▸ hvalid
    split
    · exact ih (i + 1) selected i (by omega) hi hfree hbefore' hfull'
    · exact ih (i + 1) selected oldest (by omega) holdest hfree hbefore' hfull'

/-- The slot for a datagram: its own if it has one, else a free one, unless all are taken. -/
theorem selectSlot_cases (table : ReassemblyTable) (datagram : Datagram) :
    selectSlot table datagram < reassemblySlots ∧
      (sameDatagram (table.entries (selectSlot table datagram)) datagram ∨
        (∀ j < reassemblySlots, ¬sameDatagram (table.entries j) datagram) ∧
          ((table.entries (selectSlot table datagram)).valid = false ∨
            ∀ j < reassemblySlots, (table.entries j).valid = true)) :=
  selectLoop_cases reassemblySlots 0 none 0 (Nat.zero_add _) (by decide) (fun _ h => nomatch h)
    (fun _ h => absurd h (Nat.not_lt_zero _)) (fun _ _ h => absurd h (Nat.not_lt_zero _))

/-- The slot that `ipv4_reassembly_add` chooses, after the timeouts. -/
def ReassemblyTable.slotFor (table : ReassemblyTable) (fragment : Fragment) : Nat :=
  selectSlot (reassemblyExpire fragment.now fragment.timeout table) fragment.datagram

/-- The entry that the fragment is given. -/
def ReassemblyTable.entryFor (table : ReassemblyTable) (fragment : Fragment) : ReassemblyEntry :=
  openEntry fragment.datagram
    ((reassemblyExpire fragment.now fragment.timeout table).entries (table.slotFor fragment))

theorem slotFor_lt (table : ReassemblyTable) (fragment : Fragment) :
    table.slotFor fragment < reassemblySlots := (selectSlot_cases _ _).1

theorem openEntry_of_valid {entry : ReassemblyEntry} (h : entry.valid = true) :
    openEntry datagram entry = entry := if_pos h

theorem entryFor_valid (table : ReassemblyTable) (fragment : Fragment) :
    (table.entryFor fragment).valid = true := by
  rw [ReassemblyTable.entryFor, openEntry]
  split
  · assumption
  · rfl

variable {fragment : Fragment}

theorem reassemblyAdd_of_ok (table : ReassemblyTable) (h : fragment.ok) :
    reassemblyAdd fragment table = ((addToEntry fragment (table.entryFor fragment)).1,
      ⟨Function.update (reassemblyExpire fragment.now fragment.timeout table).entries
        (table.slotFor fragment) (addToEntry fragment (table.entryFor fragment)).2⟩) := if_pos h

theorem reassemblyAdd_of_not_ok (table : ReassemblyTable) (h : ¬fragment.ok) :
    reassemblyAdd fragment table = (none, table) := if_neg h

/-- What a call makes of a slot: the chosen one has the outcome of the fragment, the others have their
timeouts. -/
theorem reassemblyStep_add_entries (table : ReassemblyTable) (h : fragment.ok) (i : Nat) :
    (reassemblyStep table (.add fragment)).entries i =
      if i = table.slotFor fragment then (addToEntry fragment (table.entryFor fragment)).2
      else (reassemblyExpire fragment.now fragment.timeout table).entries i := by
  rw [reassemblyStep, reassemblyEffect, reassemblyAdd_of_ok table h]
  exact Function.update_apply ..

/-- What a fragment can do: it is refused and its slot cleared, it completes the entry, or it is
stored. -/
theorem addToEntry_cases (fragment : Fragment) (entry : ReassemblyEntry) :
    addToEntry fragment entry = (none, clearEntry entry) ∨
      ¬lengthClash fragment entry ∧ ¬overlaps fragment entry ∧
        (complete (store fragment entry) fragment.capacity ∧
            addToEntry fragment entry =
              (some (assembled (store fragment entry)), clearEntry (store fragment entry)) ∨
          ¬complete (store fragment entry) fragment.capacity ∧
            addToEntry fragment entry = (none, store fragment entry)) := by
  rw [addToEntry]
  by_cases hrefused : lengthClash fragment entry ∨ overlaps fragment entry
  · exact .inl (if_pos hrefused)
  · rw [if_neg hrefused]
    rw [not_or] at hrefused
    by_cases hcomplete : complete (store fragment entry) fragment.capacity
    · exact .inr ⟨hrefused.1, hrefused.2, .inl ⟨hcomplete, if_pos hcomplete⟩⟩
    · exact .inr ⟨hrefused.1, hrefused.2, .inr ⟨hcomplete, if_neg hcomplete⟩⟩

end Select

section Tracked

/-- The table, and the fragments stored in each slot since it was last cleared. -/
structure Tracked where
  table : ReassemblyTable
  log : Nat → List Fragment

/-- The fragments of a slot after the timeouts of a call. -/
def Tracked.logAt (t : Tracked) (now timeout i : Nat) : List Fragment :=
  if ((reassemblyExpire now timeout t.table).entries i).valid = true then t.log i else []

/-- The fragments in the slot of a fragment, before the call stores it. -/
def Tracked.current (t : Tracked) (fragment : Fragment) : List Fragment :=
  t.logAt fragment.now fragment.timeout (t.table.slotFor fragment)

/-- The fragments of a slot after a call that left it in use. -/
def Tracked.nextLog (t : Tracked) : ReassemblyCall → Nat → List Fragment
  | .expire _ _, i => t.log i
  | .add fragment, i =>
    if fragment.ok ∧ i = t.table.slotFor fragment then t.current fragment ++ [fragment] else t.log i

/-- A call, watched: a slot that is free after it holds nothing. -/
def trackStep (t : Tracked) (call : ReassemblyCall) : Tracked where
  table := reassemblyStep t.table call
  log i := if ((reassemblyStep t.table call).entries i).valid = true then t.nextLog call i else []

/-- A table with free slots only. -/
def freshTrack (table : ReassemblyTable) : Tracked := ⟨table, fun _ => []⟩

@[simp] theorem trackStep_table (t : Tracked) (call : ReassemblyCall) :
    (trackStep t call).table = reassemblyStep t.table call := rfl

/-- Watching changes nothing. -/
theorem run_trackStep_table (t : Tracked) (calls : List ReassemblyCall) :
    (run trackStep t calls).table = run reassemblyStep t.table calls :=
  run_watched trackStep_table t calls

variable {t : Tracked}

theorem expireEntry_of_valid {now timeout : Nat} {entry : ReassemblyEntry}
    (h : (expireEntry now timeout entry).valid = true) : expireEntry now timeout entry = entry := by
  rw [expireEntry] at h ⊢
  split at h
  · exact absurd h Bool.false_ne_true
  · rw [if_neg ‹_›]

theorem expire_entries_of_valid {now timeout : Nat}
    (h : ((reassemblyExpire now timeout t.table).entries i).valid = true) :
    (reassemblyExpire now timeout t.table).entries i = t.table.entries i := expireEntry_of_valid h

/-- The log of a slot that is in use after a call. -/
theorem trackStep_log_of_valid (h : ((trackStep t call).table.entries i).valid = true) :
    (trackStep t call).log i = t.nextLog call i := if_pos h

/-- A slot in use after a fragment arrived: it stored the fragment, or it is as it was. -/
theorem trackStep_add_used {f : Fragment} (hok : f.ok)
    (hvalid : ((trackStep t (.add f)).table.entries i).valid = true) :
    (i = t.table.slotFor f ∧ ¬lengthClash f (t.table.entryFor f) ∧ ¬overlaps f (t.table.entryFor f) ∧
        (trackStep t (.add f)).table.entries i = store f (t.table.entryFor f) ∧
        (trackStep t (.add f)).log i = t.current f ++ [f]) ∨
      i ≠ t.table.slotFor f ∧ ((reassemblyExpire f.now f.timeout t.table).entries i).valid = true ∧
        (trackStep t (.add f)).table.entries i = t.table.entries i ∧
        (trackStep t (.add f)).log i = t.log i := by
  have hlog := trackStep_log_of_valid hvalid
  rw [Tracked.nextLog] at hlog
  have hentry := reassemblyStep_add_entries t.table hok i
  rw [← trackStep_table] at hentry
  by_cases hslot : i = t.table.slotFor f
  · rw [if_pos ⟨hok, hslot⟩] at hlog
    rw [if_pos hslot] at hentry
    rcases addToEntry_cases f (t.table.entryFor f) with
      hrefused | ⟨hclash, hoverlap, ⟨-, hdone⟩ | ⟨-, hstored⟩⟩
    · rw [hentry, hrefused] at hvalid
      exact absurd hvalid Bool.false_ne_true
    · rw [hentry, hdone] at hvalid
      exact absurd hvalid Bool.false_ne_true
    · rw [hstored] at hentry
      exact .inl ⟨hslot, hclash, hoverlap, hentry, hlog⟩
  · rw [if_neg fun hboth => hslot hboth.2] at hlog
    rw [if_neg hslot] at hentry
    rw [hentry] at hvalid
    exact .inr ⟨hslot, hvalid, hentry.trans (expire_entries_of_valid hvalid), hlog⟩

theorem trackStep_add_of_not_ok {f : Fragment} (hok : ¬f.ok) :
    (trackStep t (.add f)).table = t.table := by
  rw [trackStep_table, reassemblyStep, reassemblyEffect, reassemblyAdd_of_not_ok t.table hok]

/-- A slot in use after a call: it stored the fragment of the call, or it is as it was. -/
theorem trackStep_used (hvalid : ((trackStep t call).table.entries i).valid = true) :
    (∃ f : Fragment, call = .add f ∧ f.ok ∧ ¬lengthClash f (t.table.entryFor f) ∧
        ¬overlaps f (t.table.entryFor f) ∧
        (trackStep t call).table.entries i = store f (t.table.entryFor f) ∧
        (trackStep t call).log i = t.current f ++ [f]) ∨
      (trackStep t call).table.entries i = t.table.entries i ∧ (trackStep t call).log i = t.log i := by
  cases call with
  | expire now timeout => exact .inr ⟨expire_entries_of_valid hvalid, trackStep_log_of_valid hvalid⟩
  | add f =>
    by_cases hok : f.ok
    · rcases trackStep_add_used hok hvalid with ⟨-, hclash, hoverlap, hstored⟩ | ⟨-, -, hsame⟩
      · exact .inl ⟨f, rfl, hok, hclash, hoverlap, hstored⟩
      · exact .inr hsame
    · have hlog := trackStep_log_of_valid hvalid
      rw [Tracked.nextLog, if_neg fun hboth => hok hboth.1] at hlog
      exact .inr ⟨congrArg (·.entries i) (trackStep_add_of_not_ok hok), hlog⟩

/-- A relation between entries and fragments that every slot in use has. -/
def EachSlot (Q : ReassemblyEntry → List Fragment → Prop) (t : Tracked) : Prop :=
  ∀ i < reassemblySlots, (t.table.entries i).valid = true → Q (t.table.entries i) (t.log i)

variable {Q : ReassemblyEntry → List Fragment → Prop}

theorem eachSlot_freshTrack {table : ReassemblyTable} (h : Initialized table) :
    EachSlot Q (freshTrack table) :=
  fun i hi hvalid => Bool.noConfusion ((h i hi).symm.trans hvalid)

/-- The entry that a fragment is given has the relation, too. -/
theorem EachSlot.entryFor (h : EachSlot Q t)
    (hopen : ∀ datagram entry, entry.valid = false → Q (openEntry datagram entry) [])
    (fragment : Fragment) :
    Q (t.table.entryFor fragment) (t.current fragment) := by
  rw [ReassemblyTable.entryFor, Tracked.current, Tracked.logAt]
  by_cases hvalid : ((reassemblyExpire fragment.now fragment.timeout t.table).entries
      (t.table.slotFor fragment)).valid = true
  · have hsame := expire_entries_of_valid hvalid
    rw [openEntry_of_valid hvalid, if_pos hvalid, hsame]
    exact h _ (slotFor_lt t.table fragment) (hsame ▸ hvalid)
  · rw [if_neg hvalid]
    exact hopen _ _ (Bool.not_eq_true _ ▸ hvalid)

/-- The invariant rule for slots. -/
theorem EachSlot.step (h : EachSlot Q t)
    (hopen : ∀ datagram entry, entry.valid = false → Q (openEntry datagram entry) [])
    (hstore : ∀ f, call = .add f → f.ok → ¬lengthClash f (t.table.entryFor f) →
      ¬overlaps f (t.table.entryFor f) → Q (t.table.entryFor f) (t.current f) →
        Q (store f (t.table.entryFor f)) (t.current f ++ [f])) : EachSlot Q (trackStep t call) := by
  intro i hi hvalid
  rcases trackStep_used hvalid with ⟨f, rfl, hok, hclash, hoverlap, hentry, hlog⟩ | ⟨hentry, hlog⟩
  · rw [hentry, hlog]
    exact hstore f rfl hok hclash hoverlap (h.entryFor hopen f)
  · rw [hentry] at hvalid ⊢
    rw [hlog]
    exact h i hi hvalid

/-- In every run, every slot in use holds its fragments. -/
theorem eachSlot_holds (h : EachSlot Holds t) (calls : List ReassemblyCall) :
    EachSlot Holds (run trackStep t calls) :=
  run_keeps_any (fun _ _ h => h.step (fun datagram _ hfree => holds_openEntry datagram hfree)
    fun _ _ hok _ hoverlap hholds => hholds.store hok hoverlap) h calls

/-- The fragments of a slot arrived in the run. -/
theorem eachSlot_mem {past : List ReassemblyCall}
    (h : EachSlot (fun _ log => ∀ f ∈ log, .add f ∈ past) t) (calls : List ReassemblyCall) :
    EachSlot (fun _ log => ∀ f ∈ log, .add f ∈ past ++ calls) (run trackStep t calls) := by
  induction calls generalizing t past with
  | nil =>
    rw [append_nil]
    exact h
  | cons call calls ih =>
    have hmore : EachSlot (fun _ log => ∀ f ∈ log, .add f ∈ past ++ [call]) t :=
      fun i hi hvalid f hf => mem_append_left _ (h i hi hvalid f hf)
    have hstep : EachSlot (fun _ log => ∀ f ∈ log, .add f ∈ past ++ [call]) (trackStep t call) := by
      apply hmore.step
      · intro _ _ _ f hf
        exact absurd hf not_mem_nil
      · rintro f rfl - - - hlog
        exact forall_mem_append.mpr
          ⟨hlog, forall_mem_singleton.mpr (mem_append_right _ (mem_singleton_self _))⟩
    have hrest := ih hstep
    rw [append_assoc] at hrest
    exact hrest

end Tracked

end KernelBoot.Network
