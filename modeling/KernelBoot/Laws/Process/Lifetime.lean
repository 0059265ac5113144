import KernelBoot.Laws.Process.HandleSystem

/-!
# Lifetimes of handle entries

A slot is a cell of `Lib.Lifetime`: an open, a duplicate or an inheritance fills it, `get_retain` and
`release_ref` take and drop references, and a close closes it. Every call is a legal run of cell
operations, and the release callbacks it makes are the disposals of that run that have a callback. What
the library says of cells then holds of entries.
-/

namespace KernelBoot.Process

open Lib List HandleCall Function
open Lib.Lifetime (Cell Store Op Sound Legal Retired)

variable {entry : ProcessHandle} {slot : Slot} {table : HandleTable} {ref : HandleRef}
  {s' : Handles}
variable {after before : ProcessHandle} {t : Nat} {slots : List Slot} {s : Handles}
  {call : HandleCall} {callbacks : List (Nat × Callback)} {function : Pointer}
  (calls : List HandleCall)

/-! ## Slots as cells -/

/-- A table entry as a cell; `n` is how many entries the slot has held. -/
def entryCell (entry : ProcessHandle) (n : Nat) : Cell Owned where
  content := if entry.object = 0 then none else some ⟨entry.object, entry.release⟩
  closing := entry.closing
  refs := entry.retainedReferences
  number := n

/-- What of an entry its cell shows. -/
structure SameCell (before after : ProcessHandle) : Prop where
  object : after.object = before.object
  release : after.release = before.release
  closing : after.closing = before.closing
  refs : after.retainedReferences = before.retainedReferences

theorem SameCell.refl (entry : ProcessHandle) : SameCell entry entry := ⟨rfl, rfl, rfl, rfl⟩

theorem SameCell.entryCell (h : SameCell before after) (n : Nat) :
    entryCell after n = entryCell before n := by
  simp only [Process.entryCell, h.object, h.release, h.closing, h.refs]

theorem entryCell_content_none {n : Nat} :
    (entryCell entry n).content = none ↔ entry.object = 0 := by
  simp [entryCell]

theorem entryCell_closeEntry (entry : ProcessHandle) (n : Nat) :
    entryCell (closeEntry entry) n = (entryCell entry n).close := by
  fun_cases closeEntry entry with
  | case1 h | case2 h => simp [entryCell, Cell.close, h]

theorem entryCell_install (n : Nat) (hobject : after.object ≠ 0) (hclosing : after.closing = false)
    (hrefs : after.retainedReferences = before.retainedReferences) :
    entryCell after (n + 1) = (entryCell before n).install ⟨after.object, after.release⟩ := by
  simp [entryCell, Cell.install, hobject, hclosing, hrefs]

/-! ## The record and the store -/

/-- The cell store a record stands for. `disposed` also has the entries without a release callback. -/
structure Tracks (h : History) (s : Store (Nat × Slot) Owned) : Prop where
  cells : ∀ t slot, s.cells (t, slot) =
    entryCell ((h.handles.tables t).entries slot) (h.installs t slot)
  births : s.births = h.births
  released : h.released = s.disposed.filter fun b => b.content.release != 0

theorem mem_installedSlots {before after : Handles} : slot ∈ installedSlots before after t ↔
      ((before.tables t).entries slot).object = 0 ∧ ((after.tables t).entries slot).object ≠ 0 := by
  simp [installedSlots]

theorem installedSlots_nodup (before after : Handles) (t : Nat) :
    (installedSlots before after t).Nodup :=
  (nodup_finRange _).filter _

theorem installedSlots_eq_nil {before after : Handles}
    (h : ∀ slot, ((before.tables t).entries slot).object = 0 →
      ((after.tables t).entries slot).object = 0) : installedSlots before after t = [] := by
  rw [eq_nil_iff_forall_not_mem]
  intro slot hslot
  obtain ⟨hb, ha⟩ := mem_installedSlots.mp hslot
  exact ha (h slot hb)

/-- Keys of one table, one for each slot of a list. -/
theorem nodup_keys (t : Nat) (h : slots.Nodup) : (slots.map fun slot => (t, slot)).Nodup :=
  h.map fun _ _ heq => (Prod.mk.inj heq).2

theorem closeEntry_object (h : entry.object = 0) : (closeEntry entry).object = 0 := by
  fun_cases closeEntry entry
  · rfl
  · exact h

/-- Between the two states one entry of one table was written. -/
def Handles.Writes (s after : Handles) (t : Nat) (slot : Slot) (entry : ProcessHandle) : Prop :=
  ∀ t' i, (after.tables t').entries i =
    if t' = t ∧ i = slot then entry else (s.tables t').entries i

theorem writes_setTable (htable : table.entries = Function.update (s.tables t).entries slot entry) :
    s.Writes (s.setTable t table) t slot entry := by
  intro t' i
  by_cases ht : t' = t
  · subst ht
    simp [htable, update_apply]
  · simp [ht]

/-- Writing an entry fills no slot that was empty, if it does not fill its own. -/
theorem Handles.Writes.object (h : s.Writes s' t slot entry) {t' : Nat} {i : Slot}
    (hentry : ((s.tables t).entries slot).object = 0 → entry.object = 0)
    (hi : ((s.tables t').entries i).object = 0) : ((s'.tables t').entries i).object = 0 := by
  rw [h]
  split
  next heq => exact hentry (heq.1 ▸ heq.2 ▸ hi)
  next => exact hi

/-- The record is that of a legal run of the store. -/
def Follows (s : Store (Nat × Slot) Owned) (h : History) : Prop :=
  ∃ ops, Each Lifetime.step Legal s ops ∧ Tracks h (run Lifetime.step s ops)

section Steps

variable {h : History} {s : Store (Nat × Slot) Owned} {call : HandleCall} {after : Handles}
  {callbacks : List (Nat × Callback)} {t : Nat}

/-- A call that fills slots, possibly none, and changes nothing else a cell shows. -/
theorem Tracks.install (htracks : Tracks h s) (ht : call.target h.handles = t)
    (hcallbacks : callbacks.filterMap (Callback.releasedEntry h.installs) = [])
    (hfilled : ∀ slot ∈ installedSlots h.handles after t,
      ((after.tables t).entries slot).closing = false ∧
      ((after.tables t).entries slot).retainedReferences =
        ((h.handles.tables t).entries slot).retainedReferences)
    (hother : ∀ t' slot, ¬ (t' = t ∧ slot ∈ installedSlots h.handles after t) →
      SameCell ((h.handles.tables t').entries slot) ((after.tables t').entries slot)) :
    Follows s (h.record call after callbacks) := by
  set slots := installedSlots h.handles after t with hslots
  have hnodup := nodup_keys t (installedSlots_nodup h.handles after t)
  rw [← hslots] at hnodup
  let o : Nat × Slot → Owned := fun k =>
    ⟨((after.tables t).entries k.2).object, ((after.tables t).entries k.2).release⟩
  refine ⟨(slots.map fun slot => (t, slot)).map fun k => .install k (o k), ?_, ?_⟩
  · refine Lifetime.each_install s o hnodup fun k hk => ?_
    obtain ⟨slot, hslot, rfl⟩ := mem_map.mp hk
    rw [htracks.cells, entryCell_content_none]
    exact (mem_installedSlots.mp hslot).1
  · rw [Lifetime.run_install s o hnodup]
    refine ⟨fun t' slot => ?_, ?_, ?_⟩
    · simp only [History.record, ht, ← hslots]
      by_cases hin : t' = t ∧ slot ∈ slots
      · obtain ⟨rfl, hslot⟩ := hin
        obtain ⟨hclosing, hrefs⟩ := hfilled slot hslot
        rw [if_pos (mem_map_of_mem hslot), if_pos ⟨rfl, hslot⟩, htracks.cells,
          entryCell_install _ (mem_installedSlots.mp hslot).2 hclosing hrefs]
      · rw [if_neg (by simpa [and_comm, eq_comm] using hin), if_neg hin, htracks.cells,
          (hother t' slot hin).entryCell]
    · simp only [History.record, ht, ← hslots, htracks.births, map_map]
      congr 1
      refine map_congr_left fun slot hslot => ?_
      simp only [comp_apply, htracks.cells, o]
      rfl
    · simp only [History.record, hcallbacks, append_nil]
      exact htracks.released

/-- The disposal of a closed cell, kept when it has a callback, is the call that is made. -/
theorem filter_disposal_close (hempty : entry.object = 0 → entry.release = 0) (t : Nat)
    (slot : Slot) (installs : Nat → Slot → Nat) :
    ((Cell.disposal (t, slot) (entryCell entry (installs t slot))
      (entryCell entry (installs t slot)).close).filter fun b => b.content.release != 0) =
    ((closeCalls slot entry).map (t, ·)).filterMap (Callback.releasedEntry installs) := by
  unfold Cell.disposal closeCalls
  by_cases hobject : entry.object = 0
  · simp [entryCell, hobject, hempty hobject]
  · by_cases hrefs : entry.retainedReferences = 0
    · by_cases hrelease : entry.release = 0
      · simp [entryCell, Cell.close, hobject, hrefs, hrelease]
      · simp [entryCell, Cell.close, hobject, hrefs, hrelease, Callback.releasedEntry]
    · simp [entryCell, Cell.close, hobject, hrefs]

/-- A call that closes slots of one table. -/
theorem Tracks.close (htracks : Tracks h s) (ht : call.target h.handles = t) (hnodup : slots.Nodup)
    (hempty : ∀ slot, ((h.handles.tables t).entries slot).object = 0 →
      ((h.handles.tables t).entries slot).release = 0)
    (hclosed : ∀ t' slot, (after.tables t').entries slot =
      if t' = t ∧ slot ∈ slots then closeEntry ((h.handles.tables t').entries slot)
      else (h.handles.tables t').entries slot) (hcallbacks : callbacks = (slots.flatMap fun slot =>
      closeCalls slot ((h.handles.tables t).entries slot)).map (t, ·)) :
    Follows s (h.record call after callbacks) := by
  have hkeys := nodup_keys t hnodup
  have hnone : installedSlots h.handles after t = [] := by
    refine installedSlots_eq_nil fun slot hobject => ?_
    rw [hclosed]
    split
    · exact closeEntry_object hobject
    · exact hobject
  refine ⟨(slots.map fun slot => (t, slot)).map .close, Lifetime.each_close s _, ?_⟩
  rw [Lifetime.run_close s hkeys]
  refine ⟨fun t' slot => ?_, ?_, ?_⟩
  · simp only [History.record, ht, hnone, not_mem_nil, and_false, if_false, hclosed]
    by_cases hin : t' = t ∧ slot ∈ slots
    · rw [if_pos hin, if_pos (by simpa [and_comm, eq_comm] using hin), htracks.cells,
        entryCell_closeEntry]
    · rw [if_neg hin, if_neg (by simpa [and_comm, eq_comm] using hin), htracks.cells]
  · simp only [History.record, ht, hnone, map_nil, append_nil]
    exact htracks.births
  · simp only [History.record, htracks.released, filter_append]
    congr 1
    rw [hcallbacks, flatMap_map, filter_flatMap, map_flatMap, filterMap_flatMap]
    refine flatMap_congr fun slot _ => ?_
    rw [htracks.cells, filter_disposal_close (hempty slot)]

/-- A call that takes or drops a reference on one slot. -/
theorem Tracks.reference (htracks : Tracks h s) (ht : call.target h.handles = t) (slot : Slot)
    (op : Op (Nat × Slot) Owned) (hlegal : Legal s op)
    (hwrites : h.handles.Writes after t slot entry)
    (hobject : ((h.handles.tables t).entries slot).object = 0 → entry.object = 0)
    (hcells : ∀ k, (Lifetime.step s op).cells k =
      if k = (t, slot) then entryCell entry (h.installs t slot) else s.cells k)
    (hbirths : (Lifetime.step s op).births = s.births)
    (hreleased : h.released ++ callbacks.filterMap (Callback.releasedEntry h.installs) =
      (Lifetime.step s op).disposed.filter fun b => b.content.release != 0) :
    Follows s (h.record call after callbacks) := by
  have hnil := installedSlots_eq_nil (t := t) fun _ => hwrites.object hobject
  refine ⟨[op], ⟨hlegal, trivial⟩, ?_, ?_, hreleased.symm ▸ rfl⟩
  · intro t' i
    simp only [run_cons, run_nil, hcells, History.record, ht, hnil, not_mem_nil, and_false,
      if_false, hwrites t' i, Prod.mk.injEq]
    split
    next heq => rw [heq.1, heq.2]
    next => exact htracks.cells t' i
  · simp only [run_cons, run_nil, hbirths, History.record, ht, hnil, map_nil, append_nil]
    exact htracks.births

end Steps

/-! ## References are counted -/

/-- The active references to a slot, and to a table. -/
def HandleRef.On (t : Nat) (slot : Slot) (ref : HandleRef) : Bool :=
  ref.active && ref.table == t && ref.entry == slot

def HandleRef.OnTable (t : Nat) (ref : HandleRef) : Bool := ref.active && ref.table == t

theorem HandleRef.on_eq (t : Nat) (slot : Slot) (hactive : ref.active = true) :
    ref.On t slot = decide (t = ref.table ∧ slot = ref.entry) := by
  simp only [HandleRef.On, hactive, Bool.true_and, Bool.decide_and, eq_comm, Bool.beq_eq_decide_eq]

theorem HandleRef.onTable_eq (t : Nat) (hactive : ref.active = true) :
    ref.OnTable t = decide (t = ref.table) := by
  simp only [HandleRef.OnTable, hactive, Bool.true_and, eq_comm, Bool.beq_eq_decide_eq]

/-- The counters of tables and entries are the numbers of active references, and an empty slot has no
release callback and no references. -/
structure Handles.Counted (s : Handles) : Prop where
  entries : ∀ t slot, ((s.tables t).entries slot).retainedReferences = s.refs.countP (·.On t slot)
  tables : ∀ t, (s.tables t).retainedReferences = s.refs.countP (·.OnTable t)
  release : ∀ t slot, ((s.tables t).entries slot).object = 0 → ((s.tables t).entries slot).release = 0

theorem Handles.Counted.initial : Handles.initial.Counted :=
  ⟨fun _ _ => rfl, fun _ => rfl, fun _ _ _ => rfl⟩

/-- Calls that neither take nor drop references. -/
theorem Handles.Counted.setTable (h : s.Counted)
    (hentries : ∀ slot, (table.entries slot).retainedReferences =
      ((s.tables t).entries slot).retainedReferences)
    (htable : table.retainedReferences = (s.tables t).retainedReferences)
    (hrelease : ∀ slot, (table.entries slot).object = 0 → (table.entries slot).release = 0) :
    (s.setTable t table).Counted := by
  refine ⟨fun t' slot => ?_, fun t' => ?_, fun t' slot => ?_⟩ <;> rw [setTable_tables] <;> split
  next heq => subst heq; rw [hentries]; exact h.entries t' slot
  · exact h.entries t' slot
  next heq => subst heq; rw [htable]; exact h.tables t'
  · exact h.tables t'
  · exact hrelease slot
  · exact h.release t' slot

theorem closeEntry_retainedReferences (entry : ProcessHandle) :
    (closeEntry entry).retainedReferences = entry.retainedReferences := by
  unfold closeEntry
  split <;> rfl

theorem closeEntry_release (h : entry.object = 0 → entry.release = 0)
    (hobject : (closeEntry entry).object = 0) : (closeEntry entry).release = 0 := by
  revert hobject
  fun_cases closeEntry entry
  · exact fun _ => rfl
  · exact h

/-- A call that writes one entry and neither takes nor drops references. -/
theorem Handles.Counted.setEntry (h : s.Counted) {g : Slot → Nat}
    (hrefs : entry.retainedReferences = ((s.tables t).entries slot).retainedReferences)
    (hrelease : entry.object = 0 → entry.release = 0) :
    (s.setTable t { (s.tables t).setEntry slot entry with generations := g }).Counted := by
  refine h.setTable (fun i => ?_) rfl (fun i => ?_)
  · rw [setEntry_entries]
    split
    next heq => rw [heq, hrefs]
    next => rfl
  · rw [setEntry_entries]
    split
    next => exact hrelease
    next => exact h.release t i

/-- A call that takes or drops a reference: `count` is what that does to the counts it is in. -/
theorem Handles.Counted.recount (h : s.Counted) (count : Nat → Nat) {refs : List HandleRef}
    (hactive : ref.active = true)
    (htable : table.entries = Function.update (s.tables ref.table).entries ref.entry entry)
    (htotal : table.retainedReferences = count (s.tables ref.table).retainedReferences)
    (hcount : ∀ p : HandleRef → Bool, p ref.cleared = false →
      refs.countP p = if p ref then count (s.refs.countP p) else s.refs.countP p)
    (hrefs : entry.retainedReferences =
      count ((s.tables ref.table).entries ref.entry).retainedReferences)
    (hrelease : entry.object = 0 → entry.release = 0) :
    Handles.Counted { s.setTable ref.table table with refs := refs } := by
  refine ⟨fun t i => ?_, fun t => ?_, fun t i => ?_⟩
  · simp only [writes_setTable htable t i, hcount (·.On t i) (by simp [HandleRef.On, HandleRef.cleared]),
      HandleRef.on_eq t i hactive, decide_eq_true_eq]
    split
    next heq => rw [heq.1, heq.2, hrefs, h.entries]
    next => exact h.entries t i
  · simp only [hcount (·.OnTable t) (by simp [HandleRef.OnTable, HandleRef.cleared]),
      HandleRef.onTable_eq t hactive, decide_eq_true_eq, setTable_tables]
    split
    next heq => rw [htotal, heq, h.tables]
    next => exact h.tables t
  · simp only [writes_setTable htable t i]
    split
    next => exact hrelease
    next => exact h.release t i

/-- An active reference is counted on its slot and on its table, so releasing it is never refused. -/
theorem Handles.Counted.active (h : s.Counted) {index : Nat} (href : s.refs[index]? = some ref)
    (hactive : ref.active = true) :
    ((s.tables ref.table).entries ref.entry).retainedReferences ≠ 0 ∧
    (s.tables ref.table).retainedReferences ≠ 0 := by
  have hmem := mem_of_getElem? href
  rw [h.entries, h.tables]
  refine ⟨fun hz => ?_, fun hz => ?_⟩
  · simpa [HandleRef.On, hactive] using countP_eq_zero.mp hz ref hmem
  · simpa [HandleRef.OnTable, hactive] using countP_eq_zero.mp hz ref hmem

/-- Clearing an active reference takes it out of exactly the counts it was in. -/
theorem countP_clear {refs : List HandleRef} {index : Nat} (href : refs[index]? = some ref)
    (p : HandleRef → Bool) (hp : p ref.cleared = false) :
    (refs.set index ref.cleared).countP p = if p ref then refs.countP p - 1 else refs.countP p := by
  obtain ⟨hlt, rfl⟩ := List.getElem?_eq_some_iff.mp href
  rw [countP_set hlt, hp]
  split <;> simp

/-- The entry after a reference on it was dropped. -/
def droppedEntry (entry : ProcessHandle) : ProcessHandle :=
  if entry.closing = true ∧ entry.retainedReferences - 1 = 0 then
    { entry with retainedReferences := entry.retainedReferences - 1, object := 0, release := 0 }
  else { entry with retainedReferences := entry.retainedReferences - 1 }

/-- The call that dropping a reference makes. -/
def dropCalls (slot : Slot) (entry : ProcessHandle) : List Callback :=
  if (entry.closing = true ∧ entry.retainedReferences - 1 = 0) ∧ entry.release ≠ 0 then
    [.release slot entry.release entry.object]
  else []

theorem releaseRef_eq (hentry : (table.entries slot).retainedReferences ≠ 0)
    (htable : table.retainedReferences ≠ 0) : processHandleReleaseRef table slot =
      (HandleTable.setEntry { table with retainedReferences := table.retainedReferences - 1 } slot
        (droppedEntry (table.entries slot)), dropCalls slot (table.entries slot)) := by
  unfold processHandleReleaseRef droppedEntry dropCalls
  simp only [if_pos (And.intro hentry htable)]
  by_cases h : (table.entries slot).closing = true ∧ (table.entries slot).retainedReferences - 1 = 0
  · rw [if_pos h, if_pos h]
    by_cases hrelease : (table.entries slot).release = 0
    · simp [hrelease]
    · rw [if_pos hrelease, if_pos ⟨h, hrelease⟩]
  · rw [if_neg h, if_neg h, if_neg (fun hand => h hand.1)]

theorem droppedEntry_retainedReferences (entry : ProcessHandle) :
    (droppedEntry entry).retainedReferences = entry.retainedReferences - 1 := by
  unfold droppedEntry
  split <;> rfl

theorem droppedEntry_object (h : entry.object = 0) : (droppedEntry entry).object = 0 := by
  fun_cases droppedEntry entry
  · rfl
  · exact h

theorem droppedEntry_release (h : entry.object = 0 → entry.release = 0)
    (hobject : (droppedEntry entry).object = 0) : (droppedEntry entry).release = 0 := by
  revert hobject
  fun_cases droppedEntry entry
  · exact fun _ => rfl
  · exact h

theorem HandleCall.Does.counted (hdoes : call.Does s s' callbacks) (h : s.Counted)
    (hempty : ∀ t slot, ((s.tables t).entries slot).object = 0 →
      ((s.tables t).entries slot).retainedReferences = 0) : s'.Counted := by
  cases hdoes with
  | nothing => exact h
  | @opened t object rights release retain kind slot hfree hobject =>
    exact h.setEntry rfl fun hz => absurd hz hobject
  | @duplicated t handle rights source slot hsource hfree =>
    exact h.setEntry rfl fun hz => absurd hz (resolve_live hsource).object
  | @flagged t handle inheritable slot value hslot =>
    exact h.setEntry rfl (h.release t slot)
  | @closed t handle slot hslot =>
    exact h.setEntry (closeEntry_retainedReferences _) (closeEntry_release (h.release t slot))
  | closedAll t =>
    exact h.setTable (fun i => closeEntry_retainedReferences _) rfl
      (fun i => closeEntry_release (h.release t i))
  | @taken t handle required slot ref hslot href =>
    obtain ⟨rfl, rfl, hactive⟩ := href
    refine h.recount (· + 1) hactive rfl rfl (fun p _ => ?_) rfl (h.release _ _)
    rw [countP_append, countP_singleton]
    split <;> rfl
  | @dropped index ref href hactive =>
    obtain ⟨hentry, htable⟩ := h.active href hactive
    rw [releaseRef_eq hentry htable]
    exact h.recount (· - 1) hactive rfl rfl (countP_clear href)
      (droppedEntry_retainedReferences _) (droppedEntry_release (h.release _ _))
  | @inherited destination source hne hdestination =>
    refine h.setTable (fun i => ?_) rfl (fun i => ?_)
    · simp only
      split
      · rw [hempty destination i (hdestination i)]
      · rfl
    · simp only
      split
      next hin => exact fun hz => absurd hz ((inherited_iff _).mp hin).1
      · exact h.release destination i

/-! ## Every call is a legal run of cell operations -/

theorem entryCell_droppedEntry (hrefs : entry.retainedReferences ≠ 0) (n : Nat) :
    entryCell (droppedEntry entry) n = (entryCell entry n).drop := by
  have hone : entry.retainedReferences - 1 = 0 ↔ entry.retainedReferences = 1 := by omega
  fun_cases droppedEntry entry
  next h => simp [entryCell, Cell.drop, h.1, hone.mp h.2]
  next h => rw [hone] at h; simp [entryCell, Cell.drop, h]

theorem filter_disposal_drop (hrefs : entry.retainedReferences ≠ 0)
    (hempty : entry.object = 0 → entry.release = 0) (t : Nat) (slot : Slot)
    (installs : Nat → Slot → Nat) : ((Cell.disposal (t, slot) (entryCell entry (installs t slot))
      (entryCell entry (installs t slot)).drop).filter fun b => b.content.release != 0) =
    ((dropCalls slot entry).map (t, ·)).filterMap (Callback.releasedEntry installs) := by
  have hone : entry.retainedReferences - 1 = 0 ↔ entry.retainedReferences = 1 := by omega
  unfold Cell.disposal dropCalls
  by_cases hobject : entry.object = 0
  · simp [entryCell, hobject, hempty hobject]
  · by_cases hlast : entry.closing = true ∧ entry.retainedReferences = 1
    · by_cases hrelease : entry.release = 0
      · simp [entryCell, Cell.drop, hobject, hlast, hrelease]
      · simp [entryCell, Cell.drop, hobject, hlast, hrelease, Callback.releasedEntry]
    · simp only [hone]
      simp [entryCell, Cell.drop, hobject, hlast]

section Simulation

variable {h : History} {s : Store (Nat × Slot) Owned}

/-- Filling one free slot. -/
theorem Tracks.fill (htracks : Tracks h s) (ht : call.target h.handles = t)
    (hcallbacks : callbacks.filterMap (Callback.releasedEntry h.installs) = [])
    (hfree : ((h.handles.tables t).entries slot).object = 0) (hobject : entry.object ≠ 0)
    (hclosing : entry.closing = false) (hrefs : entry.retainedReferences =
      ((h.handles.tables t).entries slot).retainedReferences) :
    Follows s (h.record call (h.handles.setTable t ((h.handles.tables t).setEntry slot entry))
      callbacks) := by
  refine htracks.install ht hcallbacks (fun i hi => ?_) (fun t' i hi => ?_)
  · obtain ⟨hbefore, hafter⟩ := mem_installedSlots.mp hi
    rw [writes_setTable rfl] at hafter ⊢
    split at hafter
    next heq => rw [if_pos heq, heq.2]; exact ⟨hclosing, hrefs⟩
    · exact absurd hbefore hafter
  · rw [writes_setTable rfl]
    split
    next heq =>
      obtain ⟨rfl, rfl⟩ := heq
      refine absurd ⟨rfl, mem_installedSlots.mpr ⟨hfree, ?_⟩⟩ hi
      simpa using hobject
    · exact .refl _

theorem Tracks.refs_zero (htracks : Tracks h s) (hsound : Sound s) (t : Nat) (slot : Slot)
    (hobject : ((h.handles.tables t).entries slot).object = 0) :
    ((h.handles.tables t).entries slot).retainedReferences = 0 := by
  have := hsound.empty (t, slot)
  rw [htracks.cells, entryCell_content_none] at this
  exact this hobject

theorem Tracks.step (htracks : Tracks h s) (hsound : Sound s) (hcounted : h.handles.Counted)
    (call : HandleCall) : Follows s (h.step call) := by
  have hdoes := call.does h.handles
  rw [History.step]
  generalize (call.effect h.handles).1 = after at hdoes
  generalize (call.effect h.handles).2 = callbacks at hdoes
  cases hdoes with
  | nothing hcloses hopens =>
    refine htracks.install rfl rfl (fun i hi => ?_) (fun t i _ => .refl _)
    obtain ⟨hbefore, hafter⟩ := mem_installedSlots.mp hi
    exact absurd hbefore hafter
  | @opened t object rights release retain kind slot hfree hobject hrights hresult =>
    exact htracks.fill (t := t) rfl rfl (freeSlot_eq_some hfree) hobject rfl rfl
  | @duplicated t handle rights source slot hsource hfree hrights hresult =>
    exact htracks.fill (t := t) rfl rfl (freeSlot_eq_some hfree) (resolve_live hsource).object rfl rfl
  | @flagged t handle inheritable slot value hslot =>
    have hsame : ∀ t' i, SameCell ((h.handles.tables t').entries i)
        (((h.handles.setTable t ((h.handles.tables t).setEntry slot
          { (h.handles.tables t).entries slot with inheritable := value })).tables t').entries i) := by
      intro t' i
      rw [writes_setTable rfl]
      split
      next heq => rw [heq.1, heq.2]; exact ⟨rfl, rfl, rfl, rfl⟩
      · exact .refl _
    refine htracks.install rfl rfl (fun i hi => ?_) (fun t' i _ => hsame t' i)
    obtain ⟨hbefore, hafter⟩ := mem_installedSlots.mp hi
    exact absurd (((hsame _ i).object).trans hbefore) hafter
  | @closed t handle slot hslot =>
    refine htracks.close (t := t) rfl (nodup_singleton slot) (hcounted.release t) (fun t' i => ?_)
      (by simp)
    rw [writes_setTable rfl]
    simp only [mem_singleton]
    split
    next heq => rw [heq.1, heq.2]
    · rfl
  | closedAll t =>
    refine htracks.close (t := t) rfl (nodup_finRange _) (hcounted.release t) (fun t' i => ?_) rfl
    rw [setTable_tables]
    by_cases ht : t' = t
    · subst ht
      simp [mem_finRange]
    · simp [ht]
  | @taken t handle required slot ref hslot href =>
    have hlive := resolve_live hslot
    refine htracks.reference (t := t) rfl slot (.take (t, slot)) ?_ (writes_setTable rfl)
      (fun hz => hz) (fun k => ?_) rfl ?_
    · rw [Legal, htracks.cells, ne_eq, entryCell_content_none]
      exact ⟨hlive.object, hlive.opened⟩
    · simp only [Lifetime.step, update_apply, htracks.cells]
      rfl
    · simp only [filterMap_nil, append_nil]
      exact htracks.released
  | @dropped index ref href hactive =>
    obtain ⟨hentry, htable⟩ := hcounted.active href hactive
    rw [releaseRef_eq hentry htable]
    refine htracks.reference (t := ref.table) (by simp [target, href])
      ref.entry (.drop (ref.table, ref.entry)) ?_ (writes_setTable rfl) droppedEntry_object
      (fun k => ?_) rfl ?_
    · rw [Legal, htracks.cells]
      exact hentry
    · simp only [Lifetime.step, Store.become, update_apply, htracks.cells,
        entryCell_droppedEntry hentry]
    · simp only [Lifetime.step, Store.become, filter_append, htracks.released, htracks.cells,
        filter_disposal_drop hentry (hcounted.release _ _)]
  | @inherited destination source hne hdestination =>
    refine htracks.install (t := destination) rfl
      (by simp [filterMap_eq_nil_iff, Callback.releasedEntry])
      (fun i hi => ?_) (fun t' i hi => ?_)
    · obtain ⟨hbefore, hafter⟩ := mem_installedSlots.mp hi
      simp only [setTable_tables, if_true] at hbefore hafter ⊢
      split at hafter
      next hin => rw [if_pos hin]; exact ⟨rfl, (htracks.refs_zero hsound destination i hbefore).symm⟩
      · exact absurd hbefore hafter
    · rw [setTable_tables]
      split
      next heq =>
        subst heq
        simp only
        split
        next hin =>
          refine absurd ⟨rfl, mem_installedSlots.mpr ⟨hdestination i, ?_⟩⟩ hi
          simpa [target, hin] using ((inherited_iff _).mp hin).1
        · exact .refl _
      · exact .refl _

end Simulation

/-! ## Installations, opens and retain calls -/

/-- Every entry came from an open or from a retain call on its object. -/
def History.Balanced (h : History) : Prop :=
  ∀ object, h.births.countP (fun b => b.content.object == object) =
    h.opened.count object + h.retained.count object

theorem installedSlots_fill (hfree : ((s.tables t).entries slot).object = 0)
    (hobject : entry.object ≠ 0) :
    installedSlots s (s.setTable t ((s.tables t).setEntry slot entry)) t = [slot] := by
  have hone : installedSlots s (s.setTable t ((s.tables t).setEntry slot entry)) t =
      (List.finRange handleCapacity).filter (· == slot) := by
    refine filter_congr fun i _ => ?_
    by_cases hi : i = slot
    · subst hi
      simp [hfree, hobject]
    · simp only [setTable_tables, if_true, setEntry_entries, if_neg hi, bne, beq_false_of_ne hi,
        Bool.and_not_self]
  rw [hone, filter_beq, count_eq_one_of_mem (nodup_finRange _) (mem_finRange _)]
  rfl

/-- What a close calls. -/
theorem mem_closeCalls {callback : Callback} (h : callback ∈ closeCalls slot entry) :
    entry.retainedReferences = 0 ∧ callback = .release slot entry.release entry.object := by
  revert h
  fun_cases closeCalls slot entry
  next hcond => exact fun h => ⟨hcond.1, mem_singleton.mp h⟩
  · exact fun h => absurd h not_mem_nil

theorem closeCalls_retained (t : Nat) (slots : List Slot) (entries : Slot → ProcessHandle) :
    ((slots.flatMap fun slot => closeCalls slot (entries slot)).map
      ((t, ·) : Callback → Nat × Callback)).filterMap (fun call => call.2.retainedObject) = [] := by
  rw [filterMap_eq_nil_iff]
  intro call hcall
  obtain ⟨callback, hmem, rfl⟩ := mem_map.mp hcall
  obtain ⟨slot, -, hslot⟩ := mem_flatMap.mp hmem
  rw [(mem_closeCalls hslot).2]
  rfl

theorem History.Balanced.step {h : History} (hb : h.Balanced) (hcounted : h.handles.Counted)
    (call : HandleCall) : (h.step call).Balanced := by
  -- what a call installs is what it opens and retains
  suffices hnew : ∀ object,
      ((installedSlots h.handles (call.effect h.handles).1 (call.target h.handles)).countP fun slot =>
        ((((call.effect h.handles).1.tables (call.target h.handles)).entries slot).object == object)) =
      (call.openedObject h.handles).count object +
        ((call.effect h.handles).2.filterMap fun call => call.2.retainedObject).count object by
    intro object
    have := hb object
    have := hnew object
    simp only [History.step, History.record, countP_append, count_append, countP_map,
      comp_def]
    omega
  intro object
  have hdoes := call.does h.handles
  generalize (call.effect h.handles).1 = after at hdoes ⊢
  generalize (call.effect h.handles).2 = callbacks at hdoes ⊢
  cases hdoes with
  | nothing hcloses hopens =>
    rw [installedSlots_eq_nil (fun _ hz => hz), hopens]
    rfl
  | @opened t object' rights release retain kind slot hfree hobject hrights hresult =>
    have hopens : openedObject h.handles
        (.openKind t object' rights release retain kind) = [object'] := by
      rw [openedObject, hresult, if_neg (makeHandle_ne_zero _ _)]
    rw [show target h.handles (.openKind t object' rights release retain kind) = t from rfl,
      installedSlots_fill (freeSlot_eq_some hfree) hobject, hopens]
    simp [countP_singleton, count_singleton]
  | @duplicated t handle rights source slot hsource hfree hrights hresult =>
    rw [show target h.handles (.duplicate t handle rights) = t from rfl,
      installedSlots_fill (freeSlot_eq_some hfree)]
    · simp [countP_singleton, openedObject, Callback.retainedObject,
        count_singleton]
    · exact (resolve_live hsource).object
  | @flagged t handle inheritable slot value hslot | @taken t handle required slot ref hslot href =>
    rw [installedSlots_eq_nil]
    · rfl
    · exact fun i => (writes_setTable rfl).object (by simp)
  | @closed t handle slot hslot =>
    rw [installedSlots_eq_nil]
    · have := closeCalls_retained t [slot] (h.handles.tables t).entries
      simp only [flatMap_singleton] at this
      rw [this]
      rfl
    · exact fun i => (writes_setTable rfl).object closeEntry_object
  | closedAll t =>
    rw [installedSlots_eq_nil, closeCalls_retained]
    · rfl
    · intro i hz
      simp only [target, setTable_tables, if_true] at hz ⊢
      exact closeEntry_object hz
  | @dropped index ref href hactive =>
    obtain ⟨hentry, htable⟩ := hcounted.active href hactive
    rw [releaseRef_eq hentry htable, installedSlots_eq_nil]
    · unfold dropCalls
      split <;> rfl
    · exact fun i => (writes_setTable rfl).object droppedEntry_object
  | @inherited destination source hne hdestination =>
    have hinstalled : ∀ slot, (((h.handles.tables destination).entries slot).object == 0 &&
        (if ((h.handles.tables source).entries slot).inherited = true then
          ({ (h.handles.tables source).entries slot with
            retainedReferences := 0, closing := false } : ProcessHandle)
        else (h.handles.tables destination).entries slot).object != 0) =
        ((h.handles.tables source).entries slot).inherited := by
      intro slot
      by_cases hin : ((h.handles.tables source).entries slot).inherited = true
      · simp [hin, hdestination slot, ((inherited_iff _).mp hin).1]
      · simp [hin, hdestination slot]
    simp only [installedSlots, target, setTable_tables, if_true, hinstalled,
      openedObject, countP_nil, Nat.zero_add, filterMap_map, countP_filter,
      filterMap_filterMap, count_eq_countP, countP_filterMap]
    refine countP_congr fun slot _ => ?_
    by_cases hin : ((h.handles.tables source).entries slot).inherited = true
    · simp [hin, Callback.retainedObject]
    · simp [hin]

/-! ## Closes and generations -/

/-- A generation is the number of closes, in the cycle of the 65535 generations. -/
def History.Cycled (h : History) : Prop :=
  ∀ t slot, (h.handles.tables t).generations slot = h.closes t slot % uint16Max + 1

theorem nextGeneration_cycle (n : Nat) :
    nextGeneration (n % uint16Max + 1) = (n + 1) % uint16Max + 1 := by
  unfold nextGeneration uint16Max
  split <;> omega

theorem HandleCall.Does.generations (hdoes : call.Does s s' callbacks) (t : Nat) (slot : Slot) :
    (s'.tables t).generations slot =
      if call.closesSlot s t slot then nextGeneration ((s.tables t).generations slot)
      else (s.tables t).generations slot := by
  cases hdoes with
  | nothing hcloses hopens => simp [hcloses]
  | opened | duplicated | flagged | taken | inherited =>
    simp only [closesSlot, Bool.false_eq_true, if_false, setTable_tables]
    split
    next heq => subst heq; rfl
    · rfl
  | @closed t' handle slot' hslot =>
    by_cases ht : t' = t
    · subst ht
      by_cases hslot' : slot' = slot
      · subst hslot'
        simp [closesSlot, hslot]
      · simp [closesSlot, hslot, hslot', update_of_ne (Ne.symm hslot')]
    · simp [closesSlot, ht, Ne.symm ht]
  | closedAll t' =>
    by_cases ht : t' = t
    · subst ht
      simp [closesSlot]
    · simp [closesSlot, ht, Ne.symm ht]
  | dropped href hactive =>
    simp only [closesSlot, Bool.false_eq_true, if_false, setTable_tables]
    split
    next heq =>
      subst heq
      unfold processHandleReleaseRef
      simp only
      split
      · split <;> rfl
      · rfl
    · rfl

theorem History.Cycled.step {h : History} (hcycled : h.Cycled) (call : HandleCall) :
    (h.step call).Cycled := by
  intro t slot
  have := (call.does h.handles).generations t slot
  simp only [History.step, History.record, this]
  split
  · rw [hcycled t slot, nextGeneration_cycle]
  · exact hcycled t slot

/-! ## Every run -/

/-- What holds of the record of a run, with the cell store that shadows it. -/
structure History.Lawful (h : History) (s : Store (Nat × Slot) Owned) : Prop where
  sound : Sound s
  tracks : Tracks h s
  counted : h.handles.Counted
  balanced : h.Balanced
  cycled : h.Cycled

/-- The store of a system in which nothing was ever opened. -/
def emptyStore : Store (Nat × Slot) Owned where
  cells := fun _ => entryCell freshEntry 0
  births := []
  disposed := []

theorem History.Lawful.initial : History.initial.Lawful emptyStore where
  sound := Lifetime.sound_of_empty (fun _ => ⟨rfl, rfl⟩) rfl rfl
  tracks := ⟨fun _ _ => rfl, rfl, rfl⟩
  counted := Handles.Counted.initial
  balanced _ := rfl
  cycled _ _ := rfl

section

variable {h : History} {s : Store (Nat × Slot) Owned} (hl : h.Lawful s)

include hl

/-- One call: the record stays lawful over a legal run of the store. -/
theorem History.Lawful.step (call : HandleCall) :
    ∃ ops, Each Lifetime.step Legal s ops ∧ (h.step call).Lawful (run Lifetime.step s ops) := by
  obtain ⟨ops, hlegal, htracks⟩ := hl.tracks.step hl.sound hl.counted call
  exact ⟨ops, hlegal, (hl.sound.run hlegal).1, htracks,
    (call.does h.handles).counted hl.counted (hl.tracks.refs_zero hl.sound), hl.balanced.step hl.counted call,
    hl.cycled.step call⟩

theorem History.Lawful.steps : ∃ ops, Each Lifetime.step Legal s ops ∧
      (run History.step h calls).Lawful (run Lifetime.step s ops) := by
  induction calls generalizing h s with
  | nil => exact ⟨[], trivial, hl⟩
  | cons call calls ih =>
    obtain ⟨first, hfirst, hmid⟩ := hl.step call
    obtain ⟨rest, hrest, hend⟩ := ih hmid
    refine ⟨first ++ rest, (each_append _ _ _).mpr ⟨hfirst, hrest⟩, ?_⟩
    rw [run_append]
    exact hend

end

theorem closes_mono (h : History) (calls : List HandleCall) (t : Nat) (slot : Slot) :
    h.closes t slot ≤ (run History.step h calls).closes t slot := by
  induction calls generalizing h with
  | nil => exact Nat.le_refl _
  | cons call calls ih =>
    refine Nat.le_trans ?_ (ih (h.step call))
    simp only [History.step, History.record]
    split <;> omega

/-- A release call is made for a slot on which no reference is left. -/
theorem HandleCall.Does.release_unreferenced (hdoes : call.Does s s' callbacks)
    (hcounted : s.Counted) {object : Pointer}
    (hcall : (t, Callback.release slot function object) ∈ callbacks) :
    ((s'.tables t).entries slot).retainedReferences = 0 := by
  cases hdoes with
  | nothing | opened | flagged | taken => cases hcall
  | duplicated => simp at hcall
  | closed =>
    obtain ⟨callback, hmem, heq⟩ := mem_map.mp hcall
    obtain ⟨hrefs, rfl⟩ := mem_closeCalls hmem
    cases heq
    simpa [closeEntry_retainedReferences] using hrefs
  | closedAll =>
    obtain ⟨callback, hmem, heq⟩ := mem_map.mp hcall
    obtain ⟨i, -, hmem⟩ := mem_flatMap.mp hmem
    obtain ⟨hrefs, rfl⟩ := mem_closeCalls hmem
    cases heq
    simpa [closeEntry_retainedReferences] using hrefs
  | @dropped index ref href hactive =>
    obtain ⟨hentry, htable⟩ := hcounted.active href hactive
    rw [releaseRef_eq hentry htable] at hcall ⊢
    obtain ⟨callback, hmem, heq⟩ := mem_map.mp hcall
    obtain ⟨rfl, rfl⟩ := Prod.mk.inj heq
    unfold dropCalls at hmem
    split at hmem
    next hcond =>
      cases mem_singleton.mp hmem
      simp [droppedEntry, hcond.1.1, hcond.1.2]
    · cases hmem
  | inherited => simp at hcall

/-! ## The four lifetime laws -/

section

variable {h : History} {s : Store (Nat × Slot) Owned} (hl : h.Lawful s)

include hl

/-- Releases of an object never outnumber its opens and retains. -/
theorem History.Lawful.released_le (object : Pointer) :
    h.released.countP (fun b => b.content.object == object) ≤
      h.opened.count object + h.retained.count object := by
  calc h.released.countP (fun b => b.content.object == object)
      ≤ s.disposed.countP (fun b => b.content.object == object) := by
        rw [hl.tracks.released]
        exact Sublist.countP_le filter_sublist
    _ ≤ s.births.countP (fun b => b.content.object == object) := hl.sound.disposed_countP_le _
    _ = h.opened.count object + h.retained.count object := by
        rw [hl.tracks.births]
        exact hl.balanced object

/-- No reference to a slot is active when a release call for it is made. -/
theorem History.Lawful.release_unreferenced (call : HandleCall) {object : Pointer}
    (hcall : (t, Callback.release slot function object) ∈ (call.effect h.handles).2) :
    ∀ ref ∈ (call.step h.handles).refs, ref.active = true →
      ¬ (ref.table = t ∧ ref.entry = slot) := by
  rintro ref href hactive ⟨rfl, rfl⟩
  have hzero := (call.does h.handles).release_unreferenced hl.counted hcall
  have hcounted := (call.does h.handles).counted hl.counted (hl.tracks.refs_zero hl.sound)
  rw [hcounted.entries] at hzero
  simpa [HandleRef.On, hactive] using countP_eq_zero.mp hzero ref href

/-- After its table was closed and its references were released, an entry has been released once. -/
theorem History.Lawful.released_once
    (t : Nat) {b : EntryBirth} (hb : b ∈ h.births) (ht : b.key.1 = t) (hrelease : b.content.release ≠ 0)
    (later : List HandleCall)
    (hrefs : ∀ ref ∈ (run History.step (h.step (.closeAll t)) later).handles.refs,
      ref.active = true → ref.table ≠ t) :
    (run History.step (h.step (.closeAll t)) later).released.count b = 1 := by
  obtain ⟨first, hfirst, hclosed⟩ := hl.step (.closeAll t)
  obtain ⟨rest, hrest, hend⟩ := hclosed.steps later
  -- closing the table retires the entry, and what is retired stays so
  have hmem : b ∈ (run Lifetime.step s first).births :=
    (hl.sound.run hfirst).2.1 (hl.tracks.births ▸ hb)
  have hretired : Retired (run Lifetime.step s first) b := by
    right
    obtain ⟨⟨t', slot⟩, n, content⟩ := b
    cases ht
    rw [hclosed.tracks.cells]
    have hentry : (((h.step (.closeAll t')).handles.tables t').entries slot) =
        closeEntry ((h.handles.tables t').entries slot) := by
      simp [History.step, History.record, effect, processHandleTableCloseAll]
    rw [hentry]
    exact closeEntry_closing _
  have hretired' := (hclosed.sound.run hrest).2.2 b hmem hretired
  have hmem' := (hclosed.sound.run hrest).2.1 hmem
  have hdisposed : b ∈ (run Lifetime.step (run Lifetime.step s first) rest).disposed := by
    refine hretired'.disposed hend.sound hmem' ?_
    rw [show b.key = (b.key.1, b.key.2) from rfl, hend.tracks.cells]
    change ((_ : HandleTable).entries b.key.2).retainedReferences = 0
    rw [hend.counted.entries, countP_eq_zero]
    intro ref href hon
    simp only [HandleRef.On, Bool.and_eq_true, beq_iff_eq] at hon
    exact hrefs ref href hon.1.1 (hon.1.2.trans ht)
  rw [hend.tracks.released]
  refine count_eq_one_of_mem (hend.sound.once.filter _) (mem_filter.mpr ⟨hdisposed, ?_⟩)
  simpa using hrelease

/-- While a slot is closed fewer than 65535 times, a handle of it that was closed stays dead. -/
theorem History.Lawful.closed_unresolved {handle : Nat}
    (hres : (h.handles.tables t).resolve handle = some slot) (hcall : call.Closes t handle)
    (later : List HandleCall)
    (hfew : (run History.step (h.step call) later).closes t slot < uint16Max) :
    ((run History.step (h.step call) later).handles.tables t).resolve handle = none := by
  obtain ⟨_, -, hclosed⟩ := hl.step call
  obtain ⟨_, -, hend⟩ := hclosed.steps later
  have hcloses : h.closes t slot < (run History.step (h.step call) later).closes t slot := by
    refine Nat.lt_of_lt_of_le ?_ (closes_mono (h.step call) later t slot)
    have hslot : call.closesSlot h.handles t slot = true := by
      rcases hcall with rfl | rfl <;> simp [closesSlot, hres]
    simp only [History.step, History.record, if_pos hslot]
    omega
  cases hlater : ((run History.step (h.step call) later).handles.tables t).resolve handle with
  | none => rfl
  | some slot' =>
    have hdecode := (resolve_eq_some.mp hres).1
    have hdecode' := (resolve_eq_some.mp hlater).1
    rw [hdecode] at hdecode'
    simp only [Option.some.injEq, Prod.mk.injEq] at hdecode'
    obtain ⟨rfl, hgeneration⟩ := hdecode'
    rw [hl.cycled t slot, hend.cycled t slot, Nat.mod_eq_of_lt (Nat.lt_trans hcloses hfew),
      Nat.mod_eq_of_lt hfew] at hgeneration
    omega

end

/-- For every run of calls over any number of tables. Releases of an object never outnumber its opens
and retain calls. Whatever call comes next, no release call is made for an entry while a reference to
its slot is active. Once a table has been closed and no reference to it is active, every entry it held
until then that has a release callback has been released exactly once. And a handle that was closed, by
itself or with its table, does not resolve in any later state in which its slot has been closed fewer
than 65535 times. -/
theorem handle_lifetime (calls : List HandleCall) :
    (∀ object, (run History.step .initial calls).released.countP
        (fun b => b.content.object == object) ≤
      (run History.step .initial calls).opened.count object +
        (run History.step .initial calls).retained.count object) ∧
    (∀ (call : HandleCall) t slot function object,
      (t, Callback.release slot function object) ∈
        (call.effect (run History.step .initial calls).handles).2 →
      ∀ ref ∈ (call.step (run History.step .initial calls).handles).refs, ref.active = true →
        ¬ (ref.table = t ∧ ref.entry = slot)) ∧
    (∀ t later,
      (∀ ref ∈ (run History.step .initial (calls ++ .closeAll t :: later)).handles.refs,
        ref.active = true → ref.table ≠ t) →
      ∀ b ∈ (run History.step .initial calls).births, b.key.1 = t → b.content.release ≠ 0 →
        (run History.step .initial (calls ++ .closeAll t :: later)).released.count b = 1) ∧
    (∀ t handle slot (call : HandleCall) later,
      ((run History.step .initial calls).handles.tables t).resolve handle = some slot →
      call.Closes t handle →
      (run History.step .initial (calls ++ call :: later)).closes t slot < uint16Max →
      ((run History.step .initial (calls ++ call :: later)).handles.tables t).resolve handle =
        none) := by
  obtain ⟨_, -, hl⟩ := History.Lawful.initial.steps calls
  refine ⟨hl.released_le, ?_, ?_, ?_⟩
  · intro call t slot function object hcall
    exact hl.release_unreferenced call hcall
  · intro t later hrefs b hb ht hrelease
    rw [run_append, run_cons] at hrefs ⊢
    exact hl.released_once t hb ht hrelease later hrefs
  · intro t handle slot call later hres hcall hfew
    rw [run_append, run_cons] at hfew ⊢
    exact hl.closed_unresolved hres hcall later hfew

/-- An entry closed with its table while a reference is out: released once, by the release of the
reference, and its handle is dead. -/
theorem handle_lifetime_deferred :
    (run History.step .initial
      ([.openKind 0 4096 handleRead 16 0 .generic, .getRetain 0 33 handleRead] ++
        .closeAll 0 :: [.releaseRef 0])).released.count ⟨(0, 0), 1, ⟨4096, 16⟩⟩ = 1 ∧
    ((run History.step .initial
      ([.openKind 0 4096 handleRead 16 0 .generic, .getRetain 0 33 handleRead] ++
        .closeAll 0 :: [.releaseRef 0])).handles.tables 0).resolve 33 = none := by
  obtain ⟨-, -, honce, hdead⟩ :=
    handle_lifetime [.openKind 0 4096 handleRead 16 0 .generic, .getRetain 0 33 handleRead]
  refine ⟨honce 0 [.releaseRef 0] (by decide +kernel) _ (by decide +kernel) rfl (by decide), ?_⟩
  exact hdead 0 33 0 (.closeAll 0) [.releaseRef 0] (by decide +kernel) (.inr rfl) (by decide +kernel)

end KernelBoot.Process
