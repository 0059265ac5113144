import KernelBoot.Process.HandleSystem
import KernelBoot.Laws.Process.Handle

/-!
# Handles over whole runs

Every table of a run is well formed, and an entry keeps its object, its rights and its generation
until the handle that names it is closed. From that, which handles work: exactly those of the first
31 slots.
-/

namespace KernelBoot.Process

open Lib HandleCall

variable {table : HandleTable} {slot : Slot} {s : Handles} {t : Nat} {call : HandleCall}
variable {entry : ProcessHandle} {callbacks : List (Nat × Callback)}

@[simp] theorem setTable_tables (s : Handles) (t : Nat) (table : HandleTable) (t' : Nat) :
    (s.setTable t table).tables t' = if t' = t then table else s.tables t' := by
  simp only [Handles.setTable, Function.update_apply]

theorem setTable_self (s : Handles) (t : Nat) : s.setTable t (s.tables t) = s := by
  simp only [Handles.setTable, Function.update_eq_self]

/-! ## Everything a call can do -/

/-- A call fails and changes nothing, or does the one thing it is for. -/
inductive HandleCall.Does (s : Handles) : HandleCall → Handles → List (Nat × Callback) → Prop
  | nothing {call : HandleCall} (hcloses : ∀ t slot, call.closesSlot s t slot = false)
      (hopens : call.openedObject s = []) : Does s call s []
  | opened {t : Nat} {object : Pointer} {rights : Rights} {release retain : Pointer}
      {kind : ObjectKind} {slot : Slot} (hfree : freeSlot (s.tables t) = some slot)
      (hobject : object ≠ 0) (hrights : rightsOutside rights = false)
      (hresult : (processHandleOpenOwnedKind (s.tables t) object rights release retain kind).1 =
        makeHandle slot ((s.tables t).generations slot)) :
      Does s (.openKind t object rights release retain kind)
        (s.setTable t ((s.tables t).setEntry slot { (s.tables t).entries slot with
          object, rights, release, retain, closing := false, inheritable := true, kind })) []
  | duplicated {t handle : Nat} {rights : Rights} {source slot : Slot}
      (hsource : (s.tables t).resolve handle = some source)
      (hfree : freeSlot (s.tables t) = some slot)
      (hrights : rights ≠ 0 → rights &&& ~~~((s.tables t).entries source).rights = 0)
      (hresult : (processHandleDuplicate (s.tables t) handle rights).1 =
        makeHandle slot ((s.tables t).generations slot)) :
      Does s (.duplicate t handle rights)
        (s.setTable t ((s.tables t).setEntry slot { (s.tables t).entries slot with
          object := ((s.tables t).entries source).object
          rights := if rights = 0 then ((s.tables t).entries source).rights else rights
          release := ((s.tables t).entries source).release
          retain := ((s.tables t).entries source).retain
          closing := false
          inheritable := ((s.tables t).entries source).inheritable
          kind := ((s.tables t).entries source).kind }))
        [(t, .retain source ((s.tables t).entries source).retain
          ((s.tables t).entries source).object)]
  | flagged {t handle : Nat} {inheritable : Int} {slot : Slot} (value : Bool)
      (hslot : (s.tables t).resolve handle = some slot) :
      Does s (.setInheritable t handle inheritable)
        (s.setTable t ((s.tables t).setEntry slot
          { (s.tables t).entries slot with inheritable := value })) []
  | closed {t handle : Nat} {slot : Slot} (hslot : (s.tables t).resolve handle = some slot) :
      Does s (.close t handle)
        (s.setTable t { (s.tables t).setEntry slot (closeEntry ((s.tables t).entries slot)) with
          generations := Function.update (s.tables t).generations slot
            (nextGeneration ((s.tables t).generations slot)) })
        ((closeCalls slot ((s.tables t).entries slot)).map (t, ·))
  | closedAll (t : Nat) :
      Does s (.closeAll t)
        (s.setTable t { s.tables t with
          entries := fun slot => closeEntry ((s.tables t).entries slot)
          generations := fun slot => nextGeneration ((s.tables t).generations slot) })
        (((List.finRange handleCapacity).flatMap fun slot =>
          closeCalls slot ((s.tables t).entries slot)).map (t, ·))
  | taken {t handle : Nat} {required : Rights} {slot : Slot} {ref : HandleRef}
      (hslot : (s.tables t).resolve handle = some slot)
      (href : ref.table = t ∧ ref.entry = slot ∧ ref.active = true) :
      Does s (.getRetain t handle required)
        { s.setTable t { (s.tables t).setEntry slot { (s.tables t).entries slot with
            retainedReferences := ((s.tables t).entries slot).retainedReferences + 1 } with
            retainedReferences := (s.tables t).retainedReferences + 1 } with
          refs := s.refs ++ [ref] } []
  | dropped {index : Nat} {ref : HandleRef} (href : s.refs[index]? = some ref)
      (hactive : ref.active = true) :
      Does s (.releaseRef index)
        { s.setTable ref.table (processHandleReleaseRef (s.tables ref.table) ref.entry).1 with
          refs := s.refs.set index ref.cleared }
        ((processHandleReleaseRef (s.tables ref.table) ref.entry).2.map (ref.table, ·))
  | inherited {destination source : Nat} (hne : destination ≠ source)
      (hempty : ∀ slot, ((s.tables destination).entries slot).object = 0) :
      Does s (.inherit destination source)
        (s.setTable destination { s.tables destination with
          entries := fun slot =>
            if ((s.tables source).entries slot).inherited then
              { (s.tables source).entries slot with retainedReferences := 0, closing := false }
            else (s.tables destination).entries slot })
        (((List.finRange handleCapacity).filterMap fun slot =>
          if ((s.tables source).entries slot).inherited then
            some (.retain slot ((s.tables source).entries slot).retain
              ((s.tables source).entries slot).object)
          else none).map (source, ·))

theorem HandleCall.does (s : Handles) (call : HandleCall) :
    call.Does s (call.effect s).1 (call.effect s).2 := by
  cases call with
  | openKind t object rights release retain kind =>
    simp only [effect]
    rcases openOwnedKind_cases (s.tables t) object rights release retain kind with
      heq | ⟨slot, hfree, hobject, hrights, heq⟩
    · rw [heq, setTable_self]
      exact .nothing (fun _ _ => rfl) (by simp only [openedObject, heq, if_true])
    · rw [heq]
      exact .opened hfree hobject hrights (by rw [heq])
  | duplicate t handle rights =>
    simp only [effect]
    rcases duplicate_cases (s.tables t) handle rights with
      heq | ⟨source, slot, hsource, hfree, hrights, heq⟩
    · rw [heq, setTable_self]
      exact .nothing (fun _ _ => rfl) rfl
    · rw [heq]
      exact .duplicated hsource hfree hrights (by rw [heq])
  | setInheritable t handle inheritable =>
    simp only [effect]
    rcases setInheritable_cases (s.tables t) handle inheritable with heq | ⟨slot, hslot, heq⟩
    · rw [heq, setTable_self]
      exact .nothing (fun _ _ => rfl) rfl
    · rw [heq]
      exact .flagged _ hslot
  | close t handle =>
    simp only [effect]
    rcases close_cases (s.tables t) handle with ⟨hnone, heq⟩ | ⟨slot, hslot, heq⟩
    · rw [heq, setTable_self]
      refine .nothing (fun t' slot => ?_) rfl
      by_cases ht : t = t'
      · subst ht
        simp [closesSlot, hnone]
      · simp [closesSlot, ht]
    · rw [heq]
      exact .closed hslot
  | closeAll t => exact .closedAll t
  | getRetain t handle required =>
    simp only [effect]
    rcases getRetain_cases (s.tables t) handle required t with heq | ⟨slot, hslot, heq⟩
    · rw [heq]
      exact .nothing (fun _ _ => rfl) rfl
    · rw [heq]
      exact .taken hslot ⟨rfl, rfl, rfl⟩
  | releaseRef index =>
    simp only [effect]
    split
    · exact .nothing (fun _ _ => rfl) rfl
    next ref href =>
      split
      · exact .nothing (fun _ _ => rfl) rfl
      next hactive => exact .dropped href (Bool.eq_true_of_not_eq_false hactive)
  | inherit destination source =>
    simp only [effect]
    split
    · exact .nothing (fun _ _ => rfl) rfl
    next hne =>
      rcases tableInherit_cases (s.tables destination) (s.tables source) with heq | ⟨hempty, heq⟩
      · rw [heq, setTable_self]
        exact .nothing (fun _ _ => rfl) rfl
      · rw [heq]
        exact .inherited hne hempty

/-! ## Well-formed tables -/

structure HandleTable.WellFormed (table : HandleTable) : Prop where
  numbered : table.Numbered
  rights : ∀ slot, rightsOutside (table.entries slot).rights = false

theorem initialize_wellFormed : processHandleTableInitialize.WellFormed where
  numbered _ := by simp [processHandleTableInitialize, uint16Max]
  rights _ := by simp [processHandleTableInitialize, freshEntry, rightsOutside]

/-- An update of one entry that keeps its rights in range. -/
theorem HandleTable.WellFormed.setEntry (h : table.WellFormed)
    (hentry : rightsOutside entry.rights = false) : (table.setEntry slot entry).WellFormed where
  numbered := h.numbered
  rights s := by
    rw [setEntry_entries]
    split
    · exact hentry
    · exact h.rights s

theorem HandleTable.WellFormed.counted (h : table.WellFormed) (n : Nat) :
    HandleTable.WellFormed { table with retainedReferences := n } :=
  ⟨h.numbered, h.rights⟩

theorem closeEntry_rights (entry : ProcessHandle) :
    rightsOutside (closeEntry entry).rights = false := by
  unfold closeEntry
  split <;> simp [rightsOutside]

theorem HandleTable.WellFormed.releaseRef (h : table.WellFormed) (slot : Slot) :
    (processHandleReleaseRef table slot).1.WellFormed := by
  unfold processHandleReleaseRef
  simp only
  split
  · split
    all_goals exact (h.counted _).setEntry (h.rights slot)
  · exact h

/-- Every table of the system is well formed. -/
def Handles.WellFormed (s : Handles) : Prop := ∀ t, (s.tables t).WellFormed

theorem Handles.WellFormed.setTable (h : s.WellFormed) (ht : table.WellFormed) :
    (s.setTable t table).WellFormed := by
  intro t'
  rw [setTable_tables]
  split
  · exact ht
  · exact h t'

theorem Handles.WellFormed.withRefs (h : s.WellFormed) (refs : List HandleRef) :
    Handles.WellFormed { s with refs } := h

theorem HandleCall.Does.wellFormed {s' : Handles} (hdoes : call.Does s s' callbacks)
    (h : s.WellFormed) : s'.WellFormed := by
  cases hdoes with
  | nothing => exact h
  | opened hfree hobject hrights => exact h.setTable ((h _).setEntry hrights)
  | @duplicated t handle rights source slot hsource hfree hrights =>
    refine h.setTable ((h t).setEntry ?_)
    simp only
    split
    · exact (h t).rights source
    next hne =>
      exact rightsOutside_of_within ((h t).rights source) (and_eq_of_and_not_eq_zero (hrights hne))
  | @flagged t handle inheritable slot value hslot =>
    exact h.setTable ((h t).setEntry ((h t).rights slot))
  | @closed t handle slot hslot =>
    refine h.setTable ⟨fun s => ?_, ((h t).setEntry (closeEntry_rights _)).rights⟩
    simp only [Function.update_apply]
    split
    · exact nextGeneration_range ((h t).numbered slot)
    · exact (h t).numbered s
  | closedAll t =>
    exact h.setTable ⟨fun slot => nextGeneration_range ((h t).numbered slot),
      fun slot => closeEntry_rights _⟩
  | @taken t handle required slot ref hslot href =>
    refine (h.setTable (((h t).setEntry ?_).counted _)).withRefs _
    exact (h t).rights slot
  | @dropped index ref href hactive =>
    exact (h.setTable ((h ref.table).releaseRef ref.entry)).withRefs _
  | @inherited destination source hne hempty =>
    refine h.setTable ⟨(h destination).numbered, fun slot => ?_⟩
    simp only
    split
    · exact (h source).rights slot
    · exact (h destination).rights slot

/-- Every table of every run is well formed. -/
theorem wellFormed_run (calls : List HandleCall) :
    (run step .initial calls).WellFormed :=
  run_keeps_any (P := Handles.WellFormed) (fun s call h => (call.does s).wellFormed h)
    (fun _ => initialize_wellFormed) calls

/-! ## A live entry lasts until its handle is closed -/

/-- The entry of a slot is the same one, and open. -/
structure SameEntry (before after : HandleTable) (slot : Slot) : Prop where
  generation : after.generations slot = before.generations slot
  object : (after.entries slot).object = (before.entries slot).object
  rights : (after.entries slot).rights = (before.entries slot).rights
  opened : (after.entries slot).closing = false

theorem SameEntry.refl (h : table.Live slot) :
    SameEntry table table slot := ⟨rfl, rfl, rfl, h.opened⟩

theorem SameEntry.live {before after : HandleTable} (h : SameEntry before after slot)
    (hlive : before.Live slot) : after.Live slot :=
  ⟨h.object ▸ hlive.object, h.opened⟩

/-- Writing another slot, or this one with the same object, rights and openness. -/
theorem SameEntry.setEntry {other : Slot} (hlive : table.Live slot)
    (hsame : slot = other → entry.object = (table.entries slot).object ∧
      entry.rights = (table.entries slot).rights ∧ entry.closing = false) :
    SameEntry table (table.setEntry other entry) slot := by
  by_cases h : slot = other
  · obtain ⟨ho, hr, hc⟩ := hsame h
    refine ⟨rfl, ?_, ?_, ?_⟩ <;> rw [setEntry_entries, if_pos h] <;> assumption
  · refine ⟨rfl, ?_, ?_, ?_⟩ <;> rw [setEntry_entries, if_neg h]
    exact hlive.opened

theorem SameEntry.setTable {other : Nat} (hlive : (s.tables t).Live slot)
    (hsame : t = other → SameEntry (s.tables t) table slot) :
    SameEntry (s.tables t) ((s.setTable other table).tables t) slot := by
  rw [setTable_tables]
  split
  next h => exact hsame h
  · exact .refl hlive

theorem SameEntry.releaseRef {other : Slot} (hlive : table.Live slot) :
    SameEntry table (processHandleReleaseRef table other).1 slot := by
  unfold processHandleReleaseRef
  simp only
  split
  · -- only a closing entry is emptied by its last reference
    split
    all_goals
      refine ⟨rfl, ?_, ?_, ?_⟩ <;> rw [setEntry_entries] <;>
        by_cases h : slot = other <;> grind [HandleTable.Live]
  · exact .refl hlive

theorem HandleCall.Does.keeps_live {s' : Handles} (hdoes : call.Does s s' callbacks)
    (hlive : (s.tables t).Live slot)
    (hcall : ¬ call.Closes t (makeHandle slot ((s.tables t).generations slot))) :
    SameEntry (s.tables t) (s'.tables t) slot := by
  cases hdoes with
  | nothing => exact .refl hlive
  | opened hfree | duplicated _ hfree =>
    refine .setTable hlive ?_
    rintro rfl
    refine .setEntry hlive ?_
    rintro rfl
    exact absurd (freeSlot_eq_some hfree) hlive.object
  | flagged value hslot =>
    refine .setTable hlive ?_
    rintro rfl
    refine .setEntry hlive ?_
    rintro rfl
    exact ⟨rfl, rfl, hlive.opened⟩
  | @closed t' handle slot' hslot =>
    refine .setTable hlive ?_
    rintro rfl
    have hne : slot ≠ slot' := by
      rintro rfl
      exact hcall (.inl (by rw [resolve_handle hslot]))
    refine ⟨?_, ?_, ?_, ?_⟩
    · simp only [Function.update_of_ne hne]
    all_goals simp only [setEntry_entries, if_neg hne]
    exact hlive.opened
  | closedAll t' =>
    refine .setTable hlive ?_
    rintro rfl
    exact absurd (.inr rfl) hcall
  | @taken t' handle required slot' ref hslot href =>
    refine .setTable hlive ?_
    rintro rfl
    by_cases h : slot = slot'
    · subst h
      refine ⟨rfl, ?_, ?_, ?_⟩ <;> simp only [setEntry_entries, if_true]
      exact hlive.opened
    · refine ⟨rfl, ?_, ?_, ?_⟩ <;> simp only [setEntry_entries, if_neg h]
      exact hlive.opened
  | dropped href hactive =>
    refine .setTable hlive ?_
    rintro rfl
    exact .releaseRef hlive
  | inherited hne hempty =>
    refine .setTable hlive ?_
    rintro rfl
    exact absurd (hempty slot) hlive.object

/-- The run lemma: until a call closes its handle, an entry stays what it is. -/
theorem sameEntry_run (hlive : (s.tables t).Live slot) {calls : List HandleCall}
    (hcalls : ∀ call ∈ calls,
      ¬ call.Closes t (makeHandle slot ((s.tables t).generations slot))) :
    SameEntry (s.tables t) ((run step s calls).tables t) slot := by
  induction calls generalizing s with
  | nil => exact .refl hlive
  | cons call calls ih =>
    have hone := (call.does s).keeps_live hlive (hcalls call List.mem_cons_self)
    have hrest := ih (s := call.step s) (hone.live hlive) (by
      intro c hc
      rw [show ((call.step s).tables t).generations slot = (s.tables t).generations slot from
        hone.generation]
      exact hcalls c (List.mem_cons_of_mem call hc))
    exact ⟨hrest.generation.trans hone.generation, hrest.object.trans hone.object,
      hrest.rights.trans hone.rights, hrest.opened⟩

/-! ## Which handles work -/

/-- A handle that was answered names a slot that was the first free one and now holds the entry. -/
theorem returned_spec {handle : Nat} {object : Pointer} {rights : Rights}
    (hret : call.returned s = some (t, handle, object, rights)) (hne : handle ≠ 0) :
    ∃ slot, freeSlot (s.tables t) = some slot ∧
      handle = makeHandle slot (((call.step s).tables t).generations slot) ∧
      ((call.step s).tables t).Live slot ∧
      (((call.step s).tables t).entries slot).object = object ∧
      (((call.step s).tables t).entries slot).rights = rights := by
  cases call with
  | openKind t' object' rights' release retain kind =>
    simp only [returned, Option.some.injEq, Prod.mk.injEq] at hret
    obtain ⟨rfl, rfl, rfl, rfl⟩ := hret
    rcases openOwnedKind_cases (s.tables t') object' rights' release retain kind with
      heq | ⟨slot, hfree, hobject, -, heq⟩
    · exact absurd (by rw [heq]) hne
    · refine ⟨slot, hfree, ?_⟩
      simp only [step, effect, heq, setTable_tables, if_true,
        setEntry_generations, setEntry_entries, true_and, and_self, and_true]
      exact ⟨by simpa using hobject, by simp⟩
  | duplicate t' handle' rights' =>
    simp only [returned, Option.map_eq_some_iff, Prod.mk.injEq] at hret
    obtain ⟨source, hsource, rfl, rfl, rfl, rfl⟩ := hret
    rcases duplicate_cases (s.tables t') handle' rights' with
      heq | ⟨source', slot, hsource', hfree, -, heq⟩
    · exact absurd (by rw [heq]) hne
    · have hsame : source' = source := Option.some.inj (hsource'.symm.trans hsource)
      subst hsame
      have hobject := (resolve_live hsource).object
      refine ⟨slot, hfree, ?_⟩
      simp only [step, effect, heq, setTable_tables, if_true,
        setEntry_generations, setEntry_entries, true_and, and_self, and_true]
      exact ⟨by simpa using hobject, by simp⟩
  | setInheritable | close | closeAll | getRetain | releaseRef | inherit => cases hret

/-- A handle that resolves to an entry gets its object for every right it carries. -/
theorem processHandleGet_of_resolve (hwf : table.WellFormed) {handle : Nat}
    (hres : table.resolve handle = some slot) {required : Rights}
    (hwithin : required &&& (table.entries slot).rights = required) :
    processHandleGet table handle required = (table.entries slot).object := by
  rw [processHandleGet, if_neg (by rw [rightsOutside_of_within (hwf.rights slot) hwithin]; simp), hres]
  simp only
  rw [if_pos (by rw [BitVec.and_comm]; exact hwithin)]

/-- For every run and every handle an open or a duplicate answers in it: the handle gives its object
for all rights within its own, and can be closed, in every later state before it is closed, exactly
when one of the first 31 slots was free at the time. -/
theorem handle_works_iff (calls : List HandleCall) (call : HandleCall) {t handle : Nat}
    {object : Pointer} {rights : Rights}
    (hret : call.returned (run HandleCall.step .initial calls) = some (t, handle, object, rights))
    (hne : handle ≠ 0) :
    (∀ later : List HandleCall, (∀ c ∈ later, ¬ c.Closes t handle) →
      (∀ required, required &&& rights = required →
        processHandleGet ((run HandleCall.step .initial (calls ++ call :: later)).tables t)
          handle required = object) ∧
      (processHandleClose ((run HandleCall.step .initial (calls ++ call :: later)).tables t)
        handle).1 = true) ↔
    ∃ slot : Slot, slot.val < 31 ∧
      (((run HandleCall.step .initial calls).tables t).entries slot).object = 0 := by
  obtain ⟨slot, hfree, hhandle, hlive, hobject, hrights⟩ := returned_spec hret hne
  have hafter : ∀ later, run step .initial (calls ++ call :: later) =
      run step (call.step (run step .initial calls)) later := fun later => by
    rw [run_append, run_cons]
  rw [← freeSlot_lt_iff hfree]
  constructor
  · intro h
    by_contra hlast
    -- the last slot: the handle does not decode, so even a read without rights finds nothing
    have hbound : slot.val < 32 := slot.isLt
    have hnone : decodeHandle handle = none := by
      rw [hhandle]
      exact decodeHandle_makeHandle_last (by omega) _
    have hget := (h [] (by simp)).1 0 (BitVec.zero_and)
    rw [processHandleGet, HandleTable.resolve, hnone] at hget
    simp only [ite_self] at hget
    exact hlive.object (hobject.trans hget.symm)
  · intro hlt later hlater
    have hsame := sameEntry_run hlive (fun c hc => hhandle ▸ hlater c hc)
    rw [← hafter] at hsame
    have hwf := wellFormed_run (calls ++ call :: later) t
    have hres : ((run step .initial (calls ++ call :: later)).tables t).resolve handle =
        some slot := by
      rw [hhandle, ← hsame.generation]
      exact resolve_makeHandle hwf.numbered hlt (hsame.live hlive)
    refine ⟨fun required hrequired => ?_, ?_⟩
    · rw [processHandleGet_of_resolve hwf hres (by rw [hsame.rights, hrights]; exact hrequired),
        hsame.object, hobject]
    · rw [processHandleClose, hres]

/-- The first handle of a fresh table works. -/
theorem handle_works_first :
    (HandleCall.returned (run HandleCall.step .initial [])
        (.openKind 0 4096 handleRead 0 0 .generic) = some (0, 33, 4096, handleRead) ∧
      33 ≠ 0) ∧
    ((∀ later : List HandleCall, (∀ c ∈ later, ¬ c.Closes 0 33) →
      (∀ required, required &&& handleRead = required →
        processHandleGet ((run HandleCall.step .initial
          ([] ++ .openKind 0 4096 handleRead 0 0 .generic :: later)).tables 0) 33 required = 4096) ∧
      (processHandleClose ((run HandleCall.step .initial
        ([] ++ .openKind 0 4096 handleRead 0 0 .generic :: later)).tables 0) 33).1 = true) ↔
    ∃ slot : Slot, slot.val < 31 ∧
      (((run HandleCall.step .initial []).tables 0).entries slot).object = 0) :=
  ⟨⟨by decide +kernel, by decide⟩, handle_works_iff [] _ (by decide +kernel) (by decide)⟩

/-- Thirty-two opens fill a table. The last answers 32, which neither reads nor closes. -/
theorem handle_works_fails_full :
    HandleCall.returned
        (run HandleCall.step .initial
          (List.replicate 31 (.openKind 0 4096 handleRead 0 0 .generic)))
        (.openKind 0 4096 handleRead 0 0 .generic) = some (0, 32, 4096, handleRead) ∧
    processHandleGet ((run HandleCall.step .initial
      (List.replicate 31 (.openKind 0 4096 handleRead 0 0 .generic) ++
        [.openKind 0 4096 handleRead 0 0 .generic])).tables 0) 32 handleRead = 0 ∧
    (processHandleClose ((run HandleCall.step .initial
      (List.replicate 31 (.openKind 0 4096 handleRead 0 0 .generic) ++
        [.openKind 0 4096 handleRead 0 0 .generic])).tables 0) 32).1 = false := by
  decide +kernel

end KernelBoot.Process
