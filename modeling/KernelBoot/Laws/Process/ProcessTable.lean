import KernelBoot.Process.ProcessTable

/-!
# Identifiers in the process table

The publishing scan refuses an identifier only when it meets the holder before an empty slot
(`publishSlot_some`, `publishSlot_none`). A slot emptied between a creator's two visits can therefore
hide the holder from it, and the identifier is published a second time. `uniqueIds_iff` says that
nothing else goes wrong: the identifiers stay distinct along a run exactly when no creator publishes
an identifier whose holder lies behind an empty slot.
-/

namespace KernelBoot.Process

open Lib

variable {slots : Slots} {id index : Nat}

/-- No two occupied slots hold the same identifier. -/
def UniqueIds (slots : Slots) : Prop :=
  ∀ i < processMax, ∀ j < processMax, ∀ e f, slots i = some e → slots j = some f → e.id = f.id → i = j

/-- Whichever slot holds the identifier, no slot before it is empty. -/
def HolderInFront (slots : Slots) (id : Nat) : Prop :=
  ∀ i < processMax, ∀ e, slots i = some e → e.id = id → ∀ j < i, slots j ≠ none

/-- A visit that publishes an identifier finds its holder, if there is one, in front of every empty
slot. -/
def CreatorTurn.Safe (s : Creators) : CreatorTurn → Prop
  | .visit c allocated _ =>
    allocated = true → ∀ id retries, s.creators c = .publish id retries → HolderInFront s.slots id
  | _ => True

/-! ## The publishing scan -/

theorem publishSlot_some {remaining i : Nat} (h : publishSlot slots id remaining index = some i) :
    index ≤ i ∧ i < index + remaining ∧ slots i = none ∧
      ∀ k, index ≤ k → k < i → ∃ e, slots k = some e ∧ e.id ≠ id := by
  fun_induction publishSlot slots id remaining index with
  | case1 => cases h
  | case2 => cases h
  | case3 remaining index entry hentry hid ih =>
    obtain ⟨hle, hlt, hempty, hbefore⟩ := ih h
    refine ⟨by omega, by omega, hempty, fun k hk hki => ?_⟩
    rcases Nat.eq_or_lt_of_le hk with rfl | hlater
    · exact ⟨entry, hentry, hid⟩
    · exact hbefore k hlater hki
  | case4 remaining index hempty =>
    cases h
    exact ⟨Nat.le_refl _, by omega, hempty, fun k hk hki => absurd hki (by omega)⟩

/-- A scan that publishes nothing either met the identifier with no empty slot before it, or found
every slot taken. -/
theorem publishSlot_none {remaining : Nat} (h : publishSlot slots id remaining index = none) :
    (∃ k e, index ≤ k ∧ k < index + remaining ∧ slots k = some e ∧ e.id = id ∧
        ∀ j, index ≤ j → j < k → slots j ≠ none) ∨
      ∀ k, index ≤ k → k < index + remaining → slots k ≠ none := by
  fun_induction publishSlot slots id remaining index with
  | case1 => exact .inr fun k hk hlt => absurd hlt (by omega)
  | case2 remaining index entry hentry hid =>
    exact .inl ⟨index, entry, Nat.le_refl _, by omega, hentry, hid,
      fun j hj hlt => absurd hlt (by omega)⟩
  | case3 remaining index entry hentry hid ih =>
    have htaken : slots index ≠ none := by
      rw [hentry]
      exact Option.some_ne_none entry
    rcases ih h with ⟨k, e, hk, hlt, he, hid, hbefore⟩ | hfull
    · refine .inl ⟨k, e, by omega, by omega, he, hid, fun j hj hjk => ?_⟩
      rcases Nat.eq_or_lt_of_le hj with rfl | hlater
      · exact htaken
      · exact hbefore j hlater hjk
    · refine .inr fun k hk hlt => ?_
      rcases Nat.eq_or_lt_of_le hk with rfl | hlater
      · exact htaken
      · exact hfull k hlater (by omega)
  | case4 => cases h

/-! ## One turn -/

theorem unregister_some {process i : Nat} {e : TableEntry} (h : unregister slots process i = some e) :
    slots i = some e := by
  revert h
  fun_cases unregister slots process i
  · rintro ⟨⟩
  next hentry _ =>
    rintro ⟨⟩
    exact hentry
  · rintro ⟨⟩

theorem UniqueIds.unregister (h : UniqueIds slots) (process : Nat) :
    UniqueIds (unregister slots process) :=
  fun i hi j hj e f he hf hid => h i hi j hj e f (unregister_some he) (unregister_some hf) hid

/-- A scan that refuses leaves nothing to blame on it: the holder stood in front. -/
theorem UniqueIds.inFront_of_refused (h : UniqueIds slots)
    (hscan : publishSlot slots id processMax 0 = none) : HolderInFront slots id := by
  intro i hi e he hid j hj
  rcases publishSlot_none hscan with ⟨k, f, _, hk, hf, hkid, hbefore⟩ | hfull
  · have hik : i = k := h i hi k (by omega) e f he hf (hid.trans hkid.symm)
    exact hbefore j (Nat.zero_le j) (hik ▸ hj)
  · exact hfull j (Nat.zero_le j) (by omega)

/-- Publishing into the slot the scan found keeps identifiers distinct exactly when the holder, if
any, stood in front. -/
theorem UniqueIds.publish_iff (h : UniqueIds slots) {process : Nat}
    (hscan : publishSlot slots id processMax 0 = some index) :
    UniqueIds (fun i => if i = index then some ⟨process, id⟩ else slots i) ↔
      HolderInFront slots id := by
  obtain ⟨_, hlt, hempty, hbefore⟩ := publishSlot_some hscan
  rw [Nat.zero_add] at hlt
  constructor
  · intro hnew i hi e he hid j hj
    -- the old holder would share the identifier with the new entry
    have hne : i ≠ index := by
      rintro rfl
      rw [hempty] at he
      cases he
    refine absurd (hnew i hi index hlt e ⟨process, id⟩ ?_ ?_ hid) hne
    · simp only [if_neg hne]
      exact he
    · simp only [↓reduceIte]
  · intro hfront
    have hnone : ∀ i < processMax, ∀ e, slots i = some e → e.id ≠ id := by
      intro i hi e he hid
      rcases Nat.lt_trichotomy i index with hless | rfl | hmore
      · obtain ⟨f, hf, hfid⟩ := hbefore i (Nat.zero_le i) hless
        rw [he] at hf
        cases hf
        exact hfid hid
      · rw [hempty] at he
        cases he
      · exact hfront i hi e he hid index hmore hempty
    intro i hi j hj e f he hf hid
    simp only at he hf
    split at he
    next hii =>
      split at hf
      next hjj => rw [hii, hjj]
      next =>
        cases he
        exact absurd hid.symm (hnone j hj f hf)
    next =>
      split at hf
      next =>
        cases hf
        exact absurd hid (hnone i hi e he)
      next => exact h i hi j hj e f he hf hid

theorem publish_iff {s : Creators} (h : UniqueIds s.slots) (c id process : Nat)
    (retries : Option Nat) :
    UniqueIds (s.publish c id process retries).slots ↔ HolderInFront s.slots id := by
  fun_cases s.publish c id process retries
  next hscan => exact ⟨fun _ => h.inFront_of_refused hscan, fun _ => h⟩
  next index hscan => exact h.publish_iff hscan

/-- A turn keeps identifiers distinct exactly when it is safe. -/
theorem CreatorTurn.step_uniqueIds {s : Creators} (h : UniqueIds s.slots) (turn : CreatorTurn) :
    UniqueIds (turn.step s).slots ↔ turn.Safe s := by
  cases turn with
  | create c id =>
    refine ⟨fun _ => trivial, fun _ => ?_⟩
    rw [CreatorTurn.step]
    split
    next =>
      split
      next => exact h
      next => exact h
    next => exact h
  | createAuto c =>
    refine ⟨fun _ => trivial, fun _ => ?_⟩
    rw [CreatorTurn.step]
    split
    next => exact h
    next => exact h
  | destroy process => exact ⟨fun _ => trivial, fun _ => h.unregister process⟩
  | visit c allocated process =>
    rw [CreatorTurn.step, CreatorTurn.Safe, Creators.visit]
    split
    next hpc =>
      refine ⟨fun _ _ id retries hpub => ?_, fun _ => h⟩
      rw [hpc] at hpub
      cases hpub
    next hpc =>
      refine ⟨fun _ _ id retries hpub => ?_, fun _ => ?_⟩
      · rw [hpc] at hpub
        cases hpub
      · split
        next => exact h
        next => exact h
    next hpc =>
      refine ⟨fun _ _ id retries hpub => ?_, fun _ => ?_⟩
      · rw [hpc] at hpub
        cases hpub
      · split
        next => exact h
        next => exact h
    next id retries hpc =>
      split
      next hallocated =>
        rw [publish_iff h]
        refine ⟨fun hfront _ id' retries' hpub => ?_, fun hsafe => hsafe hallocated id retries hpc⟩
        rw [hpc] at hpub
        cases hpub
        exact hfront
      next hrefused => exact ⟨fun _ hallocated => absurd hallocated hrefused, fun _ => h⟩

/-! ## Runs -/

/-- From the empty table, over any number of creators and destroyers in any order, the identifiers
are distinct in every state exactly when every publication of the run is safe. -/
theorem uniqueIds_iff (turns : List CreatorTurn) :
    Always CreatorTurn.step (fun s => UniqueIds s.slots) .initial turns ↔
      Each CreatorTurn.step CreatorTurn.Safe .initial turns := by
  have hany : Each CreatorTurn.step (fun _ _ => True) .initial turns :=
    each_of_forall (fun _ _ => trivial) _ _
  have hinitial : UniqueIds Creators.initial.slots := by
    intro i _ j _ e f he
    cases he
  have hturn : ∀ (s : Creators) (turn : CreatorTurn), True → True → UniqueIds s.slots →
      (UniqueIds (turn.step s).slots ↔ turn.Safe s) := fun s turn _ _ h => turn.step_uniqueIds h
  exact always_iff_each (P := fun s : Creators => UniqueIds s.slots) (fun _ _ _ _ => trivial) hturn
    trivial hinitial hany

/-- Two creators pass their first visit for identifier 5 while slot 0 is taken by process 100. One
publishes behind it in slot 1; process 100 is destroyed; the other publishes in slot 0. -/
def hiddenHolder : List CreatorTurn :=
  [.create 2 9, .visit 2 true 100, .visit 2 true 100,
    .create 0 5, .visit 0 true 101, .create 1 5, .visit 1 true 102, .visit 1 true 102,
    .destroy 100, .visit 0 true 101]

theorem uniqueIds_fails_hiddenHolder : ¬ UniqueIds (run CreatorTurn.step .initial hiddenHolder).slots := by
  intro h
  have hsame := h 0 (by decide) 1 (by decide) ⟨101, 5⟩ ⟨102, 5⟩ (by decide) (by decide) rfl
  cases hsame

end KernelBoot.Process
