import Mathlib

/-!
# The best of a list, by one pass

A pass over a list that keeps the best value so far: an element replaces it if it is a candidate and its
value is better. `r` is the order, `r b c` for "`c` is better than `b`".
-/

namespace KernelBoot.Lib

open List

variable {α β : Type} (r : β → β → Prop) [DecidableRel r] (cand : α → Prop) [DecidablePred cand]
  (value : α → β)

/-- One element of the pass. -/
def keepBest (best : Option β) (a : α) : Option β :=
  if cand a ∧ ∀ b ∈ best, r b (value a) then some (value a) else best

variable {r cand value}

/-- The answer is the value of a candidate, or what was there before. -/
theorem foldl_keepBest_mem (l : List α) {best : Option β} {b : β}
    (h : l.foldl (keepBest r cand value) best = some b) :
    best = some b ∨ ∃ a ∈ l, cand a ∧ value a = b := by
  induction l generalizing best with
  | nil => exact .inl h
  | cons a l ih =>
    rw [foldl_cons] at h
    rcases ih h with hbest | ⟨c, hc, hcand⟩
    · rw [keepBest] at hbest
      split_ifs at hbest with ha
      · exact .inr ⟨a, mem_cons_self, ha.1, Option.some.inj hbest⟩
      · exact .inl hbest
    · exact .inr ⟨c, mem_cons_of_mem a hc, hcand⟩

variable [Std.Trichotomous r]

/-- A step answers nothing worse than the value before and the element's own. -/
theorem keepBest_le {best : Option β} {a : α} {b : β}
    (h : best = some b ∨ (cand a ∧ value a = b)) :
    ∃ c, keepBest r cand value best a = some c ∧ (r b c ∨ b = c) := by
  rw [keepBest]
  split_ifs with ha
  · rcases h with rfl | ⟨-, rfl⟩
    · exact ⟨_, rfl, .inl (ha.2 b rfl)⟩
    · exact ⟨_, rfl, .inr rfl⟩
  · rcases h with rfl | ⟨hcand, rfl⟩
    · exact ⟨b, rfl, .inr rfl⟩
    have hsome : ∃ b ∈ best, ¬r b (value a) := by
      by_contra hnone
      push Not at hnone
      exact ha ⟨hcand, hnone⟩
    obtain ⟨b, hb, hnot⟩ := hsome
    refine ⟨b, hb, ?_⟩
    by_contra hworse
    push Not at hworse
    exact hworse.2 (Std.Trichotomous.trichotomous _ _ hworse.1 hnot)

/-- Nothing is better than the answer. -/
theorem foldl_keepBest_le [IsTrans β r] (l : List α) {best : Option β} {b : β}
    (h : best = some b ∨ ∃ a ∈ l, cand a ∧ value a = b) :
    ∃ c, l.foldl (keepBest r cand value) best = some c ∧ (r b c ∨ b = c) := by
  induction l generalizing best b with
  | nil =>
    rcases h with hbest | ⟨a, ha, -⟩
    · exact ⟨b, hbest, .inr rfl⟩
    · cases ha
  | cons a l ih =>
    rw [foldl_cons]
    by_cases hfirst : best = some b ∨ (cand a ∧ value a = b)
    · obtain ⟨c, hc, hbc⟩ := keepBest_le (r := r) hfirst
      obtain ⟨d, hd, hcd⟩ := ih (.inl hc)
      refine ⟨d, hd, ?_⟩
      rcases hbc with hbc | rfl
      · rcases hcd with hcd | rfl
        · exact .inl (IsTrans.trans _ _ _ hbc hcd)
        · exact .inl hbc
      · exact hcd
    · apply ih
      rcases h with hbest | ⟨c, hc, hcand⟩
      · exact absurd (.inl hbest) hfirst
      · rcases mem_cons.mp hc with rfl | hmem
        · exact absurd (.inr hcand) hfirst
        · exact .inr ⟨c, hmem, hcand⟩

variable (r cand value) in
/-- The pass from nothing: no candidates, or the best of them. -/
theorem foldl_keepBest_cases [IsTrans β r] (l : List α) :
    (l.foldl (keepBest r cand value) none = none ∧ ∀ a ∈ l, ¬cand a) ∨
      ∃ a ∈ l, cand a ∧ l.foldl (keepBest r cand value) none = some (value a) ∧
        ∀ b ∈ l, cand b → r (value b) (value a) ∨ value b = value a := by
  cases hfold : l.foldl (keepBest r cand value) none with
  | none =>
    refine .inl ⟨rfl, fun a ha hcand => ?_⟩
    obtain ⟨c, hc, -⟩ := foldl_keepBest_le (r := r) l (.inr ⟨a, ha, hcand, rfl⟩)
    rw [hfold] at hc
    cases hc
  | some b =>
    rcases foldl_keepBest_mem l hfold with hnone | ⟨a, ha, hcand, rfl⟩
    · cases hnone
    · refine .inr ⟨a, ha, hcand, rfl, fun b hb hb' => ?_⟩
      obtain ⟨c, hc, hbc⟩ := foldl_keepBest_le (r := r) l (.inr ⟨b, hb, hb', rfl⟩)
      obtain rfl := Option.some.inj (hfold.symm.trans hc)
      exact hbc

end KernelBoot.Lib
