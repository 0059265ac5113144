import Mathlib

/-!
# Intervals that cover a range

A list of intervals, each with a start and a length. Intervals that do not meet cover as many positions
as their lengths add up to; so if they lie in a range and add up to all of it, no position of the range
is left out (`covered_of_sum_eq`).
-/

namespace KernelBoot.Lib

variable {α : Type*} {start length : α → Nat}

/-- A position of an interval. -/
def Covers (start length : α → Nat) (a : α) (p : Nat) : Prop := start a ≤ p ∧ p < start a + length a

instance (a : α) (p : Nat) : Decidable (Covers start length a p) := inferInstanceAs (Decidable (_ ∧ _))

/-- Two intervals without a common position. -/
def Apart (start length : α → Nat) (a b : α) : Prop :=
  ∀ p, ¬(Covers start length a p ∧ Covers start length b p)

/-- The positions of some intervals. -/
def covered (start length : α → Nat) : List α → Finset Nat
  | [] => ∅
  | a :: l => Finset.Ico (start a) (start a + length a) ∪ covered start length l

theorem mem_covered {l : List α} {p : Nat} :
    p ∈ covered start length l ↔ ∃ a ∈ l, Covers start length a p := by
  induction l with
  | nil => simp [covered]
  | cons a l ih => simp [covered, ih, Covers]

theorem card_covered {l : List α} (h : l.Pairwise (Apart start length)) :
    (covered start length l).card = (l.map length).sum := by
  induction l with
  | nil => rfl
  | cons a l ih =>
    obtain ⟨hhead, htail⟩ := List.pairwise_cons.mp h
    have hdisjoint : Disjoint (Finset.Ico (start a) (start a + length a)) (covered start length l) := by
      rw [Finset.disjoint_left]
      intro p hp hrest
      obtain ⟨b, hb, hcovers⟩ := mem_covered.mp hrest
      exact hhead b hb p ⟨Finset.mem_Ico.mp hp, hcovers⟩
    rw [covered, Finset.card_union_of_disjoint hdisjoint, ih htail, Nat.card_Ico, List.map_cons,
      List.sum_cons, Nat.add_sub_cancel_left]

/-- Intervals of a range that add up to it leave nothing out. -/
theorem covered_of_sum_eq {l : List α} {n : Nat} (happart : l.Pairwise (Apart start length))
    (hinside : ∀ a ∈ l, start a + length a ≤ n) (hsum : (l.map length).sum = n) {p : Nat} (hp : p < n) :
    ∃ a ∈ l, Covers start length a p := by
  have hsub : covered start length l ⊆ Finset.range n := by
    intro q hq
    obtain ⟨a, ha, hcovers⟩ := mem_covered.mp hq
    have hstop := hinside a ha
    rw [Finset.mem_range]
    exact Nat.lt_of_lt_of_le hcovers.2 hstop
  have hcard : (Finset.range n).card ≤ (covered start length l).card := by
    rw [card_covered happart, hsum, Finset.card_range]
  have heq := Finset.eq_of_subset_of_card_le hsub hcard
  exact mem_covered.mp (heq ▸ Finset.mem_range.mpr hp)

end KernelBoot.Lib
