import Mathlib.Data.List.Nodup

/-!
# Counting after one change

How many elements of a list have a property, when the property changes at one element only.
-/

namespace KernelBoot.Lib

open List

variable {α : Type*}

/-- The count changes by what the one element contributes. -/
theorem countP_change {l : List α} (hl : l.Nodup) {c : α} (hc : c ∈ l) {p q : α → Bool}
    (hsame : ∀ x ∈ l, x ≠ c → p x = q x) :
    (l.countP p + if q c then 1 else 0) = l.countP q + if p c then 1 else 0 := by
  induction l with
  | nil => exact absurd hc not_mem_nil
  | cons a l ih =>
    obtain ⟨ha, hl⟩ := nodup_cons.mp hl
    rw [countP_cons, countP_cons]
    rcases mem_cons.mp hc with rfl | hmem
    · have hrest : l.countP p = l.countP q := by
        refine countP_congr fun x hx => ?_
        rw [hsame x (mem_cons_of_mem _ hx) (ne_of_mem_of_not_mem hx ha)]
      omega
    · have hhead := hsame a mem_cons_self (ne_of_mem_of_not_mem hmem ha).symm
      have hrec := ih hl hmem fun x hx => hsame x (mem_cons_of_mem a hx)
      rw [hhead]
      omega

end KernelBoot.Lib
