import Mathlib

/-!
# Back-references

What a match of a dictionary coder stands for: a number of elements, each a copy of the one
`distance` before it in the output. A match longer than its distance reads what it has just written.
-/

namespace KernelBoot.Lib

variable {α : Type*} [Inhabited α]

/-- The output after a match of the given distance and length. -/
def copyMatch (out : List α) (distance : Nat) : Nat → List α
  | 0 => out
  | length + 1 => copyMatch (out ++ [out.getD (out.length - distance) default]) distance length

@[simp] theorem length_copyMatch (distance length : Nat) (out : List α) :
    (copyMatch out distance length).length = out.length + length := by
  induction length generalizing out with
  | zero => simp [copyMatch]
  | succ length ih => simp [copyMatch, ih, Nat.add_assoc, Nat.add_comm 1]

theorem isPrefix_copyMatch (distance length : Nat) (out : List α) :
    out <+: copyMatch out distance length := by
  induction length generalizing out with
  | zero => simp [copyMatch]
  | succ length ih =>
    rw [copyMatch]
    exact (List.prefix_append out _).trans (ih _)

end KernelBoot.Lib
