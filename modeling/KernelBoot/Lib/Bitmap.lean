import Mathlib.Logic.Function.Basic
import KernelBoot.Lib.Count

/-!
# Bitmaps packed into bytes

A bitmap is an array of bytes read and written one bit at a time: bit `n` is bit `n % 8` of byte
`n / 8`, reached by a shift and a one-bit mask. The laws below replace the mask arithmetic by a
predicate on indices once and for all: `test_set` and `test_clear` say what one write does to every
bit, `ext_test` says a bitmap is determined by its bits, and `zeros_set`, `zeros_clear` say how one
write moves the number of clear bits.
-/

namespace KernelBoot.Lib

open List BitVec

/-- An array of bytes, indexed by byte. -/
abbrev Bitmap := Nat → BitVec 8

namespace Bitmap

/-- The one-bit mask of index `n` inside its byte. -/
def mask (n : Nat) : BitVec 8 := 1#8 <<< (n &&& 7)

/-- Whether bit `n` is set. -/
def test (b : Bitmap) (n : Nat) : Bool := b (n >>> 3) &&& mask n != 0#8

/-- Set bit `n`. -/
def set (b : Bitmap) (n : Nat) : Bitmap :=
  Function.update b (n >>> 3) (b (n >>> 3) ||| mask n)

/-- Clear bit `n`. -/
def clear (b : Bitmap) (n : Nat) : Bitmap :=
  Function.update b (n >>> 3) (b (n >>> 3) &&& ~~~mask n)

/-- How many of the first `n` bits are clear. -/
def zeros (b : Bitmap) (n : Nat) : Nat := (List.range n).countP fun i => !b.test i

/-! ## One bit of one byte -/

theorem shift_three (n : Nat) : n >>> 3 = n / 8 := Nat.shiftRight_eq_div_pow n 3

theorem getLsbD_mask (n i : Nat) : (mask n).getLsbD i = decide (i = n % 8) := by
  have h7 : n &&& 7 = n % 8 := Nat.and_two_pow_sub_one_eq_mod n 3
  have hlt := Nat.mod_lt n (show 0 < 8 by decide)
  unfold mask
  rw [h7, getLsbD_shiftLeft, getLsbD_one, Bool.eq_iff_iff]
  simp only [Bool.and_eq_true, Bool.not_eq_true', decide_eq_true_eq, decide_eq_false_iff_not]
  omega

/-- Testing through the mask reads the bit. -/
theorem test_eq_getLsbD (b : Bitmap) (n : Nat) : b.test n = (b (n / 8)).getLsbD (n % 8) := by
  unfold test
  rw [shift_three]
  cases hb : (b (n / 8)).getLsbD (n % 8) with
  | true =>
    rw [bne_iff_ne]
    intro hz
    have hbit := congrArg (fun v => v.getLsbD (n % 8)) hz
    simp only [getLsbD_and, getLsbD_mask, hb, getLsbD_zero, decide_true,
      Bool.and_self] at hbit
    exact Bool.noConfusion hbit
  | false =>
    have hz : b (n / 8) &&& mask n = 0#8 := by
      apply eq_of_getLsbD_eq
      intro i _
      rw [getLsbD_and, getLsbD_mask, getLsbD_zero]
      by_cases hi : i = n % 8
      · rw [hi, hb, Bool.false_and]
      · rw [decide_eq_false hi, Bool.and_false]
    rw [hz, bne_self_eq_false]

private theorem mod_eq_iff_of_div_eq {m n : Nat} (hk : m / 8 = n / 8) :
    (m % 8 = n % 8) = (m = n) :=
  propext ⟨fun h => by omega, fun h => by rw [h]⟩

/-! ## What one write does to every bit -/

theorem test_set (b : Bitmap) (n m : Nat) :
    (b.set n).test m = (b.test m || decide (m = n)) := by
  rw [test_eq_getLsbD, test_eq_getLsbD, set, shift_three]
  by_cases hk : m / 8 = n / 8
  · rw [hk, Function.update_self, getLsbD_or, getLsbD_mask]
    simp only [mod_eq_iff_of_div_eq hk]
  · have hne : m ≠ n := fun h => hk (by rw [h])
    rw [Function.update_of_ne hk, decide_eq_false hne, Bool.or_false]

theorem test_clear (b : Bitmap) (n m : Nat) :
    (b.clear n).test m = (b.test m && !decide (m = n)) := by
  rw [test_eq_getLsbD, test_eq_getLsbD, clear, shift_three]
  have hlt := Nat.mod_lt m (show 0 < 8 by decide)
  by_cases hk : m / 8 = n / 8
  · rw [hk, Function.update_self, getLsbD_and, getLsbD_not, getLsbD_mask,
      decide_eq_true hlt, Bool.true_and]
    simp only [mod_eq_iff_of_div_eq hk]
  · have hne : m ≠ n := fun h => hk (by rw [h])
    rw [Function.update_of_ne hk, decide_eq_false hne, Bool.not_false, Bool.and_true]

/-- A bitmap is its bits. -/
theorem ext_test {a b : Bitmap} (h : ∀ n, a.test n = b.test n) : a = b := by
  funext k
  apply eq_of_getLsbD_eq
  intro i hi
  have hbit := h (8 * k + i)
  rw [test_eq_getLsbD, test_eq_getLsbD] at hbit
  rwa [show (8 * k + i) / 8 = k by omega, show (8 * k + i) % 8 = i by omega] at hbit

/-- Clearing a bit that setting it turned on gives the bitmap back. -/
theorem clear_set {b : Bitmap} {n : Nat} (h : b.test n = false) : (b.set n).clear n = b := by
  apply ext_test
  intro m
  rw [test_clear, test_set]
  by_cases hm : m = n
  · rw [hm, h, decide_eq_true rfl, Bool.not_true, Bool.and_false]
  · rw [decide_eq_false hm, Bool.or_false, Bool.not_false, Bool.and_true]

/-! ## Counting clear bits -/

theorem zeros_clear {b : Bitmap} {n m : Nat} (hm : m < n) (h : b.test m = true) :
    (b.clear m).zeros n = b.zeros n + 1 := by
  have hchange := countP_change (p := fun i => !(b.clear m).test i) (q := fun i => !b.test i)
    nodup_range (mem_range.mpr hm) fun x _ hx => by
      rw [test_clear, decide_eq_false hx, Bool.not_false, Bool.and_true]
  simpa only [zeros, test_clear, h, decide_true, Bool.not_true, Bool.and_false, Bool.not_false,
    Bool.false_eq_true, if_false, if_true, Nat.add_zero] using hchange

theorem zeros_set {b : Bitmap} {n m : Nat} (hm : m < n) (h : b.test m = false) :
    (b.set m).zeros n + 1 = b.zeros n := by
  have hset : (b.set m).test m = true := by rw [test_set, decide_eq_true rfl, Bool.or_true]
  rw [← zeros_clear hm hset, clear_set h]

theorem zeros_le (b : Bitmap) (n : Nat) : b.zeros n ≤ n := by
  have h := countP_le_length (p := fun i => !b.test i) (l := List.range n)
  rwa [length_range] at h

end Bitmap

end KernelBoot.Lib
