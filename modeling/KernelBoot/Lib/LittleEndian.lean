import Mathlib

/-!
# Little-endian fields

Numbers as runs of bytes, low byte first: reading a run, writing a number into a run of a given
size, and that reading gives back what was written.
-/

namespace KernelBoot.Lib

/-- The number a run of bytes stands for. -/
def leNat (bytes : List UInt8) : Nat := Nat.ofDigits 256 (bytes.map UInt8.toNat)

@[simp] theorem leNat_nil : leNat [] = 0 := rfl

@[simp] theorem leNat_cons (byte : UInt8) (bytes : List UInt8) :
    leNat (byte :: bytes) = byte.toNat + 256 * leNat bytes := by
  simp [leNat, Nat.ofDigits_cons]

theorem leNat_append (a b : List UInt8) : leNat (a ++ b) = leNat a + 256 ^ a.length * leNat b := by
  induction a with
  | nil => simp
  | cons byte a ih =>
    simp only [List.cons_append, leNat_cons, ih, List.length_cons, pow_succ]
    ring

theorem leNat_lt (bytes : List UInt8) : leNat bytes < 256 ^ bytes.length := by
  induction bytes with
  | nil => simp
  | cons byte bytes ih =>
    have hbyte := byte.toNat_lt
    rw [leNat_cons, List.length_cons, pow_succ]
    omega

/-- The low `size` bytes of a number. -/
def leBytes : (size n : Nat) → List UInt8
  | 0, _ => []
  | size + 1, n => UInt8.ofNat n :: leBytes size (n / 256)

@[simp] theorem length_leBytes (size n : Nat) : (leBytes size n).length = size := by
  induction size generalizing n with
  | zero => rfl
  | succ size ih => simp [leBytes, ih]

theorem leNat_leBytes (size n : Nat) : leNat (leBytes size n) = n % 256 ^ size := by
  induction size generalizing n with
  | zero => simp [leBytes, Nat.mod_one]
  | succ size ih =>
    have hsplit : n % 256 ^ (size + 1) = n % 256 + 256 * (n / 256 % 256 ^ size) := by
      rw [pow_succ', Nat.mod_mul]
    rw [leBytes, leNat_cons, ih, UInt8.toNat_ofNat', hsplit]

/-- Parts of a number put together with a shift and `or`, as code reads such a field. -/
theorem lor_shiftLeft {k x : Nat} (hx : x < 2 ^ k) (y : Nat) : x ||| y <<< k = x + 2 ^ k * y := by
  rw [Nat.lor_comm, ← Nat.shiftLeft_add_eq_or_of_lt hx, Nat.shiftLeft_eq]
  ring

theorem lor_bytes (a b c d : UInt8) :
    a.toNat ||| b.toNat <<< 8 ||| c.toNat <<< 16 ||| d.toNat <<< 24 = leNat [a, b, c, d] := by
  have ha := a.toNat_lt
  have hb := b.toNat_lt
  have hc := c.toNat_lt
  rw [lor_shiftLeft ha, lor_shiftLeft (k := 16) (by omega), lor_shiftLeft (k := 24) (by omega)]
  simp only [leNat_cons, leNat_nil]
  omega

/-- The same with the high byte first. -/
theorem shiftLeft_lor_bytes (a b c d : UInt8) :
    a.toNat <<< 24 ||| b.toNat <<< 16 ||| c.toNat <<< 8 ||| d.toNat = leNat [d, c, b, a] := by
  rw [← lor_bytes, Nat.lor_comm, Nat.lor_comm _ (c.toNat <<< 8), Nat.lor_comm (a.toNat <<< 24)]
  simp only [Nat.lor_assoc]

end KernelBoot.Lib
