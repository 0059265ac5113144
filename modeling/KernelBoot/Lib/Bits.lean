import Mathlib

/-!
# Bit strings

Numbers as bit strings, low bit first, and the bit string of a run of bytes.
-/

namespace KernelBoot.Lib

open List

variable (n : Nat) (bits : List Bool)

/-- The number a bit string stands for. -/
def bitsNat : List Bool → Nat
  | [] => 0
  | bit :: bits => bit.toNat + 2 * bitsNat bits

/-- The low `width` bits of a number. -/
def natBits : (width n : Nat) → List Bool
  | 0, _ => []
  | width + 1, n => n.testBit 0 :: natBits width (n / 2)

@[simp] theorem length_natBits (width n : Nat) : (natBits width n).length = width := by
  induction width generalizing n with
  | zero => rfl
  | succ width ih => simp [natBits, ih]

theorem toNat_testBit_zero : (n.testBit 0).toNat = n % 2 := by
  rw [Nat.testBit_zero]
  rcases Nat.mod_two_eq_zero_or_one n with h | h <;> simp [h]

theorem bitsNat_natBits {width n : Nat} (h : n < 2 ^ width) : bitsNat (natBits width n) = n := by
  induction width generalizing n with
  | zero =>
    have hzero : n = 0 := by simpa using h
    simp [natBits, bitsNat, hzero]
  | succ width ih =>
    have hhalf : n / 2 < 2 ^ width := Nat.div_lt_of_lt_mul (by rwa [pow_succ'] at h)
    rw [natBits, bitsNat, ih hhalf, toNat_testBit_zero]
    omega

theorem natBits_bitsNat : natBits bits.length (bitsNat bits) = bits := by
  induction bits with
  | nil => rfl
  | cons bit bits ih =>
    have hlow : (bitsNat (bit :: bits)).testBit 0 = bit := by
      rw [bitsNat, Nat.testBit_zero]
      cases bit <;> simp
    have hhalf : bitsNat (bit :: bits) / 2 = bitsNat bits := by
      rw [bitsNat]
      have hbit := Bool.toNat_lt bit
      omega
    rw [length_cons, natBits, hlow, hhalf, ih]

theorem bitsNat_lt : bitsNat bits < 2 ^ bits.length := by
  induction bits with
  | nil => simp [bitsNat]
  | cons bit bits ih =>
    have hbit := Bool.toNat_lt bit
    rw [bitsNat, length_cons, pow_succ]
    omega

/-- Bit strings of one length are told apart by their numbers. -/
theorem bitsNat_inj {a b : List Bool} (hlength : a.length = b.length) (h : bitsNat a = bitsNat b) :
    a = b := by
  rw [← natBits_bitsNat a, ← natBits_bitsNat b, hlength, h]

theorem bitsNat_append (a b : List Bool) : bitsNat (a ++ b) = bitsNat a + 2 ^ a.length * bitsNat b := by
  induction a with
  | nil => simp [bitsNat]
  | cons bit a ih =>
    simp only [cons_append, bitsNat, ih, length_cons, pow_succ]
    ring

theorem natBits_add (m n v : Nat) : natBits (m + n) v = natBits m v ++ natBits n (v / 2 ^ m) := by
  induction m generalizing v with
  | zero => simp [natBits]
  | succ m ih =>
    rw [show m + 1 + n = (m + n) + 1 by omega, natBits, natBits, ih, Nat.div_div_eq_div_mul,
      pow_succ', cons_append]

/-- The bits of bytes, each low bit first. -/
def bytesBits (bytes : List UInt8) : List Bool := bytes.flatMap fun byte => natBits 8 byte.toNat

@[simp] theorem bytesBits_cons (byte : UInt8) (bytes : List UInt8) :
    bytesBits (byte :: bytes) = natBits 8 byte.toNat ++ bytesBits bytes := flatMap_cons

@[simp] theorem length_bytesBits (bytes : List UInt8) :
    (bytesBits bytes).length = 8 * bytes.length := by
  induction bytes with
  | nil => rfl
  | cons byte bytes ih => simp [ih]; omega

/-- The bits of a byte, one by one. -/
theorem getElem?_natBits {width i : Nat} (h : i < width) :
    (natBits width n)[i]? = some (n.testBit i) := by
  induction width generalizing n i with
  | zero => omega
  | succ width ih =>
    cases i with
    | zero => rfl
    | succ i => rw [natBits, getElem?_cons_succ, ih _ (by omega), Nat.testBit_succ]

/-- Bit `i` of bytes is bit `i % 8` of byte `i / 8`. -/
theorem getElem?_bytesBits (bytes : List UInt8) {i : Nat} (h : i < 8 * bytes.length) :
    (bytesBits bytes)[i]? = some ((bytes.getD (i / 8) 0).toNat.testBit (i % 8)) := by
  induction bytes generalizing i with
  | nil => simp at h
  | cons byte bytes ih =>
    rw [bytesBits_cons]
    by_cases hi : i < 8
    · rw [getElem?_append_left (by simpa using hi), getElem?_natBits _ hi,
        Nat.div_eq_of_lt hi, Nat.mod_eq_of_lt hi, getD_cons_zero]
    · have hsplit : i / 8 = (i - 8) / 8 + 1 := by omega
      have hmod : i % 8 = (i - 8) % 8 := by omega
      rw [getElem?_append_right (by simpa using hi), length_natBits,
        ih (by rw [length_cons] at h; omega), hsplit, hmod, getD_cons_succ]

/-- Bits that fill whole bytes are the bits of those bytes. -/
theorem exists_bytesBits (h : bits.length = 8 * n) :
    ∃ bytes, bits = bytesBits bytes ∧ bytes.length = n := by
  induction n generalizing bits with
  | zero => exact ⟨[], eq_nil_of_length_eq_zero h, rfl⟩
  | succ n ih =>
    obtain ⟨bytes, hbytes, hlength⟩ := ih (bits.drop 8) (by rw [length_drop]; omega)
    have htake : (bits.take 8).length = 8 := length_take_of_le (by omega)
    have hlt := bitsNat_lt (bits.take 8)
    refine ⟨UInt8.ofNat (bitsNat (bits.take 8)) :: bytes, ?_, by rw [length_cons, hlength]⟩
    rw [bytesBits_cons, UInt8.toNat_ofNat_of_lt' (by rw [htake] at hlt; exact hlt), ← hbytes]
    nth_rewrite 1 [← htake]
    rw [natBits_bitsNat, take_append_drop]

end KernelBoot.Lib
