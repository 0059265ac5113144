import Mathlib
import KernelBoot.Lib.Bitmap

/-!
# Byte-addressed stores

A disk, a block of it or a buffer is a function from addresses to bytes. `window` is the part of a
store that starts at an address, as a buffer it was read into; `splice` is the store after a buffer was
written over a range of it. The fields of a record are read through `load16` and `load32`, low byte
first.
-/

namespace KernelBoot.Lib

/-- Bytes by address. -/
abbrev Bytes := Nat → BitVec 8

namespace Bytes

/-- What stands from `start` on. -/
def window (b : Bytes) (start : Nat) : Bytes := fun i => b (start + i)

/-- The store with `count` bytes of `data` written from `start` on. -/
def splice (b : Bytes) (start count : Nat) (data : Bytes) : Bytes := fun i =>
  if start ≤ i ∧ i < start + count then data (i - start) else b i

/-- Zero everywhere. -/
def zero : Bytes := fun _ => 0

def load16 (b : Bytes) (i : Nat) : Nat := (b i).toNat ||| (b (i + 1)).toNat <<< 8

def load32 (b : Bytes) (i : Nat) : Nat := b.load16 i ||| b.load16 (i + 2) <<< 16

def load64 (b : Bytes) (i : Nat) : Nat := b.load32 i ||| b.load32 (i + 4) <<< 32

/-- The bytes of a number, low byte first. -/
def ofNat (value : Nat) : Bytes := fun i => BitVec.ofNat 8 (value >>> (8 * i))

def store32 (b : Bytes) (i value : Nat) : Bytes := b.splice i 4 (ofNat value)

def store64 (b : Bytes) (i value : Nat) : Bytes := b.splice i 8 (ofNat value)

/-- `count` bytes as a list. -/
def octets (b : Bytes) (start count : Nat) : List UInt8 :=
  (List.range count).map fun i => UInt8.ofBitVec (b (start + i))

/-- A number that stands at an address. -/
structure Field where
  start : Nat
  width : Nat
  value : Nat

/-- A store with some fields that do not overlap, and zero elsewhere. -/
def ofFields (fields : List Field) : Bytes :=
  ofNat (fields.foldr (fun field rest => field.value <<< (8 * field.start) ||| rest) 0)

variable {b data : Bytes} {start count i : Nat}

theorem window_apply : b.window start i = b (start + i) := rfl

theorem splice_of_mem (h : start ≤ i ∧ i < start + count) :
    b.splice start count data i = data (i - start) := if_pos h

theorem splice_of_not_mem (h : ¬(start ≤ i ∧ i < start + count)) :
    b.splice start count data i = b i := if_neg h

/-- What was written is read back. -/
theorem window_splice (h : i < count) : (b.splice start count data).window start i = data i := by
  rw [window_apply, splice_of_mem (by omega), Nat.add_sub_cancel_left]

/-- A window that the write does not reach. -/
theorem window_splice_of_disjoint {other : Nat}
    (h : other + i < start ∨ start + count ≤ other + i) :
    (b.splice start count data).window other i = b.window other i := by
  rw [window_apply, window_apply, splice_of_not_mem (by omega)]

theorem load16_lt : b.load16 i < 2 ^ 16 :=
  Nat.or_lt_two_pow (Nat.lt_trans (b i).isLt (by decide))
    (Nat.shiftLeft_lt (show (b (i + 1)).toNat < 2 ^ (16 - 8) from (b (i + 1)).isLt))

theorem load32_lt : b.load32 i < 2 ^ 32 :=
  Nat.or_lt_two_pow (Nat.lt_trans b.load16_lt (by decide))
    (Nat.shiftLeft_lt (show b.load16 (i + 2) < 2 ^ (32 - 16) from b.load16_lt))

theorem load64_lt : b.load64 i < 2 ^ 64 :=
  Nat.or_lt_two_pow (Nat.lt_trans b.load32_lt (by decide))
    (Nat.shiftLeft_lt (show b.load32 (i + 4) < 2 ^ (64 - 32) from b.load32_lt))

theorem load32_congr {c : Bytes} (h : ∀ k < 4, b (i + k) = c (i + k)) :
    b.load32 i = c.load32 i := by
  have h0 := h 0 (by omega)
  have h1 := h 1 (by omega)
  have h2 := h 2 (by omega)
  have h3 := h 3 (by omega)
  rw [Nat.add_zero] at h0
  simp only [load32, load16, h0, h1, h2, Nat.add_assoc, Nat.reduceAdd, h3]

/-- Bits that only bytes below a bound hold. -/
theorem test_congr {c : Bytes} {n bound : Nat} (hn : n < 8 * bound) (h : ∀ i < bound, b i = c i) :
    Bitmap.test b n = Bitmap.test c n := by
  rw [Bitmap.test_eq_getLsbD, Bitmap.test_eq_getLsbD, h (n / 8) (by omega)]

end Bytes

end KernelBoot.Lib
