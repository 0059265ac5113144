import KernelBoot.Mm.Frame
import KernelBoot.Lib.Bytes
import KernelBoot.Lib.LittleEndian

/-!
# The bytes of a page

Physical memory is kept as pages of 512 words. Code that copies into a frame through its address sees
4096 bytes, the low byte of each word first.
-/

namespace KernelBoot.Mm

open Lib

def Page.bytes (page : Page) : Bytes := fun i =>
  BitVec.ofNat 8 ((page (Fin.ofNat 512 (i / 8))).toNat >>> (8 * (i % 8)))

def Page.ofBytes (bytes : Bytes) : Page := fun i => BitVec.ofNat 64 (bytes.load64 (8 * i.val))

/-- Physical memory with `count` bytes of `data` copied into a frame from `start` on. -/
def writeFrame (memory : Word → Page) (frame : Word) (start count : Nat) (data : Bytes) :
    Word → Page :=
  Function.update memory frame (Page.ofBytes ((memory frame).bytes.splice start count data))

theorem load64_eq_digits (b : Bytes) (i : Nat) :
    b.load64 i = (b i).toNat + 256 * ((b (i + 1)).toNat + 256 * ((b (i + 2)).toNat +
      256 * ((b (i + 3)).toNat + 256 * ((b (i + 4)).toNat + 256 * ((b (i + 5)).toNat +
      256 * ((b (i + 6)).toNat + 256 * (b (i + 7)).toNat)))))) := by
  simp only [Bytes.load64, Bytes.load32, Bytes.load16, lor_shiftLeft (b _).isLt, Nat.add_assoc,
    Nat.reduceAdd]
  have h (j : Nat) : (b j).toNat < 256 := (b j).isLt
  have := h i; have := h (i + 1); have := h (i + 2); have := h (i + 3)
  have := h (i + 4); have := h (i + 5); have := h (i + 6); have := h (i + 7)
  rw [lor_shiftLeft (k := 16) (by omega), lor_shiftLeft (k := 16) (by omega),
    lor_shiftLeft (k := 32) (by omega)]
  omega

/-- What was put together is read back. -/
theorem Page.bytes_ofBytes (b : Bytes) {i : Nat} (h : i < 4096) : (Page.ofBytes b).bytes i = b i := by
  have hload := load64_eq_digits b (8 * (i / 8))
  have hlt : b.load64 (8 * (i / 8)) < 2 ^ 64 := Bytes.load64_lt
  have hbyte (j : Nat) : (b j).toNat < 256 := (b j).isLt
  apply BitVec.eq_of_toNat_eq
  rw [Page.bytes, Page.ofBytes, Fin.val_ofNat, Nat.mod_eq_of_lt (by omega : i / 8 < 512),
    BitVec.toNat_ofNat, BitVec.toNat_ofNat, Nat.mod_eq_of_lt hlt, Nat.shiftRight_eq_div_pow, hload]
  generalize hq : 8 * (i / 8) = q
  have hb0 := hbyte q; have hb1 := hbyte (q + 1); have hb2 := hbyte (q + 2); have hb3 := hbyte (q + 3)
  have hb4 := hbyte (q + 4); have hb5 := hbyte (q + 5); have hb6 := hbyte (q + 6)
  have hb7 := hbyte (q + 7)
  have hi : i = q + i % 8 := by omega
  have hr : i % 8 < 8 := Nat.mod_lt _ (by omega)
  generalize i % 8 = r at hi hr
  subst hi
  interval_cases r
  all_goals simp only [Nat.mul_zero, Nat.reduceMul, Nat.reducePow, Nat.add_zero]; omega

variable {memory : Word → Page} {frame other : Word} {start count i : Nat} {data : Bytes}

theorem writeFrame_bytes (h : i < 4096) :
    (writeFrame memory frame start count data frame).bytes i =
      (memory frame).bytes.splice start count data i := by
  rw [writeFrame, Function.update_self, Page.bytes_ofBytes _ h]

theorem writeFrame_other (h : other ≠ frame) :
    writeFrame memory frame start count data other = memory other :=
  Function.update_of_ne h _ _

end KernelBoot.Mm
