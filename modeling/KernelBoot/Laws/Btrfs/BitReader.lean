import KernelBoot.Lib.Bits
import KernelBoot.Lib.LittleEndian
import KernelBoot.Btrfs.Deflate

/-!
# Laws of the bit reader

`rest` is the bit string a reader can still deliver. `read_bits` takes a number off its front, and
`Reads` says so for any bit string: what a function of the decoder does to the reader is stated as the
bits it reads, in both directions, so that the same law serves to run the decoder on an encoded stream
and to read a stream off a run.
-/

namespace KernelBoot.Btrfs

open Lib List Nat

namespace BitReader

/-- The reader stands within its data. -/
def Within (reader : BitReader) : Prop := reader.bit ≤ reader.limit

/-- The bits that can still be read. -/
def rest (reader : BitReader) : List Bool :=
  ((bytesBits reader.data).take reader.limit).drop reader.bit

/-- The reader a number of bits further on. -/
def advance (reader : BitReader) (count : Nat) : BitReader :=
  { reader with bit := reader.bit + count }

variable {reader : BitReader}

theorem limit_le (reader : BitReader) : reader.limit ≤ 8 * reader.data.length := by
  rw [limit, Nat.mul_comm]
  exact mod_le _ _

@[simp] theorem bit_advance (count : Nat) : (reader.advance count).bit = reader.bit + count := rfl

theorem advance_advance (m n : Nat) : (reader.advance m).advance n = reader.advance (m + n) := by
  rw [advance, advance, advance, Nat.add_assoc]

theorem length_rest (reader : BitReader) : reader.rest.length = reader.limit - reader.bit := by
  rw [rest, length_drop, length_take, length_bytesBits, Nat.min_eq_left reader.limit_le]

theorem rest_advance (count : Nat) : (reader.advance count).rest = reader.rest.drop count := by
  rw [rest, rest, drop_drop]
  rfl

/-- A bit of the rest, as `read_bits` picks it out. -/
theorem at_eq (hwithin : reader.Within) {i : Nat} (h : i < reader.rest.length) :
    reader.at (reader.bit + i) = (reader.rest[i]).toNat := by
  have hlength := length_rest reader
  have hlimit := reader.limit_le
  have hwithin' : reader.bit ≤ reader.limit := hwithin
  have hbit : reader.rest[i]? =
      some ((reader.data.getD ((reader.bit + i) / 8) 0).toNat.testBit ((reader.bit + i) % 8)) := by
    rw [rest, getElem?_drop, getElem?_take_of_lt (by omega),
      getElem?_bytesBits _ (by omega)]
  rw [getElem?_eq_getElem h] at hbit
  have hvalue := Option.some.inj hbit
  rw [hvalue, BitReader.at, shiftRight_eq_div_pow, and_one_is_mod,
    show (reader.bit + i) &&& 7 = (reader.bit + i) % 8 from and_two_pow_sub_one_eq_mod _ 3,
    shiftRight_eq_div_pow, ← toNat_testBit_zero, testBit_div_two_pow, Nat.zero_add]

end BitReader

/-- The reader delivers these bits and stands behind them. -/
structure Reads (reader : BitReader) (bits : List Bool) (reader' : BitReader) : Prop where
  isPrefix : bits <+: reader.rest
  after : reader' = reader.advance bits.length

namespace Reads

variable {reader reader' reader'' : BitReader} {a b bits : List Bool}

section

variable (h : Reads reader bits reader')

include h

theorem rest_eq : reader.rest = bits ++ reader'.rest := by
  obtain ⟨tail, htail⟩ := h.isPrefix
  rw [h.after, BitReader.rest_advance, ← htail, drop_left]

theorem length_rest :
    reader.rest.length = bits.length + reader'.rest.length := by
  rw [h.rest_eq, length_append]

theorem within (hwithin : reader.Within) : reader'.Within := by
  have hlength := h.isPrefix.length_le
  rw [BitReader.length_rest] at hlength
  have hbit : reader.bit ≤ reader.limit := hwithin
  rw [h.after]
  change reader.bit + bits.length ≤ reader.limit
  omega

/-- A reader that delivers a bit stands within its data. -/
theorem start_within (hne : bits ≠ []) : reader.Within := by
  have hlength := h.isPrefix.length_le
  rw [BitReader.length_rest] at hlength
  have hpos := length_pos_iff.mpr hne
  change reader.bit ≤ reader.limit
  omega

theorem end_within (hne : bits ≠ []) : reader'.Within :=
  h.within (h.start_within hne)

end

theorem append_iff : Reads reader (a ++ b) reader'' ↔
    ∃ reader', Reads reader a reader' ∧ Reads reader' b reader'' := by
  constructor
  · rintro ⟨⟨tail, htail⟩, hafter⟩
    refine ⟨reader.advance a.length, ⟨⟨b ++ tail, by rw [← htail, append_assoc]⟩, rfl⟩, ?_, ?_⟩
    · rw [BitReader.rest_advance, ← htail, append_assoc, drop_left]
      exact prefix_append b tail
    · rw [hafter, BitReader.advance_advance, length_append]
  · rintro ⟨reader', ha, hb⟩
    obtain ⟨tail, htail⟩ := hb.isPrefix
    refine ⟨⟨tail, by rw [append_assoc, htail, ← ha.rest_eq]⟩, ?_⟩
    rw [hb.after, ha.after, BitReader.advance_advance, length_append]

theorem nil_iff : Reads reader [] reader' ↔ reader' = reader := by
  constructor
  · intro h
    exact h.after
  · rintro rfl
    exact ⟨ nil_prefix, rfl⟩

/-- Two readings of equally many bits are one. -/
theorem unique (ha : Reads reader a reader') (hb : Reads reader b reader'')
    (hlength : a.length = b.length) : a = b ∧ reader' = reader'' := by
  refine ⟨?_, by rw [ha.after, hb.after, hlength]⟩
  exact (prefix_of_prefix_length_le ha.isPrefix hb.isPrefix hlength.le).eq_of_length hlength

end Reads

section Fields

variable {reader reader' : BitReader} {count value : Nat}

/-- The loop of `read_bits` adds the bits of a string to its result. -/
theorem readBitsLoop_eq (hwithin : reader.Within) (bits : List Bool) {i result : Nat}
    (hbits : bits <+: reader.rest.drop i) (hresult : result < 2 ^ i) :
    readBitsLoop reader bits.length i result = result + 2 ^ i * bitsNat bits := by
  induction bits generalizing i result with
  | nil => simp [readBitsLoop, bitsNat]
  | cons bit bits ih =>
    obtain ⟨tail, htail⟩ := hbits
    have hi : i < reader.rest.length := by
      by_contra hge
      rw [drop_eq_nil_of_le (by omega)] at htail
      cases htail
    rw [drop_eq_getElem_cons hi, cons_append] at htail
    injection htail with hbit htail
    have hat := reader.at_eq hwithin hi
    rw [← hbit] at hat
    have hlt := Bool.toNat_lt bit
    have hnext : result + 2 ^ i * bit.toNat < 2 ^ (i + 1) := by
      have hmul : 2 ^ i * bit.toNat ≤ 2 ^ i * 1 := Nat.mul_le_mul_left _ (by omega)
      rw [pow_succ]
      omega
    rw [length_cons, readBitsLoop, hat, lor_shiftLeft hresult, ih ⟨tail, htail⟩ hnext, bitsNat, pow_succ]
    ring

/-- `read_bits` reads a string of `count` bits and returns its number. -/
theorem readBits_iff (hwithin : reader.Within) :
    readBits reader count = some (value, reader') ↔
      count ≤ 24 ∧ ∃ bits : List Bool, bits.length = count ∧ bitsNat bits = value ∧
        Reads reader bits reader' := by
  have hlength := BitReader.length_rest reader
  have hbit : reader.bit ≤ reader.limit := hwithin
  constructor
  · intro h
    unfold readBits at h
    split at h
    · cases h
    · rename_i hguard
      obtain ⟨rfl, rfl⟩ := Prod.mk.inj (Option.some.inj h)
      have htake : (reader.rest.take count).length = count := length_take_of_le (by omega)
      refine ⟨by omega, reader.rest.take count, htake, ?_, take_prefix _ _, by rw [htake]; rfl⟩
      have hloop := readBitsLoop_eq hwithin (reader.rest.take count) (i := 0)
        ( take_prefix _ _) Nat.one_pos
      rw [htake] at hloop
      simpa using hloop.symm
  · rintro ⟨hcount, bits, rfl, rfl, hreads⟩
    have hle := hreads.isPrefix.length_le
    have hloop := readBitsLoop_eq hwithin bits (i := 0) hreads.isPrefix Nat.one_pos
    rw [readBits, if_neg (by omega), hloop, hreads.after]
    simp [BitReader.advance]

/-- A field of a known width, read back as the number written. -/
theorem readBits_natBits_iff_of_within (hwithin : reader.Within) (hcount : count ≤ 24) :
    readBits reader count = some (value, reader') ↔
      value < 2 ^ count ∧ Reads reader (natBits count value) reader' := by
  rw [readBits_iff hwithin]
  constructor
  · rintro ⟨-, bits, rfl, rfl, hreads⟩
    rw [natBits_bitsNat]
    exact ⟨bitsNat_lt bits, hreads⟩
  · rintro ⟨hlt, hreads⟩
    exact ⟨hcount, natBits count value, length_natBits _ _, bitsNat_natBits hlt, hreads⟩

/-- A field of one bit or more: behind the data there is none. -/
theorem readBits_natBits_iff (hcount : 0 < count ∧ count ≤ 24) :
    readBits reader count = some (value, reader') ↔
      value < 2 ^ count ∧ Reads reader (natBits count value) reader' := by
  by_cases hwithin : reader.Within
  · exact readBits_natBits_iff_of_within hwithin hcount.2
  · have hnone : readBits reader count = none := if_pos (.inr (.inl (not_le.mp hwithin)))
    refine iff_of_false (by simp [hnone]) fun h => hwithin (h.2.start_within fun hnil => ?_)
    have hlength := length_natBits count value
    rw [hnil, length_nil] at hlength
    omega

end Fields

end KernelBoot.Btrfs
