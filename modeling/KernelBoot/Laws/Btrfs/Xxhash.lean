import KernelBoot.Lib.Xxh64
import KernelBoot.Btrfs.Zstd

/-!
# `zstd_xxhash32` is XXH64

The loops of the source against the closed form: `whileFits` as a fold over its rounds, one lemma for
each part of the hash, and the low half of the hash with seed 0 as the whole.
-/

namespace KernelBoot.Btrfs

open Lib List Xxh64 Nat

variable (position : Nat) (v : Lanes) (hash : UInt64)

section Fields

theorem le32_eq (p : List UInt8) : le32 p = leNat (p.take 4) := by
  match p with
  | [] => rfl
  | [a] => simp [le32]
  | [a, b] => simpa [le32] using lor_bytes a b 0 0
  | [a, b, c] => simpa [le32] using lor_bytes a b c 0
  | a :: b :: c :: d :: p => simpa [le32] using lor_bytes a b c d

theorem le64_eq (p : List UInt8) : le64 p = leNat (p.take 8) := by
  have hlow : leNat (p.take 4) < 2 ^ 32 := lt_of_lt_of_le (leNat_lt _)
    ((Nat.pow_le_pow_right (by omega) (length_take_le 4 p)).trans (by omega))
  have hsplit : p.take 8 = p.take 4 ++ (p.drop 4).take 4 := by rw [← take_add]
  rw [le64, le32_eq, le32_eq, lor_shiftLeft hlow, hsplit, leNat_append]
  by_cases h : 4 ≤ p.length
  · norm_num [length_take_of_le h]
  · simp [drop_eq_nil_of_le (by omega : p.length ≤ 4)]

end Fields

section Loops

variable {σ : Type} {width size : Nat} {body : Nat → σ → σ}

/-- The loop as a fold over its passes. -/
theorem whileFits_eq (hwidth : 0 < width) {fuel position : Nat} (hfuel : size ≤ position + fuel)
    (s : σ) :
    whileFits width size body fuel position s =
      (position + width * ((size - position) / width),
        (List.range ((size - position) / width)).foldl
          (fun s i => body (position + width * i) s) s) := by
  induction fuel generalizing position s with
  | zero => simp [whileFits, Nat.sub_eq_zero_of_le (show size ≤ position from hfuel)]
  | succ fuel ih =>
    rw [whileFits]
    by_cases h : position + width ≤ size
    · have hcount : (size - position) / width = (size - (position + width)) / width + 1 := by
        rw [← Nat.sub_sub, ← add_div_right _ hwidth, Nat.sub_add_cancel (by omega)]
      rw [if_pos h, ih (by omega), hcount, range_succ_eq_map, foldl_cons, foldl_map]
      simp only [Nat.mul_add, Nat.mul_one, Nat.mul_zero, Nat.add_zero, succ_eq_add_one]
      refine Prod.ext (by dsimp only; omega) ?_
      simp only [Nat.add_assoc, Nat.add_comm width]
    · rw [if_neg h, div_eq_of_lt (by omega)]
      simp

end Loops

section Hash

theorem zstdRotl64_eq (x : UInt64) {n : Nat} (hpos : 0 < n) (hlt : n < 64) :
    zstdRotl64 x (UInt64.ofNat n) = Xxh64.rotateLeft x n := by
  apply UInt64.toBitVec_inj.mp
  have hleft : (UInt64.ofNat n).toBitVec % 64 = BitVec.ofNat 64 n := by
    apply BitVec.eq_of_toNat_eq
    simp
    omega
  have hright : (64 - UInt64.ofNat n).toBitVec % 64 = BitVec.ofNat 64 (64 - n) := by
    apply BitVec.eq_of_toNat_eq
    simp
    omega
  simp only [zstdRotl64, Xxh64.rotateLeft, UInt64.toBitVec_or, UInt64.toBitVec_shiftLeft,
    UInt64.toBitVec_shiftRight, hleft, hright, BitVec.rotateLeft_def, mod_eq_of_lt hlt]
  rw [BitVec.shiftLeft_eq', BitVec.ushiftRight_eq', BitVec.toNat_ofNat, BitVec.toNat_ofNat,
    mod_eq_of_lt (by omega), mod_eq_of_lt (by omega)]

theorem zstdRotl64_31 (x : UInt64) : zstdRotl64 x 31 = Xxh64.rotateLeft x 31 :=
  zstdRotl64_eq x (by decide) (by decide)

variable (input : List UInt8)

theorem lane_eight : UInt64.ofNat (le64 (input.drop position)) = lane input 8 position := by
  rw [le64_eq, lane]

theorem stripe_eq : stripe input position v =
      ⟨Xxh64.round v.v1 (lane input 8 position),
        Xxh64.round v.v2 (lane input 8 (position + 8)),
        Xxh64.round v.v3 (lane input 8 (position + 16)),
        Xxh64.round v.v4 (lane input 8 (position + 24))⟩ := by
  simp only [stripe, lane_eight, zstdRotl64_31]
  rfl

/-- The four accumulators go through the stripes side by side. -/
theorem foldl_stripe (stripes : List Nat) (v : Lanes) :
    stripes.foldl (fun v i => stripe input (0 + 32 * i) v) v =
      ⟨stripes.foldl (fun a i => Xxh64.round a (lane input 8 (32 * i + 8 * 0))) v.v1,
        stripes.foldl (fun a i => Xxh64.round a (lane input 8 (32 * i + 8 * 1))) v.v2,
        stripes.foldl (fun a i => Xxh64.round a (lane input 8 (32 * i + 8 * 2))) v.v3,
        stripes.foldl (fun a i => Xxh64.round a (lane input 8 (32 * i + 8 * 3))) v.v4⟩ := by
  induction stripes generalizing v with
  | nil => rfl
  | cons i stripes ih =>
    rw [foldl_cons, ih, stripe_eq, Nat.zero_add]
    rfl

theorem mergeLane_eq (v : UInt64) : mergeLane hash v = mergeRound hash v := by
  simp only [mergeLane, mergeRound, Xxh64.round, zstdRotl64_31, UInt64.zero_add]
  rfl

theorem mergeLanes_eq :
    mergeLanes v = mergeRound (mergeRound (mergeRound (mergeRound
      (Xxh64.rotateLeft v.v1 1 + Xxh64.rotateLeft v.v2 7 + Xxh64.rotateLeft v.v3 12 +
        Xxh64.rotateLeft v.v4 18) v.v1) v.v2) v.v3) v.v4 := by
  have h1 : zstdRotl64 v.v1 1 = _ := zstdRotl64_eq v.v1 (n := 1) (by decide) (by decide)
  have h7 : zstdRotl64 v.v2 7 = _ := zstdRotl64_eq v.v2 (n := 7) (by decide) (by decide)
  have h12 : zstdRotl64 v.v3 12 = _ := zstdRotl64_eq v.v3 (n := 12) (by decide) (by decide)
  have h18 : zstdRotl64 v.v4 18 = _ := zstdRotl64_eq v.v4 (n := 18) (by decide) (by decide)
  simp only [mergeLanes, mergeLane_eq, h1, h7, h12, h18]

theorem hashStripes_eq :
    hashStripes input = (input.length / 32 * 32, converge 0 input) := by
  by_cases h : 32 ≤ input.length
  · have hloop : whileFits 32 input.length (stripe input) input.length 0 ⟨p1 + p2, p2, 0, 0 - p1⟩ =
        (input.length / 32 * 32,
          ⟨accumulate input 0 (p1 + p2), accumulate input 1 p2,
            accumulate input 2 0, accumulate input 3 (0 - p1)⟩) := by
      rw [whileFits_eq (by decide) (Nat.le_add_left _ _), foldl_stripe, Nat.zero_add, Nat.mul_comm]
      rfl
    simp only [hashStripes, converge, if_pos h, hloop, mergeLanes_eq, UInt64.zero_add]
    rfl
  · have hzero : input.length / 32 = 0 := div_eq_of_lt (by omega)
    simp only [hashStripes, converge, if_neg h, hzero, Nat.zero_mul]
    rfl

theorem hashLane_eq : hashLane input position hash =
      Xxh64.rotateLeft (hash ^^^ Xxh64.round 0 (lane input 8 position)) 27 * prime1 +
        prime4 := by
  have h27 (x : UInt64) : zstdRotl64 x 27 = _ := zstdRotl64_eq x (n := 27) (by decide) (by decide)
  simp only [hashLane, lane_eight, zstdRotl64_31, h27, Xxh64.round, UInt64.zero_add]
  rfl

theorem hashHalf_eq : hashHalf input (input.length / 8 * 8, hash) =
      (input.length / 4 * 4, tailHalf input hash) := by
  have h23 (x : UInt64) : zstdRotl64 x 23 = _ := zstdRotl64_eq x (n := 23) (by decide) (by decide)
  by_cases h : 4 ≤ input.length % 8
  · have hposition : input.length / 8 * 8 + 4 = input.length / 4 * 4 := by omega
    rw [hashHalf, if_pos (show input.length / 8 * 8 + 4 ≤ input.length by omega), tailHalf,
      if_pos h, h23, le32_eq]
    exact Prod.ext hposition rfl
  · have hposition : input.length / 8 * 8 = input.length / 4 * 4 := by omega
    rw [hashHalf, if_neg (show ¬input.length / 8 * 8 + 4 ≤ input.length by omega), tailHalf,
      if_neg h, hposition]

theorem hashByte_eq {position : Nat} (h : position < input.length) (hash : UInt64) :
    hashByte input position hash =
      Xxh64.rotateLeft (hash ^^^ lane input 1 position * prime5) 11 * prime1 := by
  have h11 (x : UInt64) : zstdRotl64 x 11 = _ := zstdRotl64_eq x (n := 11) (by decide) (by decide)
  have hbyte : leNat ((input.drop position).take 1) = (input.getD position 0).toNat := by
    rw [drop_eq_getElem_cons h, getD_eq_getElem _ _ h, take_succ_cons, take_zero,
      leNat_cons, leNat_nil, Nat.mul_zero, Nat.add_zero]
  simp only [hashByte, h11, lane, hbyte]
  rfl

theorem hashFinish_eq : hashFinish hash = avalanche hash := rfl

/-- The checksum the source computes is the low half of XXH64 with seed 0. -/
theorem zstdXxhash32_eq : zstdXxhash32 input = (xxh64 0 input).toNat % 2 ^ 32 := by
  have hlanes : (input.length - input.length / 32 * 32) / 8 = input.length % 32 / 8 := by omega
  have hbehind : input.length / 32 * 32 + 8 * (input.length % 32 / 8) = input.length / 8 * 8 := by
    omega
  have hbytes : (input.length - input.length / 4 * 4) / 1 = input.length % 4 := by omega
  simp only [zstdXxhash32, hashStripes_eq,
    whileFits_eq (by decide : 0 < 8) (Nat.le_add_left input.length _), hlanes, hbehind, hashHalf_eq,
    whileFits_eq (by decide : 0 < 1) (Nat.le_add_left input.length _), hbytes, hashFinish_eq,
    hashLane_eq, Nat.one_mul]
  have htail (hash : UInt64) : (List.range (input.length % 4)).foldl
      (fun hash i => hashByte input (input.length / 4 * 4 + i) hash) hash =
      tailBytes input hash := by
    apply foldl_ext
    intro hash i hi
    exact hashByte_eq input (by have := mem_range.mp hi; omega) hash
  rw [htail]
  rfl

end Hash

end KernelBoot.Btrfs
