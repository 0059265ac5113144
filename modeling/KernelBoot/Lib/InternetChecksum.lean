import KernelBoot.Lib.LittleEndian

/-!
# Network byte order and the internet checksum

Numbers go on the wire high byte first. A packet is checked by the sum of its 16-bit words in one's
complement arithmetic: the carries above sixteen bits are added in again until none is left, and the
checksum is the complement of that. Modulo `2 ^ 16 - 1` folding changes nothing, so a packet that
carries its own checksum sums up to a multiple of that number, and its checksum is zero.
-/

namespace KernelBoot.Lib

open List Nat

def be16 (value : Nat) : List UInt8 := [UInt8.ofNat (value >>> 8), UInt8.ofNat value]

def be32 (value : Nat) : List UInt8 :=
  [UInt8.ofNat (value >>> 24), UInt8.ofNat (value >>> 16), UInt8.ofNat (value >>> 8), UInt8.ofNat value]

def loadBe16 (bytes : List UInt8) (i : Nat) : Nat :=
  (bytes.getD i 0).toNat <<< 8 ||| (bytes.getD (i + 1) 0).toNat

def loadBe32 (bytes : List UInt8) (i : Nat) : Nat :=
  (bytes.getD i 0).toNat <<< 24 ||| (bytes.getD (i + 1) 0).toNat <<< 16 |||
    (bytes.getD (i + 2) 0).toNat <<< 8 ||| (bytes.getD (i + 3) 0).toNat

/-- The sum of the 16-bit words; a single last byte is the high byte of its word. -/
def wordSum : List UInt8 → Nat
  | [] => 0
  | [high] => high.toNat <<< 8
  | high :: low :: rest => (high.toNat <<< 8 ||| low.toNat) + wordSum rest

/-- The carries are added in until none is left. -/
def carryLoop : Nat → Nat → Nat
  | 0, sum => sum
  | fuel + 1, sum =>
    if sum >>> 16 = 0 then sum else carryLoop fuel ((sum &&& 0xffff) + sum >>> 16)

def carryFold (sum : Nat) : Nat := carryLoop sum sum

/-- The one's complement of the folded sum, sixteen bits wide. -/
def complementSum (sum : Nat) : Nat := 0xffff - carryFold sum

section Words

@[simp] theorem length_be16 (value : Nat) : (be16 value).length = 2 := rfl

@[simp] theorem length_be32 (value : Nat) : (be32 value).length = 4 := rfl

/-- Two bytes as a number. -/
theorem byte_pair (high low : UInt8) :
    high.toNat <<< 8 ||| low.toNat = 256 * high.toNat + low.toNat := by
  rw [lor_comm, lor_shiftLeft low.toNat_lt]
  omega

theorem wordSum_cons_cons (high low : UInt8) (rest : List UInt8) :
    wordSum (high :: low :: rest) = 256 * high.toNat + low.toNat + wordSum rest := by
  rw [wordSum, byte_pair]

/-- A part of even length contributes on its own. -/
theorem wordSum_append : ∀ {front : List UInt8} (rest : List UInt8), front.length % 2 = 0 →
    wordSum (front ++ rest) = wordSum front + wordSum rest
  | [], rest, _ => (Nat.zero_add _).symm
  | [_], _, h => absurd h Nat.one_ne_zero
  | high :: low :: front, rest, h => by
    have heven : front.length % 2 = 0 := by
      rw [length_cons, length_cons] at h
      omega
    rw [cons_append, cons_append, wordSum_cons_cons, wordSum_cons_cons,
      wordSum_append rest heven, ← Nat.add_assoc]

/-- A byte weighs 256 or 1, so another value in its place is seen modulo `2 ^ 16 - 1`. -/
theorem set_of_wordSum : ∀ {bytes : List UInt8} {i : Nat} {value : UInt8},
    wordSum (bytes.set i value) % 0xffff = wordSum bytes % 0xffff → bytes.set i value = bytes
  | [], _, _, _ | [_], _ + 1, _, _ => rfl
  | [high], 0, value, h => by
    have := value.toNat_lt
    have := high.toNat_lt
    simp only [set_cons_zero, wordSum, shiftLeft_eq] at h
    rw [set_cons_zero, UInt8.toNat_inj.mp (by omega : value.toNat = high.toNat)]
  | high :: low :: rest, i, value, h => by
    have := value.toNat_lt
    have := high.toNat_lt
    have := low.toNat_lt
    rcases i with _ | _ | i
    all_goals simp only [set_cons_zero, set_cons_succ, wordSum_cons_cons] at h ⊢
    · rw [UInt8.toNat_inj.mp (by omega : value.toNat = high.toNat)]
    · rw [UInt8.toNat_inj.mp (by omega : value.toNat = low.toNat)]
    · exact congrArg (high :: low :: ·) (set_of_wordSum (by omega))

theorem wordSum_be16 {value : Nat} (h : value < 2 ^ 16) : wordSum (be16 value) = value := by
  rw [be16, wordSum_cons_cons, wordSum, UInt8.toNat_ofNat', UInt8.toNat_ofNat', shiftRight_eq_div_pow]
  omega

theorem loadBe16_eq {bytes : List UInt8} {i value : Nat} (h : value < 2 ^ 16)
    (hhigh : bytes.getD i 0 = UInt8.ofNat (value >>> 8))
    (hlow : bytes.getD (i + 1) 0 = UInt8.ofNat value) : loadBe16 bytes i = value := by
  rw [loadBe16, hhigh, hlow, byte_pair, UInt8.toNat_ofNat', UInt8.toNat_ofNat',
    shiftRight_eq_div_pow]
  omega

theorem loadBe32_eq {bytes : List UInt8} {i value : Nat} (h : value < 2 ^ 32)
    (h0 : bytes.getD i 0 = UInt8.ofNat (value >>> 24))
    (h1 : bytes.getD (i + 1) 0 = UInt8.ofNat (value >>> 16))
    (h2 : bytes.getD (i + 2) 0 = UInt8.ofNat (value >>> 8))
    (h3 : bytes.getD (i + 3) 0 = UInt8.ofNat value) : loadBe32 bytes i = value := by
  rw [loadBe32, h0, h1, h2, h3, shiftLeft_lor_bytes]
  simp only [leNat_cons, leNat_nil, UInt8.toNat_ofNat', shiftRight_eq_div_pow]
  omega

end Words

section Carries

/-- One round keeps the sum modulo `2 ^ 16 - 1` and makes a sum with carries smaller, not zero. -/
theorem carry_round {sum : Nat} (h : sum >>> 16 ≠ 0) :
    ((sum &&& 0xffff) + sum >>> 16) % 0xffff = sum % 0xffff ∧
      (sum &&& 0xffff) + sum >>> 16 < sum ∧ (sum &&& 0xffff) + sum >>> 16 ≠ 0 := by
  have hand : sum &&& 0xffff = sum % 2 ^ 16 := and_two_pow_sub_one_eq_mod sum 16
  rw [hand, shiftRight_eq_div_pow] at *
  omega

theorem carryLoop_spec (fuel : Nat) : ∀ sum ≤ fuel,
    carryLoop fuel sum % 0xffff = sum % 0xffff ∧ carryLoop fuel sum ≤ 0xffff ∧
      (carryLoop fuel sum = 0 ↔ sum = 0) := by
  induction fuel with
  | zero =>
    intro sum h
    rw [carryLoop]
    omega
  | succ fuel ih =>
    intro sum h
    rw [carryLoop]
    by_cases hcarry : sum >>> 16 = 0
    · rw [if_pos hcarry]
      rw [shiftRight_eq_div_pow] at hcarry
      omega
    · obtain ⟨hmod, hless, hpositive⟩ := carry_round hcarry
      obtain ⟨hfold, hbound, hzero⟩ := ih _ (by omega : (sum &&& 0xffff) + sum >>> 16 ≤ fuel)
      rw [if_neg hcarry]
      refine ⟨hfold.trans hmod, hbound, ?_⟩
      rw [hzero]
      refine ⟨fun hz => absurd hz hpositive, fun hz => absurd ?_ hcarry⟩
      rw [hz, zero_shiftRight]

theorem complementSum_lt (sum : Nat) : complementSum sum < 2 ^ 16 := by
  rw [complementSum]
  omega

/-- With its own checksum added in, a sum has checksum zero. -/
theorem complementSum_add_complementSum (sum : Nat) :
    complementSum (sum + complementSum sum) = 0 := by
  obtain ⟨hmod, hbound, hzero⟩ := carryLoop_spec sum sum le_rfl
  obtain ⟨hmod', hbound', hzero'⟩ :=
    carryLoop_spec (sum + complementSum sum) (sum + complementSum sum) le_rfl
  simp only [complementSum, carryFold] at *
  omega

theorem mod_of_complementSum {sum : Nat} (h : complementSum sum = 0) : sum % 0xffff = 0 := by
  obtain ⟨hmod, hbound, -⟩ := carryLoop_spec sum sum le_rfl
  rw [complementSum, carryFold] at h
  omega

end Carries

end KernelBoot.Lib
