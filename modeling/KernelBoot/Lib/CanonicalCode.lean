import KernelBoot.Lib.Bits

/-!
# Canonical prefix codes

A code given by the lengths of its words alone: symbols without a word have length 0, words of one
length are consecutive numbers in the order of their symbols, and the first word of each length
follows the last of the length before. Lengths that leave room for all words (their Kraft sum is at
most one) give a code in which no word begins another.
-/

namespace KernelBoot.Lib.CanonicalCode

open List

variable (lengths : List Nat)

/-- The number of words of a length. -/
def wordCount (length : Nat) : Nat := if length = 0 then 0 else lengths.count length

/-- The first word of a length. -/
def firstWord : Nat → Nat
  | 0 => 0
  | length + 1 => 2 * (firstWord length + wordCount lengths length)

/-- The length of a symbol's word. -/
def wordLength (symbol : Nat) : Nat := lengths.getD symbol 0

/-- The symbol's place among those with words as long as its own. -/
def rank (symbol : Nat) : Nat := (lengths.take symbol).count (wordLength lengths symbol)

/-- The word of a symbol as a number. -/
def word (symbol : Nat) : Nat := firstWord lengths (wordLength lengths symbol) + rank lengths symbol

/-- The word of a symbol as bits, high bit first. -/
def wordBits (symbol : Nat) : List Bool :=
  (natBits (wordLength lengths symbol) (word lengths symbol)).reverse

/-- The symbol has a word. -/
def Used (symbol : Nat) : Prop := wordLength lengths symbol ≠ 0

/-- The Kraft sum, counted in words of length `max`. -/
def kraftSum (max : Nat) : Nat := (lengths.map fun l => if l = 0 then 0 else 2 ^ (max - l)).sum

/-- Lengths up to `max` that leave room for all words. -/
structure Fits (max : Nat) : Prop where
  le : ∀ l ∈ lengths, l ≤ max
  kraft : kraftSum lengths max ≤ 2 ^ max

variable {lengths}

@[simp] theorem length_wordBits (symbol : Nat) :
    (wordBits lengths symbol).length = wordLength lengths symbol := by
  simp [wordBits]

theorem wordBits_ne_nil {symbol : Nat} (h : Used lengths symbol) : wordBits lengths symbol ≠ [] :=
  ne_nil_of_length_pos (length_wordBits symbol ▸ Nat.pos_of_ne_zero h)

section Kraft

variable {max : Nat}

/-- The part of the Kraft sum that words of length at most `b` make up. -/
def partialSum (lengths : List Nat) (max b : Nat) : Nat :=
  (lengths.map fun l => if l = 0 ∨ b < l then 0 else 2 ^ (max - l)).sum

theorem partialSum_zero : partialSum lengths max 0 = 0 := by
  simp [partialSum, Nat.pos_iff_ne_zero, em]

theorem partialSum_succ (b : Nat) :
    partialSum lengths max (b + 1) =
      partialSum lengths max b + wordCount lengths (b + 1) * 2 ^ (max - (b + 1)) := by
  induction lengths with
  | nil => simp [partialSum, wordCount]
  | cons l lengths ih =>
    simp only [partialSum, wordCount, map_cons, sum_cons, count_cons,
      Nat.succ_ne_zero, if_false] at ih ⊢
    rw [ih]
    by_cases hl : l = b + 1
    · simp [hl]
      ring
    · by_cases hle : l = 0 ∨ b + 1 < l
      · have hlt : l = 0 ∨ b < l := by omega
        simp [hle, hlt, hl]
      · have hlt : ¬(l = 0 ∨ b < l) := by omega
        simp [hle, hlt, hl]
        ring

theorem firstWord_eq_partialSum (lengths : List Nat) {b : Nat} (hb : b ≤ max) :
    (firstWord lengths b + wordCount lengths b) * 2 ^ (max - b) = partialSum lengths max b := by
  induction b with
  | zero => simp [firstWord, wordCount, partialSum_zero]
  | succ b ih =>
    have hpow : 2 ^ (max - b) = 2 * 2 ^ (max - (b + 1)) := by
      rw [← pow_succ', show max - (b + 1) + 1 = max - b by omega]
    rw [partialSum_succ, ← ih (by omega), firstWord, hpow]
    ring

theorem partialSum_le (b : Nat) : partialSum lengths max b ≤ kraftSum lengths max := by
  apply sum_le_sum
  intro l _
  by_cases hl : l = 0
  · simp [hl]
  · by_cases hb : b < l <;> simp [hl, hb]

theorem partialSum_max (hle : ∀ l ∈ lengths, l ≤ max) :
    partialSum lengths max max = kraftSum lengths max := by
  unfold partialSum kraftSum
  congr 1
  apply map_congr_left
  intro l hl
  have hlt : ¬max < l := Nat.not_lt.mpr (hle l hl)
  simp [hlt]

/-- The lengths fit exactly when the words of each length are within its numbers. -/
theorem fits_iff (hle : ∀ l ∈ lengths, l ≤ max) :
    Fits lengths max ↔ ∀ b ≤ max, firstWord lengths b + wordCount lengths b ≤ 2 ^ b := by
  constructor
  · intro h b hb
    have hsum : (firstWord lengths b + wordCount lengths b) * 2 ^ (max - b) ≤
        2 ^ b * 2 ^ (max - b) := by
      rw [firstWord_eq_partialSum lengths hb, ← pow_add, Nat.add_sub_cancel' hb]
      exact (partialSum_le b).trans h.kraft
    exact Nat.le_of_mul_le_mul_right hsum (Nat.two_pow_pos _)
  · intro h
    refine ⟨hle, ?_⟩
    have htop := firstWord_eq_partialSum lengths (le_refl max)
    rw [Nat.sub_self, pow_zero, Nat.mul_one, partialSum_max hle] at htop
    rw [← htop]
    exact h max (le_refl max)

end Kraft

section Words

variable {max i j : Nat}

theorem lt_length_of_used (h : Used lengths i) : i < lengths.length := by
  by_contra hge
  exact h (getD_eq_default _ _ (by omega))

theorem wordLength_le (h : Fits lengths max) : wordLength lengths i ≤ max := by
  by_cases hi : i < lengths.length
  · rw [wordLength, getD_eq_getElem _ _ hi]
    exact h.le _ (getElem_mem hi)
  · rw [wordLength, getD_eq_default _ _ (by omega)]
    exact Nat.zero_le _

/-- A symbol adds one to the count of its length in any longer part of the list. -/
theorem rank_lt_count_take (hi : Used lengths i) (hij : i < j) :
    rank lengths i < (lengths.take j).count (wordLength lengths i) := by
  have hbound := lt_length_of_used hi
  have hsucc : lengths.take (i + 1) = lengths.take i ++ [wordLength lengths i] := by
    rw [wordLength, getD_eq_getElem _ _ hbound, take_concat_get' lengths i hbound]
  have hsub : lengths.take (i + 1) <+: lengths.take j := take_prefix_take_left (by omega)
  have hcount := hsub.sublist.count_le (wordLength lengths i)
  rw [hsucc, count_append, count_singleton_self] at hcount
  rw [rank]
  omega

theorem rank_lt_wordCount (h : Used lengths i) :
    rank lengths i < wordCount lengths (wordLength lengths i) := by
  rw [wordCount, if_neg h]
  have hcount := rank_lt_count_take h (lt_length_of_used h)
  rwa [take_length] at hcount

theorem word_lt (h : Fits lengths max) (hi : Used lengths i) :
    word lengths i < 2 ^ wordLength lengths i := by
  have hroom := (fits_iff h.le).mp h _ (wordLength_le (i := i) h)
  have hrank := rank_lt_wordCount hi
  rw [word]
  omega

/-- Longer words start behind all shorter ones. -/
theorem le_firstWord_add (lengths : List Nat) (a k : Nat) :
    2 ^ (k + 1) * (firstWord lengths a + wordCount lengths a) ≤ firstWord lengths (a + k + 1) := by
  induction k with
  | zero => simp [firstWord]
  | succ k ih =>
    rw [show a + (k + 1) + 1 = (a + k + 1) + 1 by omega, firstWord, pow_succ']
    have hstep := Nat.mul_le_mul_left 2 ih
    rw [Nat.mul_assoc]
    omega

theorem word_inj (hi : Used lengths i) (hj : Used lengths j)
    (hlength : wordLength lengths i = wordLength lengths j)
    (hword : word lengths i = word lengths j) : i = j := by
  have hrank : rank lengths i = rank lengths j := by
    rw [word, word, hlength] at hword
    omega
  rcases Nat.lt_trichotomy i j with hlt | heq | hgt
  · have hless := rank_lt_count_take hi hlt
    rw [hlength, ← rank] at hless
    omega
  · exact heq
  · have hless := rank_lt_count_take hj hgt
    rw [← hlength, ← rank] at hless
    omega

/-- The first bits of a number written high bit first. -/
theorem take_reverse_natBits {a b : Nat} (h : a ≤ b) (v : Nat) :
    (natBits b v).reverse.take a = (natBits a (v / 2 ^ (b - a))).reverse := by
  have hsplit := natBits_add (b - a) a v
  rw [Nat.sub_add_cancel h] at hsplit
  rw [hsplit, reverse_append, take_left' (by simp)]

/-- No word begins another. -/
theorem eq_of_isPrefix_wordBits (h : Fits lengths max) (hi : Used lengths i) (hj : Used lengths j)
    (hpre : wordBits lengths i <+: wordBits lengths j) : i = j := by
  have hle : wordLength lengths i ≤ wordLength lengths j := by
    simpa using hpre.length_le
  have htake := prefix_iff_eq_take.mp hpre
  rw [length_wordBits, wordBits, wordBits, take_reverse_natBits hle, reverse_inj] at htake
  have hwordi := word_lt h hi
  have hwordj := word_lt h hj
  have hshift : word lengths j / 2 ^ (wordLength lengths j - wordLength lengths i) <
      2 ^ wordLength lengths i := by
    apply Nat.div_lt_of_lt_mul
    rwa [← pow_add, Nat.sub_add_cancel hle]
  have hword := congrArg bitsNat htake
  rw [bitsNat_natBits hwordi, bitsNat_natBits hshift] at hword
  rcases Nat.eq_or_lt_of_le hle with heq | hlt
  · apply word_inj hi hj heq
    rwa [heq, Nat.sub_self, pow_zero, Nat.div_one] at hword
  exfalso
  obtain ⟨k, hk⟩ := Nat.exists_eq_add_of_lt hlt
  have hfirst := le_firstWord_add lengths (wordLength lengths i) k
  have hrank := rank_lt_wordCount hi
  have hge : firstWord lengths (wordLength lengths i) + wordCount lengths (wordLength lengths i) ≤
      word lengths j / 2 ^ (wordLength lengths j - wordLength lengths i) := by
    rw [Nat.le_div_iff_mul_le (Nat.two_pow_pos _), Nat.mul_comm]
    rw [show wordLength lengths j - wordLength lengths i = k + 1 by omega]
    rw [← hk] at hfirst
    exact hfirst.trans (Nat.le_add_right _ _)
  rw [← hword, word] at hge
  omega

end Words

end KernelBoot.Lib.CanonicalCode
