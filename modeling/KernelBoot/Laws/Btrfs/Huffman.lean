import KernelBoot.Lib.CanonicalCode
import KernelBoot.Laws.Btrfs.BitReader

/-!
# Laws of the Huffman trees

`huffman_build` accepts the lengths that fit and tabulates the canonical code, each word with its bits
reversed; `huffman_read` reads the word of a symbol and returns the symbol.
-/

namespace KernelBoot.Btrfs

open Lib Lib.CanonicalCode List Nat

variable {max remaining : Nat} {bits : List Bool}

section Build

variable {lengths : List Nat}

theorem reverseBitsLoop_eq (count value result : Nat) :
    reverseBitsLoop count value result =
      2 ^ count * result + bitsNat (natBits count value).reverse := by
  induction count generalizing value result with
  | zero => simp [reverseBitsLoop, natBits, bitsNat]
  | succ count ih =>
    have hlow : value &&& 1 < 2 ^ 1 := by rw [and_one_is_mod]; omega
    rw [reverseBitsLoop, ih, ← shiftLeft_add_eq_or_of_lt hlow, natBits, reverse_cons,
      bitsNat_append, length_reverse, length_natBits, shiftLeft_eq, and_one_is_mod,
      shiftRight_eq_div_pow, bitsNat, bitsNat, toNat_testBit_zero, pow_one, pow_succ]
    ring

theorem reverseBits_eq (value count : Nat) :
    reverseBits value count = bitsNat (natBits count value).reverse := by
  rw [reverseBits, reverseBitsLoop_eq, Nat.mul_zero, Nat.zero_add]

/-- The second loop runs through when every length has room for its words, with the first words in
`next`. -/
theorem nextLoop_iff {bits : Nat} (hbits : 1 ≤ bits) (next : List Nat) :
    nextLoop (lengthCount lengths) remaining bits (firstWord lengths (bits - 1)) = some next ↔
      (∀ b, bits ≤ b → b < bits + remaining →
        firstWord lengths b + wordCount lengths b ≤ 2 ^ b) ∧
      next = (List.range' bits remaining).map fun b => firstWord lengths b % 2 ^ 16 := by
  induction remaining generalizing bits next with
  | zero =>
    constructor
    · intro h
      cases h
      exact ⟨fun b hle hlt => by omega, rfl⟩
    · rintro ⟨-, rfl⟩
      rfl
  | succ remaining ih =>
    have hcode : (firstWord lengths (bits - 1) + lengthCount lengths (bits - 1)) <<< 1 =
        firstWord lengths bits := by
      obtain ⟨k, rfl⟩ := Nat.exists_eq_add_of_le' hbits
      rw [Nat.add_sub_cancel, firstWord, shiftLeft_eq, Nat.mul_comm]
      rfl
    have hnext := ih (show 1 ≤ bits + 1 by omega)
    simp only [Nat.add_sub_cancel] at hnext
    simp only [nextLoop, hcode, one_shiftLeft]
    by_cases hroom : firstWord lengths bits + lengthCount lengths bits > 2 ^ bits
    · rw [if_pos hroom]
      constructor
      · intro h
        cases h
      · rintro ⟨hall, -⟩
        exact absurd (hall bits (le_refl bits) (by omega)) (Nat.not_le.mpr hroom)
    rw [if_neg hroom, Option.map_eq_some_iff, range'_succ, map_cons]
    constructor
    · rintro ⟨tail, htail, rfl⟩
      obtain ⟨hall, rfl⟩ := (hnext tail).mp htail
      refine ⟨fun b hle hlt => ?_, rfl⟩
      rcases Nat.eq_or_lt_of_le hle with rfl | hless
      · exact Nat.not_lt.mp hroom
      · exact hall b hless (by omega)
    · rintro ⟨hall, rfl⟩
      exact ⟨_, (hnext _).mpr ⟨fun b hle hlt => hall b (by omega) (by omega), rfl⟩, rfl⟩

/-- The tree of a canonical code. -/
def treeOf (lengths : List Nat) : Huffman :=
  (List.range lengths.length).map fun symbol =>
    ⟨wordLength lengths symbol, bitsNat (wordBits lengths symbol)⟩

/-- The third loop, from where some lengths are behind it: `next` holds, for each length, its first
word plus the number of words of that length given out already. -/
theorem assignLoop_eq (hfits : Fits lengths max) (hmax : max ≤ 16) (done : List Nat)
    {todo : List Nat} {next : Nat → Nat} (hlengths : lengths = done ++ todo)
    (hnext : ∀ l, l ≠ 0 → l ≤ max → next l = firstWord lengths l + done.count l) :
    assignLoop next todo = (treeOf lengths).drop done.length := by
  induction todo generalizing done next with
  | nil =>
    rw [assignLoop, drop_eq_nil_of_le]
    simp [treeOf, hlengths]
  | cons l todo ih =>
    have hlt : done.length < (treeOf lengths).length := by simp [treeOf, hlengths]
    have hword : wordLength lengths done.length = l := by simp [wordLength, hlengths]
    have hentry : (treeOf lengths)[done.length] = ⟨l, bitsNat (wordBits lengths done.length)⟩ := by
      simp [treeOf, hword]
    have hrank : rank lengths done.length = done.count l := by
      rw [rank, hword, hlengths, take_left]
    rw [drop_eq_getElem_cons hlt, hentry, assignLoop]
    by_cases hzero : l = 0
    · have hbits : wordBits lengths done.length = [] := by
        rw [wordBits, hword, hzero]
        rfl
      rw [if_pos hzero, hbits, ih (done ++ [l]) (by simp [hlengths]), length_append]
      · rfl
      · intro k hk hkmax
        rw [hnext k hk hkmax, count_append, count_singleton, hzero]
        simp [hk.symm]
    have hle : l ≤ max := hfits.le l (by simp [hlengths])
    have hcode : reverseBits (next l) l % 2 ^ 16 = bitsNat (wordBits lengths done.length) := by
      have hlength := bitsNat_lt (wordBits lengths done.length)
      rw [length_wordBits, hword] at hlength
      have hpow : 2 ^ l ≤ 2 ^ 16 := Nat.pow_le_pow_right (by decide) (by omega)
      rw [reverseBits_eq, hnext l hzero hle, ← hrank, ← hword, ← word, ← wordBits]
      exact mod_eq_of_lt (by omega)
    rw [if_neg hzero, hcode, ih (done ++ [l]) (by simp [hlengths]), length_append]
    · rfl
    · intro k hk hkmax
      by_cases hkl : k = l
      · subst hkl
        rw [Function.update_self, hnext k hk hkmax, count_append, count_singleton_self,
          Nat.add_assoc]
      · rw [Function.update_of_ne hkl, hnext k hk hkmax, count_append,
          count_singleton]
        simp [Ne.symm hkl]

/-- `huffman_build` accepts 1 to 288 lengths that fit, and builds the tree of their code. -/
theorem huffmanBuild_iff {tree : Huffman} :
    huffmanBuild lengths = some tree ↔
      (1 ≤ lengths.length ∧ lengths.length ≤ 288 ∧ Fits lengths 15) ∧ tree = treeOf lengths := by
  have hany : lengths.any (15 < ·) = true ↔ ¬∀ l ∈ lengths, l ≤ 15 := by
    simp
  by_cases hguard : lengths.length = 0 ∨ lengths.length > 288 ∨ lengths.any (15 < ·) = true
  · rw [huffmanBuild, if_pos hguard]
    constructor
    · intro h
      cases h
    · rintro ⟨⟨hmin, hmax, hfits⟩, -⟩
      rcases hguard with h | h | h
      · omega
      · omega
      · exact absurd hfits.le (hany.mp h)
  have hle : ∀ l ∈ lengths, l ≤ 15 := by
    by_contra h
    exact hguard (.inr (.inr (hany.mpr h)))
  have hloop (next : List Nat) : nextLoop (lengthCount lengths) 15 1 0 = some next ↔ _ :=
    nextLoop_iff (le_refl 1) next
  have hroom : (∀ b, 1 ≤ b → b < 1 + 15 → firstWord lengths b + wordCount lengths b ≤ 2 ^ b) ↔
      Fits lengths 15 := by
    rw [fits_iff hle]
    constructor
    · intro h b hb
      rcases Nat.eq_zero_or_pos b with rfl | hpos
      · simp [firstWord, wordCount]
      · exact h b hpos (by omega)
    · intro h b _ hlt
      exact h b (by omega)
  rw [huffmanBuild, if_neg hguard, Option.map_eq_some_iff]
  have hbuild (hfits : Fits lengths 15) : assignLoop (fun bits =>
      ((List.range' 1 15).map fun b => firstWord lengths b % 2 ^ 16).getD (bits - 1) 0) lengths =
      treeOf lengths := by
    apply assignLoop_eq hfits (by omega) [] rfl
    intro l hl hmax
    have hbound := (fits_iff hle).mp hfits l hmax
    have hpow : 2 ^ l ≤ 2 ^ 15 := Nat.pow_le_pow_right (by decide) hmax
    have hget : ((List.range' 1 15).map fun b => firstWord lengths b % 2 ^ 16).getD (l - 1) 0 =
        firstWord lengths l % 2 ^ 16 := by
      rw [getD_eq_getElem _ _ (by simp; omega)]
      simp [Nat.add_sub_cancel' (one_le_iff_ne_zero.mpr hl)]
    rw [hget, count_nil, Nat.add_zero]
    exact mod_eq_of_lt (by omega)
  constructor
  · rintro ⟨next, hnext, rfl⟩
    obtain ⟨hall, rfl⟩ := (hloop next).mp hnext
    have hfits := hroom.mp hall
    exact ⟨⟨by omega, by omega, hfits⟩, hbuild hfits⟩
  · rintro ⟨⟨hmin, hmax, hfits⟩, rfl⟩
    exact ⟨_, (hloop _).mpr ⟨hroom.mpr hfits, rfl⟩, hbuild hfits⟩

end Build

section Read

variable {lengths : List Nat} {reader reader' : BitReader} {symbol : Nat}

@[simp] theorem length_treeOf (lengths : List Nat) : (treeOf lengths).length = lengths.length := by
  simp [treeOf]

theorem getElem_treeOf (h : symbol < (treeOf lengths).length) :
    (treeOf lengths)[symbol] =
      ⟨wordLength lengths symbol, bitsNat (wordBits lengths symbol)⟩ := by
  simp [treeOf]

/-- The entry of a symbol is that of a string of bits when the string is its word. -/
theorem entry_matches_iff (hne : bits ≠ []) : (wordLength lengths symbol = bits.length ∧
        bitsNat (wordBits lengths symbol) = bitsNat bits) ↔
      Used lengths symbol ∧ wordBits lengths symbol = bits := by
  constructor
  · rintro ⟨hlength, hcode⟩
    have hused : Used lengths symbol := by
      rw [Used, hlength]
      simpa using hne
    exact ⟨hused, bitsNat_inj (by rw [length_wordBits, hlength]) hcode⟩
  · rintro ⟨-, rfl⟩
    exact ⟨(length_wordBits symbol).symm, rfl⟩

/-- Looking a string of bits up in the tree finds the symbol whose word it is. -/
theorem findIdx?_treeOf_iff (hfits : Fits lengths max) (hne : bits ≠ []) (symbol : Nat) :
    (treeOf lengths).findIdx? (fun entry => entry.length = bits.length ∧ entry.code = bitsNat bits) =
        some symbol ↔ Used lengths symbol ∧ wordBits lengths symbol = bits := by
  rw [findIdx?_eq_some_iff_getElem]
  constructor
  · rintro ⟨hlt, hfound, -⟩
    rw [getElem_treeOf hlt, decide_eq_true_eq] at hfound
    exact (entry_matches_iff hne).mp hfound
  · rintro ⟨hused, hword⟩
    have hlt : symbol < (treeOf lengths).length := by
      rw [length_treeOf]
      exact lt_length_of_used hused
    refine ⟨hlt, ?_, fun other hless hfound => ?_⟩
    · rw [getElem_treeOf hlt, decide_eq_true_eq]
      exact (entry_matches_iff hne).mpr ⟨hused, hword⟩
    · rw [getElem_treeOf (by omega), decide_eq_true_eq] at hfound
      obtain ⟨hother, hbits⟩ := (entry_matches_iff hne).mp hfound
      have heq := eq_of_isPrefix_wordBits hfits hother hused (by rw [hbits, hword])
      omega

/-- At most one word stands at the front of the reader. -/
theorem reads_word_unique {a b : Nat} {reader'' : BitReader} (hfits : Fits lengths max)
    (ha : Used lengths a) (hb : Used lengths b)
    (hreadsa : Reads reader (wordBits lengths a) reader')
    (hreadsb : Reads reader (wordBits lengths b) reader'') : a = b ∧ reader' = reader'' := by
  have heq : a = b := by
    rcases prefix_or_prefix_of_prefix hreadsa.isPrefix hreadsb.isPrefix with h | h
    · exact eq_of_isPrefix_wordBits hfits ha hb h
    · exact (eq_of_isPrefix_wordBits hfits hb ha h).symm
  subst heq
  exact ⟨rfl, (hreadsa.unique hreadsb rfl).2⟩

/-- The loop of `huffman_read` behind some bits, when no word is among their beginnings: it finds the
symbol whose word the bits from there on complete. By induction on the passes left. -/
theorem huffmanReadLoop_iff (hfits : Fits lengths max) (passed : Nat)
    (hpassed : passed ≤ reader.rest.length)
    (hnone : ∀ s, Used lengths s → wordLength lengths s ≤ passed →
      ¬wordBits lengths s <+: reader.rest) :
    huffmanReadLoop (treeOf lengths) remaining (passed + 1) (bitsNat (reader.rest.take passed))
        (reader.advance passed) = some (symbol, reader') ↔
      Used lengths symbol ∧ wordLength lengths symbol ≤ passed + remaining ∧
        Reads reader (wordBits lengths symbol) reader' := by
  induction remaining generalizing passed with
  | zero =>
    constructor
    · intro h
      cases h
    · rintro ⟨hused, hle, hreads⟩
      exact absurd hreads.isPrefix (hnone symbol hused hle)
  | succ remaining ih =>
    have hrest := BitReader.length_rest reader
    rw [huffmanReadLoop]
    by_cases hend : passed = reader.rest.length
    · have hread : readBits (reader.advance passed) 1 = none := by
        apply if_pos
        change 1 > 24 ∨ reader.bit + passed > reader.limit ∨ 1 > reader.limit - (reader.bit + passed)
        omega
      rw [hread]
      constructor
      · intro h
        cases h
      · rintro ⟨hused, -, hreads⟩
        have hlength := hreads.isPrefix.length_le
        rw [length_wordBits] at hlength
        exact absurd hreads.isPrefix (hnone symbol hused (by omega))
    · have hlt : passed < reader.rest.length := by omega
      have hread : readBits (reader.advance passed) 1 =
          some ((reader.rest[passed]).toNat, reader.advance (passed + 1)) := by
        have hadvance : (reader.advance passed).Within := by
          change reader.bit + passed ≤ reader.limit
          omega
        rw [readBits_iff hadvance]
        refine ⟨by decide, [reader.rest[passed]], rfl, by simp [bitsNat], ?_,
          BitReader.advance_advance passed 1⟩
        rw [BitReader.rest_advance, drop_eq_getElem_cons hlt]
        exact ⟨_, rfl⟩
      have htake : reader.rest.take (passed + 1) =
          reader.rest.take passed ++ [reader.rest[passed]] :=
        (take_concat_get' _ _ hlt).symm
      have hlength : (reader.rest.take passed).length = passed := length_take_of_le hpassed
      have hcode : bitsNat (reader.rest.take passed) |||
          (reader.rest[passed]).toNat <<< (passed + 1 - 1) =
          bitsNat (reader.rest.take (passed + 1)) := by
        have hbound := bitsNat_lt (reader.rest.take passed)
        rw [hlength] at hbound
        rw [Nat.add_sub_cancel, lor_comm, ← shiftLeft_add_eq_or_of_lt hbound,
          shiftLeft_eq, htake, bitsNat_append, hlength]
        simp [bitsNat]
        ring
      have hnext : (reader.rest.take (passed + 1)).length = passed + 1 :=
        length_take_of_le hlt
      have hne : reader.rest.take (passed + 1) ≠ [] := by
        intro h
        rw [h] at hnext
        cases hnext
      have hfind := findIdx?_treeOf_iff hfits hne
      rw [hnext] at hfind
      simp only [hread, hcode]
      cases hfound : (treeOf lengths).findIdx? (fun entry => entry.length = passed + 1 ∧
          entry.code = bitsNat (reader.rest.take (passed + 1))) with
      | some found =>
        obtain ⟨hused, hword⟩ := (hfind found).mp hfound
        have hfoundReads : Reads reader (wordBits lengths found) (reader.advance (passed + 1)) := by
          rw [hword]
          exact ⟨ take_prefix _ _, by rw [hnext]⟩
        constructor
        · intro h
          obtain ⟨rfl, rfl⟩ := Prod.mk.inj (Option.some.inj h)
          refine ⟨hused, ?_, hfoundReads⟩
          rw [← length_wordBits, hword, hnext]
          omega
        · rintro ⟨hsymbol, -, hreads⟩
          obtain ⟨rfl, rfl⟩ := reads_word_unique hfits hused hsymbol hfoundReads hreads
          rfl
      | none =>
        have hstep := ih (passed + 1) hlt (fun s hused hle hpre => by
          rcases Nat.lt_or_eq_of_le hle with hless | heq
          · exact hnone s hused (by omega) hpre
          · have hword := prefix_iff_eq_take.mp hpre
            rw [length_wordBits, heq] at hword
            rw [(hfind s).mpr ⟨hused, hword⟩] at hfound
            cases hfound)
        rwa [Nat.add_assoc passed 1 remaining, Nat.add_comm 1 remaining] at hstep

/-- `huffman_read` reads a word of the code and returns its symbol. -/
theorem huffmanRead_iff (hfits : Fits lengths 15) :
    huffmanRead reader (treeOf lengths) = some (symbol, reader') ↔
      Used lengths symbol ∧ Reads reader (wordBits lengths symbol) reader' := by
  have hloop : huffmanRead reader (treeOf lengths) = some (symbol, reader') ↔ _ :=
    huffmanReadLoop_iff hfits 0 (Nat.zero_le _)
      (fun s hused hle => absurd (le_zero.mp hle) hused)
  refine hloop.trans ⟨fun h => ⟨h.1, h.2.2⟩, fun h => ⟨h.1, ?_, h.2⟩⟩
  rw [Nat.zero_add]
  exact wordLength_le hfits

end Read

end KernelBoot.Btrfs
