import KernelBoot.Lib.Deflate

/-!
# DEFLATE streams can be read in one way only

Two pieces of the format that stand at the front of the same bits are the same piece, and what follows
them is the same; from the fields and the words of a code up to whole lists of blocks.
-/

namespace KernelBoot.Lib.Deflate

open CanonicalCode List

variable {s t : List Bool}
variable {out out' : List UInt8} {lengthCode : List Nat} (before : List Nat)
  (items : List LengthItem) (item : LengthItem)

theorem natBits_append_inj {width a b : Nat} (ha : a < 2 ^ width) (hb : b < 2 ^ width)
    (h : natBits width a ++ s = natBits width b ++ t) : a = b ∧ s = t := by
  obtain ⟨hbits, htail⟩ := append_inj h (by simp)
  have hnat := congrArg bitsNat hbits
  rw [bitsNat_natBits ha, bitsNat_natBits hb] at hnat
  exact ⟨hnat, htail⟩

theorem wordBits_append_inj {lengths : List Nat} {max i j : Nat} (hfits : Fits lengths max)
    (hi : Used lengths i) (hj : Used lengths j)
    (h : wordBits lengths i ++ s = wordBits lengths j ++ t) : i = j ∧ s = t := by
  have heq : i = j := by
    rcases prefix_or_prefix_of_prefix (prefix_append _ s) (h ▸ prefix_append _ t)
      with hpre | hpre
    · exact eq_of_isPrefix_wordBits hfits hi hj hpre
    · exact (eq_of_isPrefix_wordBits hfits hj hi hpre).symm
  subst heq
  exact ⟨rfl, append_cancel_left h⟩

theorem bytesBits_append_inj {a b : List UInt8} (hlength : a.length = b.length)
    (h : bytesBits a ++ s = bytesBits b ++ t) : a = b ∧ s = t := by
  induction a generalizing b with
  | nil =>
    rw [eq_nil_of_length_eq_zero hlength.symm] at h ⊢
    exact ⟨rfl, h⟩
  | cons byte a ih =>
    cases b with
    | nil => cases hlength
    | cons byte' b =>
      rw [bytesBits_cons, bytesBits_cons, append_assoc, append_assoc] at h
      obtain ⟨hbyte, htail⟩ := natBits_append_inj byte.toNat_lt byte'.toNat_lt h
      obtain ⟨rfl, hrest⟩ := ih (by simpa using hlength) htail
      exact ⟨by rw [UInt8.toNat_inj.mp hbyte], hrest⟩

/-- Two codes that agree are told apart by their extra bits. -/
theorem coded_append_inj {table : List (Nat × Nat)} {a b : Coded} (ha : a.Valid table)
    (hb : b.Valid table) (hcode : a.code = b.code)
    (h : a.extraBits table ++ s = b.extraBits table ++ t) : a = b ∧ s = t := by
  obtain ⟨code, extra⟩ := a
  obtain ⟨code', extra'⟩ := b
  obtain rfl : code = code' := hcode
  obtain ⟨hextra, htail⟩ := natBits_append_inj ha.2 hb.2 h
  obtain rfl : extra = extra' := hextra
  exact ⟨rfl, htail⟩

section Tokens

variable {codes : Codes}

theorem token_append_inj (hliteral : Fits codes.literal 15) (hdistance : Fits codes.distance 15)
    {a b : Token} {m n : Nat} (ha : a.Valid codes m) (hb : b.Valid codes n)
    (h : a.bits codes ++ s = b.bits codes ++ t) : a = b ∧ s = t := by
  cases a with
  | literal byte =>
    cases b with
    | literal byte' =>
      obtain ⟨hbyte, htail⟩ := wordBits_append_inj hliteral ha hb h
      exact ⟨by rw [UInt8.toNat_inj.mp hbyte], htail⟩
    | copy length distance =>
      rw [Token.bits, Token.bits, append_assoc] at h
      obtain ⟨hsymbol, -⟩ := wordBits_append_inj hliteral ha hb.2.2.1 h
      have hbyte := byte.toNat_lt
      omega
  | copy length distance =>
    cases b with
    | literal byte =>
      rw [Token.bits, Token.bits, append_assoc] at h
      obtain ⟨hsymbol, -⟩ := wordBits_append_inj hliteral ha.2.2.1 hb h
      have hbyte := byte.toNat_lt
      omega
    | copy length' distance' =>
      obtain ⟨hlength, hdist, hused, husedD, -⟩ := ha
      obtain ⟨hlength', hdist', hused', husedD', -⟩ := hb
      simp only [Token.bits, append_assoc] at h
      obtain ⟨hsymbol, hextra⟩ := wordBits_append_inj hliteral hused hused' h
      obtain ⟨rfl, hword⟩ := coded_append_inj hlength hlength' (by omega) hextra
      obtain ⟨hsymbolD, hextraD⟩ := wordBits_append_inj hdistance husedD husedD' hword
      obtain ⟨rfl, htail⟩ := coded_append_inj hdist hdist' hsymbolD hextraD
      exact ⟨rfl, htail⟩

/-- The word that ends a block begins no token. -/
theorem end_ne_token (hliteral : Fits codes.literal 15) {token : Token} {n : Nat}
    (hend : Used codes.literal 256) (htoken : token.Valid codes n) :
    wordBits codes.literal 256 ++ s ≠ token.bits codes ++ t := by
  intro h
  cases token with
  | literal byte =>
    obtain ⟨hsymbol, -⟩ := wordBits_append_inj hliteral hend htoken h
    have hbyte := byte.toNat_lt
    omega
  | copy length distance =>
    rw [Token.bits, append_assoc] at h
    obtain ⟨hsymbol, -⟩ := wordBits_append_inj hliteral hend htoken.2.2.1 h
    omega

theorem tokens_append_inj (hliteral : Fits codes.literal 15) (hdistance : Fits codes.distance 15)
    {a b : List Token} (ha : TokensValid codes out a) (hb : TokensValid codes out' b)
    (h : tokensBits codes a ++ s = tokensBits codes b ++ t) : a = b ∧ s = t := by
  induction a generalizing b out out' with
  | nil =>
    cases b with
    | nil => exact ⟨rfl, (wordBits_append_inj hliteral ha hb h).2⟩
    | cons token b =>
      simp only [tokensBits, flatMap_cons, append_assoc] at h
      exact absurd h (end_ne_token hliteral ha hb.1)
  | cons token a ih =>
    cases b with
    | nil =>
      simp only [tokensBits, flatMap_cons, append_assoc] at h
      exact absurd h.symm (end_ne_token hliteral hb ha.1)
    | cons token' b =>
      simp only [tokensBits, flatMap_cons, append_assoc] at h
      obtain ⟨rfl, htail⟩ := token_append_inj hliteral hdistance ha.1 hb.1 h
      obtain ⟨rfl, hrest⟩ := ih ha.2 hb.2 (by simpa only [tokensBits, append_assoc] using htail)
      exact ⟨rfl, hrest⟩

end Tokens

section Heads

theorem item_append_inj (hfits : Fits lengthCode 15) {a b : LengthItem} {before before' : List Nat}
    (ha : Used lengthCode a.symbol ∧ a.Valid before)
    (hb : Used lengthCode b.symbol ∧ b.Valid before')
    (h : a.bits lengthCode ++ s = b.bits lengthCode ++ t) : a = b ∧ s = t := by
  rw [LengthItem.bits, LengthItem.bits, append_assoc, append_assoc] at h
  obtain ⟨hsymbol, hextra⟩ := wordBits_append_inj hfits ha.1 hb.1 h
  have hva := ha.2
  have hvb := hb.2
  cases a <;> cases b <;> simp only [LengthItem.symbol, LengthItem.Valid, LengthItem.extraBits] at *
  case length.length =>
    exact ⟨by rw [hsymbol], hextra⟩
  case repeatLast.repeatLast =>
    obtain ⟨rfl, htail⟩ := natBits_append_inj hva.1 hvb.1 hextra
    exact ⟨rfl, htail⟩
  case zeros.zeros =>
    obtain ⟨rfl, htail⟩ := natBits_append_inj hva hvb hextra
    exact ⟨rfl, htail⟩
  case manyZeros.manyZeros =>
    obtain ⟨rfl, htail⟩ := natBits_append_inj hva hvb hextra
    exact ⟨rfl, htail⟩
  all_goals omega

theorem length_le_expandItems : before.length ≤ (expandItems before items).length := by
  induction items generalizing before with
  | nil => exact le_refl _
  | cons item items ih =>
    have hrest := ih (before ++ item.run before)
    rw [length_append] at hrest
    exact (Nat.le_add_right _ _).trans hrest

theorem run_length_pos (before : List Nat) : 0 < (item.run before).length := by
  cases item <;> simp [LengthItem.run]

/-- An element adds to the lengths. -/
theorem length_lt_expandItems (items : List LengthItem) :
    before.length < (expandItems before (item :: items)).length := by
  have hmore := length_le_expandItems (before ++ item.run before) items
  have hrun := run_length_pos item before
  rw [length_append] at hmore
  exact Nat.lt_of_lt_of_le (by omega) hmore

theorem items_append_inj (hfits : Fits lengthCode 15) {a b : List LengthItem} {before : List Nat}
    (ha : ItemsValid lengthCode before a) (hb : ItemsValid lengthCode before b)
    (hlength : (expandItems before a).length = (expandItems before b).length)
    (h : a.flatMap (LengthItem.bits lengthCode) ++ s = b.flatMap (LengthItem.bits lengthCode) ++ t) :
    a = b ∧ s = t := by
  induction a generalizing b before with
  | nil =>
    cases b with
    | nil => exact ⟨rfl, h⟩
    | cons item b => exact absurd hlength (length_lt_expandItems before item b).ne
  | cons item a ih =>
    cases b with
    | nil => exact absurd hlength (length_lt_expandItems before item a).ne'
    | cons item' b =>
      simp only [flatMap_cons, append_assoc] at h
      obtain ⟨rfl, htail⟩ := item_append_inj hfits ha.1 hb.1 h
      obtain ⟨rfl, hrest⟩ := ih ha.2 hb.2 hlength htail
      exact ⟨rfl, hrest⟩

/-- Fields of one width, one for each symbol of a list. -/
theorem fields_append_inj {width : Nat} {order : List Nat} {f g : Nat → Nat}
    (hf : ∀ x ∈ order, f x < 2 ^ width) (hg : ∀ x ∈ order, g x < 2 ^ width)
    (h : (order.flatMap fun x => natBits width (f x)) ++ s =
      (order.flatMap fun x => natBits width (g x)) ++ t) :
    (∀ x ∈ order, f x = g x) ∧ s = t := by
  induction order with
  | nil => exact ⟨by simp, h⟩
  | cons x order ih =>
    simp only [flatMap_cons, append_assoc] at h
    obtain ⟨hx, htail⟩ := natBits_append_inj (hf x mem_cons_self) (hg x mem_cons_self) h
    obtain ⟨hall, hrest⟩ := ih (fun y hy => hf y (mem_cons_of_mem _ hy))
      (fun y hy => hg y (mem_cons_of_mem _ hy)) htail
    exact ⟨by simpa [hx] using hall, hrest⟩

theorem mem_lengthOrder : ∀ symbol < 19, symbol ∈ lengthOrder := by decide

theorem lengthCode_getD_lt {head : DynamicHead} (h : head.Valid) (symbol : Nat) :
    head.lengthCode.getD symbol 0 < 2 ^ 3 := by
  by_cases hs : symbol < head.lengthCode.length
  · rw [getD_eq_getElem _ _ hs]
    exact h.lengthCode_le _ (getElem_mem hs)
  · rw [getD_eq_default _ _ (by omega)]
    decide

theorem head_append_inj {a b : DynamicHead} (ha : a.Valid) (hb : b.Valid)
    (h : a.bits ++ s = b.bits ++ t) : a = b ∧ s = t := by
  obtain ⟨⟨literal, distance⟩, lengthCode, written, items⟩ := a
  obtain ⟨⟨literal', distance'⟩, lengthCode', written', items'⟩ := b
  have hlit := ha.literal_min
  have hlitMax := ha.literal_max
  have hlit' := hb.literal_min
  have hlitMax' := hb.literal_max
  have hdist := ha.distance_min
  have hdistMax := ha.distance_max
  have hdist' := hb.distance_min
  have hdistMax' := hb.distance_max
  have hwritten := ha.written_min
  have hwrittenMax := ha.written_max
  have hwritten' := hb.written_min
  have hwrittenMax' := hb.written_max
  simp only [DynamicHead.bits, append_assoc] at *
  obtain ⟨hl, h1⟩ := natBits_append_inj (by omega) (by omega) h
  obtain ⟨hd, h2⟩ := natBits_append_inj (by omega) (by omega) h1
  obtain ⟨hw, h3⟩ := natBits_append_inj (by omega) (by omega) h2
  obtain rfl : written = written' := by omega
  obtain ⟨hcodes, h4⟩ := fields_append_inj (fun x _ => lengthCode_getD_lt ha x)
    (fun x _ => lengthCode_getD_lt hb x) h3
  obtain rfl : lengthCode = lengthCode' := by
    apply ext_getElem (ha.lengthCode_length.trans hb.lengthCode_length.symm)
    intro symbol hs hs'
    have hmem := mem_lengthOrder symbol (ha.lengthCode_length ▸ hs)
    rw [← take_append_drop written lengthOrder, mem_append] at hmem
    rw [← getD_eq_getElem _ 0 hs, ← getD_eq_getElem _ 0 hs']
    rcases hmem with htake | hdrop
    · exact hcodes symbol htake
    · exact (ha.unwritten symbol hdrop).trans (hb.unwritten symbol hdrop).symm
  have hexpand : expandItems [] items = literal ++ distance := ha.expand
  have hexpand' : expandItems [] items' = literal' ++ distance' := hb.expand
  obtain ⟨hitems, htail⟩ := items_append_inj ha.lengthCode_fits ha.items hb.items
    (by rw [hexpand, hexpand', length_append, length_append]; omega) h4
  obtain rfl : items = items' := hitems
  obtain ⟨rfl, rfl⟩ := append_inj (hexpand.symm.trans hexpand') (by omega)
  exact ⟨rfl, htail⟩

end Heads

section Blocks

theorem fixedCodes_fits : Fits fixedCodes.literal 15 ∧ Fits fixedCodes.distance 15 :=
  ⟨⟨by decide +kernel, by decide +kernel⟩, ⟨by decide +kernel, by decide +kernel⟩⟩

theorem type_lt (block : Block) : block.type < 2 ^ 2 := by
  cases block <;> simp [Block.type]

theorem block_append_inj {a b : Block} {position : Nat} (ha : a.Valid position out)
    (hb : b.Valid position out') (h : a.bits ++ s = b.bits ++ t) : a = b ∧ s = t := by
  rw [Block.bits, Block.bits, append_assoc, append_assoc] at h
  obtain ⟨htype, hbody⟩ := natBits_append_inj (type_lt a) (type_lt b) h
  cases a <;> cases b
  case stored.stored padding bytes padding' bytes' =>
    obtain ⟨hpad, halign, hlength⟩ := ha
    obtain ⟨hpad', halign', hlength'⟩ := hb
    simp only [Block.body, append_assoc] at hbody
    obtain ⟨rfl, h1⟩ := append_inj hbody (by omega)
    obtain ⟨hbytes, h2⟩ := natBits_append_inj hlength hlength' h1
    obtain ⟨-, h3⟩ := natBits_append_inj (by omega) (by omega) h2
    obtain ⟨rfl, htail⟩ := bytesBits_append_inj hbytes h3
    exact ⟨rfl, htail⟩
  case fixed.fixed tokens tokens' =>
    obtain ⟨rfl, htail⟩ := tokens_append_inj fixedCodes_fits.1 fixedCodes_fits.2 ha hb hbody
    exact ⟨rfl, htail⟩
  case dynamic.dynamic head tokens head' tokens' =>
    simp only [Block.body, append_assoc] at hbody
    obtain ⟨rfl, htokens⟩ := head_append_inj ha.1 hb.1 hbody
    obtain ⟨rfl, htail⟩ := tokens_append_inj ha.1.literal_fits ha.1.distance_fits ha.2 hb.2 htokens
    exact ⟨rfl, htail⟩
  all_goals cases htype

theorem blocks_append_inj {a b : List Block} {position : Nat} (ha : BlocksValid position out a)
    (hb : BlocksValid position out b) (h : blocksBits a ++ s = blocksBits b ++ t) :
    a = b ∧ s = t := by
  induction a generalizing b position out with
  | nil => exact ha.elim
  | cons block a ih =>
    cases b with
    | nil => exact hb.elim
    | cons block' b =>
      cases a with
      | nil =>
        cases b with
        | nil =>
          obtain ⟨rfl, htail⟩ := block_append_inj ha hb (cons.inj h).2
          exact ⟨rfl, htail⟩
        | cons next' b => cases (cons.inj h).1
      | cons next a =>
        cases b with
        | nil => cases (cons.inj h).1
        | cons next' b =>
          have hbits := (cons.inj h).2
          rw [append_eq, append_eq, append_assoc, append_assoc] at hbits
          obtain ⟨rfl, hmore⟩ := block_append_inj ha.1 hb.1 hbits
          obtain ⟨hrest, htail⟩ := ih ha.2 hb.2 hmore
          exact ⟨by rw [hrest], htail⟩

/-- Data is blocks and a gap in at most one way. -/
theorem Deflated.unique {data gap gap' : List UInt8} {a b : List Block} (ha : BlocksValid 0 [] a)
    (hb : BlocksValid 0 [] b) (hda : Deflated data a gap) (hdb : Deflated data b gap') :
    a = b ∧ gap = gap' := by
  obtain ⟨padding, hpad, hdata⟩ := hda
  obtain ⟨padding', hpad', hdata'⟩ := hdb
  obtain ⟨rfl, htail⟩ := blocks_append_inj ha hb (hdata.symm.trans hdata')
  have hlength := congrArg List.length htail
  simp only [length_append, length_bytesBits] at hlength
  obtain ⟨-, hgap⟩ := append_inj htail (by omega)
  have hnil : bytesBits gap ++ [] = bytesBits gap' ++ [] := by rw [hgap]
  exact ⟨rfl, (bytesBits_append_inj (by omega) hnil).1⟩

end Blocks

end KernelBoot.Lib.Deflate
