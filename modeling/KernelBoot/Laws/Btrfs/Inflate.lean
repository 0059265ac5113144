import KernelBoot.Lib.DeflateUnique
import KernelBoot.Laws.Btrfs.Huffman

/-!
# Laws of inflate: what each part reads

For each function of the decoder, the runs on which it succeeds are exactly the readings of the
corresponding piece of the format: code lengths, the head of a dynamic block, a token, the tokens of a
block, a stored block, a block, and all blocks.
-/

namespace KernelBoot.Btrfs

open Lib Lib.CanonicalCode Lib.Deflate List Option Nat

variable {before lengthCode lengths : List Nat} {fuel : Nat}

section CodeLengths

variable {reader reader' : BitReader}

/-- The loop over `order` fills in one 3-bit length for each symbol of the order. -/
theorem readLengthLengths_iff {order lengths' : List Nat}
    (hnodup : order.Nodup) (horder : ∀ s ∈ order, s < lengths.length) :
    readLengthLengths order reader lengths = some (lengths', reader') ↔
      lengths'.length = lengths.length ∧ (∀ s ∈ order, lengths'.getD s 0 < 8) ∧
      (∀ s, s ∉ order → lengths'.getD s 0 = lengths.getD s 0) ∧
      Reads reader (order.flatMap fun s => natBits 3 (lengths'.getD s 0)) reader' := by
  induction order generalizing reader lengths with
  | nil =>
    simp only [readLengthLengths, flatMap_nil, Reads.nil_iff, some.injEq, Prod.mk.injEq]
    constructor
    · rintro ⟨rfl, rfl⟩
      exact ⟨rfl, by simp, fun _ _ => rfl, rfl⟩
    · rintro ⟨hlength, -, hsame, rfl⟩
      refine ⟨(ext_getElem hlength.symm fun s h h' => ?_), rfl⟩
      have hget := hsame s (by simp)
      rwa [getD_eq_getElem _ _ h', getD_eq_getElem _ _ h, eq_comm] at hget
  | cons symbol order ih =>
    obtain ⟨hnot, hnodup⟩ := nodup_cons.mp hnodup
    have hsymbol : symbol < lengths.length := horder symbol mem_cons_self
    have hset (value : Nat) : (lengths.set symbol value).getD symbol 0 = value := by
      rw [getD_eq_getElem _ _ (by simpa using hsymbol)]
      simp
    have hother (value s : Nat) (h : s ≠ symbol) :
        (lengths.set symbol value).getD s 0 = lengths.getD s 0 := by
      rw [getD_eq_getElem?_getD, getD_eq_getElem?_getD, getElem?_set_ne h.symm]
    have hbound (value s : Nat) (hs : s ∈ order) : s < (lengths.set symbol value).length := by
      simpa using horder s (mem_cons_of_mem _ hs)
    simp only [readLengthLengths, bind_eq_bind, Option.bind_eq_some_iff, Prod.exists,
      flatMap_cons, Reads.append_iff, readBits_natBits_iff, Nat.ofNat_pos, reduceLeDiff, and_self]
    constructor
    · rintro ⟨value, middle, ⟨hvalue, hreads⟩, hloop⟩
      obtain ⟨hlength, hsmall, hsame, htail⟩ := (ih hnodup (hbound value)).mp hloop
      have hget : lengths'.getD symbol 0 = value := by rw [hsame symbol hnot, hset]
      refine ⟨by simpa using hlength, ?_, ?_, middle, by rwa [hget], htail⟩
      · refine forall_mem_cons.mpr ⟨?_, hsmall⟩
        rw [hget]
        exact hvalue
      · intro s hs
        rw [hsame s (fun h => hs (mem_cons_of_mem _ h)),
          hother value s (fun h => hs (h ▸ mem_cons_self))]
    · rintro ⟨hlength, hsmall, hsame, middle, hreads, htail⟩
      refine ⟨lengths'.getD symbol 0, middle, ⟨hsmall symbol mem_cons_self, hreads⟩, ?_⟩
      refine (ih hnodup (hbound _)).mpr ⟨by simpa using hlength, ?_, ?_, htail⟩
      · intro s hs
        exact hsmall s (mem_cons_of_mem _ hs)
      · intro s hs
        by_cases h : s = symbol
        · rw [h, hset]
        · rw [hother _ _ h, hsame s (by simp [h, hs])]

theorem repeatRun_iff {bits base previous : Nat} (hbits : 0 < bits ∧ bits ≤ 24)
    {run : List Nat} :
    repeatRun reader bits base previous = some (run, reader') ↔
      ∃ extra, extra < 2 ^ bits ∧ List.replicate (extra + base) previous = run ∧
        Reads reader (natBits bits extra) reader' := by
  simp only [repeatRun, map_eq_some_iff, Prod.exists, Prod.mk.injEq,
    readBits_natBits_iff hbits]
  constructor
  · rintro ⟨extra, middle, ⟨hlt, hreads⟩, hrun, rfl⟩
    exact ⟨extra, hlt, hrun, hreads⟩
  · rintro ⟨extra, hlt, hrun, hreads⟩
    exact ⟨extra, reader', ⟨hlt, hreads⟩, hrun, rfl⟩

/-- What follows a symbol of the code length code. -/
theorem codeLengthRun_iff {symbol : Nat} {run : List Nat} :
    codeLengthRun reader symbol before = some (run, reader') ↔
      ∃ item : LengthItem, item.symbol = symbol ∧ item.Valid before ∧ item.run before = run ∧
        Reads reader item.extraBits reader' := by
  constructor
  · intro h
    unfold codeLengthRun at h
    split_ifs at h with hlow h16 hempty h17 h18
    · cases h
      exact ⟨.length symbol, rfl, hlow, rfl, Reads.nil_iff.mpr rfl⟩
    · obtain ⟨extra, hlt, hrun, hreads⟩ := (repeatRun_iff (by decide)).mp h
      exact ⟨.repeatLast extra, h16.symm, ⟨hlt, hempty⟩, hrun, hreads⟩
    · obtain ⟨extra, hlt, hrun, hreads⟩ := (repeatRun_iff (by decide)).mp h
      exact ⟨.zeros extra, h17.symm, hlt, hrun, hreads⟩
    · obtain ⟨extra, hlt, hrun, hreads⟩ := (repeatRun_iff (by decide)).mp h
      exact ⟨.manyZeros extra, h18.symm, hlt, hrun, hreads⟩
  · rintro ⟨item, rfl, hvalid, hrun, hreads⟩
    cases item with
    | length n =>
      have hlow : n < 16 := hvalid
      rw [codeLengthRun, LengthItem.symbol, if_pos hlow, ← hrun, Reads.nil_iff.mp hreads]
      rfl
    | repeatLast extra =>
      have hrepeat := (repeatRun_iff (by decide)).mpr ⟨extra, hvalid.1, hrun, hreads⟩
      simpa [codeLengthRun, LengthItem.symbol, hvalid.2] using hrepeat
    | zeros extra => exact (repeatRun_iff (by decide)).mpr ⟨extra, hvalid, hrun, hreads⟩
    | manyZeros extra => exact (repeatRun_iff (by decide)).mpr ⟨extra, hvalid, hrun, hreads⟩

/-- The loop is left with `count` lengths. -/
theorem codeLengths_full {all : List Nat} : some (before, reader) = some (all, reader') ↔
      ∃ items, ItemsValid lengthCode before items ∧ expandItems before items = all ∧
        all.length = before.length ∧
        Reads reader (items.flatMap (LengthItem.bits lengthCode)) reader' := by
  constructor
  · intro h
    obtain ⟨rfl, rfl⟩ := Prod.mk.inj (some.inj h)
    exact ⟨[], trivial, rfl, rfl, Reads.nil_iff.mpr rfl⟩
  · rintro ⟨items, -, rfl, hlength, hreads⟩
    cases items with
    | nil => rw [Reads.nil_iff.mp hreads]; rfl
    | cons item items => exact absurd hlength (length_lt_expandItems before item items).ne'

/-- `read_code_lengths` from some lengths on: it reads elements until there are `count` lengths. -/
theorem readCodeLengthsLoop_iff (hfits : Fits lengthCode 15) {count : Nat}
    {all : List Nat} (hbefore : before.length ≤ count) (hfuel : count ≤ before.length + fuel) :
    readCodeLengthsLoop (treeOf lengthCode) count fuel reader before = some (all, reader') ↔
      ∃ items, ItemsValid lengthCode before items ∧ expandItems before items = all ∧
        all.length = count ∧ Reads reader (items.flatMap (LengthItem.bits lengthCode)) reader' := by
  induction fuel generalizing reader before with
  | zero =>
    have hfull : count = before.length := by omega
    subst hfull
    unfold readCodeLengthsLoop
    rw [if_neg (Nat.lt_irrefl _)]
    exact codeLengths_full
  | succ fuel ih =>
    unfold readCodeLengthsLoop
    by_cases hmore : before.length < count
    · rw [if_pos hmore]
      simp only [bind_eq_bind, Option.bind_eq_some_iff, Prod.exists, huffmanRead_iff hfits,
        codeLengthRun_iff]
      constructor
      · rintro ⟨symbol, middle, ⟨hused, hword⟩, run, after, ⟨item, rfl, hvalid, rfl, hextra⟩, hloop⟩
        split_ifs at hloop with hroom
        have hlength : (before ++ item.run before).length =
            before.length + (item.run before).length := length_append
        have hpos := run_length_pos item before
        obtain ⟨items, hitems, hexpand, hall, hreads⟩ :=
          (ih (by omega) (by omega)).mp hloop
        refine ⟨item :: items, ⟨⟨hused, hvalid⟩, hitems⟩, hexpand, hall, ?_⟩
        rw [flatMap_cons, LengthItem.bits, append_assoc]
        exact Reads.append_iff.mpr ⟨middle, hword, Reads.append_iff.mpr ⟨after, hextra, hreads⟩⟩
      · rintro ⟨items, hitems, hexpand, hall, hreads⟩
        cases items with
        | nil =>
          have heq : before = all := hexpand
          rw [heq] at hmore
          omega
        | cons item items =>
          obtain ⟨⟨hused, hvalid⟩, hitems⟩ := hitems
          rw [flatMap_cons, LengthItem.bits, append_assoc] at hreads
          obtain ⟨middle, hword, hreads⟩ := Reads.append_iff.mp hreads
          obtain ⟨after, hextra, hreads⟩ := Reads.append_iff.mp hreads
          have hlength : (before ++ item.run before).length =
              before.length + (item.run before).length := length_append
          have hpos := run_length_pos item before
          have hle := length_le_expandItems (before ++ item.run before) items
          change _ ≤ (expandItems before (item :: items)).length at hle
          rw [hexpand, hall] at hle
          refine ⟨item.symbol, middle, ⟨hused, hword⟩, item.run before, after,
            ⟨item, rfl, hvalid, rfl, hextra⟩, ?_⟩
          rw [if_neg (by omega)]
          exact (ih (by omega) (by omega)).mpr
            ⟨items, hitems, hexpand, hall, hreads⟩
    · have hfull : count = before.length := by omega
      subst hfull
      rw [if_neg hmore]
      exact codeLengths_full

end CodeLengths

section Trees

variable {reader reader' : BitReader}

theorem lengthOrder_nodup : lengthOrder.Nodup := by decide

theorem lengthOrder_lt : ∀ s ∈ lengthOrder, s < 19 := by decide

/-- The lengths of the code length code, as the loop over `order` reads them. -/
theorem readLengthLengths_order_iff {written : Nat} :
    readLengthLengths (codeLengthOrder.take written) reader (List.replicate 19 0) =
        some (lengths, reader') ↔
      lengths.length = 19 ∧ (∀ l ∈ lengths, l < 8) ∧
      (∀ s ∈ lengthOrder.drop written, lengths.getD s 0 = 0) ∧
      Reads reader ((lengthOrder.take written).flatMap fun s => natBits 3 (lengths.getD s 0))
        reader' := by
  have hsplit : lengthOrder.take written ++ lengthOrder.drop written = lengthOrder :=
    take_append_drop _ _
  have hnodup : (lengthOrder.take written ++ lengthOrder.drop written).Nodup := by
    rw [hsplit]
    exact lengthOrder_nodup
  have hdisjoint : ∀ s ∈ lengthOrder.drop written, s ∉ lengthOrder.take written :=
    fun s hs hs' => (disjoint_of_nodup_append hnodup) hs' hs
  have hzero (s : Nat) : (List.replicate 19 0).getD s 0 = 0 := by
    by_cases hs : s < 19
    · rw [getD_eq_getElem _ _ (by simpa using hs), getElem_replicate]
    · rw [getD_eq_default _ _ (by simpa using hs)]
  refine (readLengthLengths_iff (Nodup.of_append_left hnodup)
    (fun s hs => by simpa using lengthOrder_lt s (mem_of_mem_take hs))).trans ?_
  rw [length_replicate]
  constructor
  · rintro ⟨hlength, hsmall, hsame, hreads⟩
    refine ⟨hlength, ?_, fun s hs => by rw [hsame s (hdisjoint s hs), hzero], hreads⟩
    intro l hl
    obtain ⟨s, hs, rfl⟩ := getElem_of_mem hl
    rw [← getD_eq_getElem _ 0 hs]
    by_cases hmem : s ∈ lengthOrder.take written
    · exact hsmall s hmem
    · rw [hsame s hmem, hzero]
      decide
  · rintro ⟨hlength, hsmall, hunwritten, hreads⟩
    refine ⟨hlength, ?_, ?_, hreads⟩
    · intro s hs
      have hlt : s < lengths.length := by
        rw [hlength]
        exact lengthOrder_lt s (mem_of_mem_take hs)
      rw [getD_eq_getElem _ _ hlt]
      exact hsmall _ (getElem_mem hlt)
    · intro s hs
      rw [hzero]
      by_cases hlt : s < 19
      · have hmem := mem_lengthOrder s hlt
        rw [← hsplit, mem_append] at hmem
        exact hunwritten s (hmem.resolve_left hs)
      · exact getD_eq_default _ _ (by omega)

/-- The head of a dynamic block. -/
theorem dynamicTrees_iff {literalTree distanceTree : Huffman} :
    dynamicTrees reader = some (literalTree, distanceTree, reader') ↔
      ∃ head : DynamicHead, head.Valid ∧ literalTree = treeOf head.codes.literal ∧
        distanceTree = treeOf head.codes.distance ∧ Reads reader head.bits reader' := by
  simp only [dynamicTrees, bind_eq_bind, Option.bind_eq_some_iff, Prod.exists,
    readBits_natBits_iff, Nat.ofNat_pos, reduceLeDiff, and_self,
    readLengthLengths_order_iff, huffmanBuild_iff]
  constructor
  · rintro ⟨hlit, r1, ⟨hlt1, hreads1⟩, hdist, r2, ⟨hlt2, hreads2⟩, hclen, r3, ⟨hlt3, hreads3⟩,
      lengthCode, r4, ⟨hlength, hsmall, hunwritten, hreads4⟩, _, ⟨⟨-, -, hfits⟩, rfl⟩, all, r5, hread5,
      _, ⟨⟨-, hliteralMax, hliteralFits⟩, rfl⟩, _, ⟨⟨-, -, hdistanceFits⟩, rfl⟩, ⟨⟩⟩
    obtain ⟨items, hitems, hexpand, hall, hreads5⟩ :=
      (readCodeLengthsLoop_iff hfits (Nat.zero_le _) (by simp)).mp hread5
    have htake : (all.take (hlit + 257)).length = hlit + 257 := length_take_of_le (by omega)
    have hdrop : ((all.drop (hlit + 257)).take (hdist + 1)).length = hdist + 1 :=
      length_take_of_le (by rw [length_drop]; omega)
    have hwhole : all.take (hlit + 257) ++ (all.drop (hlit + 257)).take (hdist + 1) = all := by
      rw [take_of_length_le (l := all.drop (hlit + 257)) (by rw [length_drop]; omega),
        take_append_drop]
    refine ⟨⟨⟨all.take (hlit + 257), (all.drop (hlit + 257)).take (hdist + 1)⟩, lengthCode, hclen + 4,
      items⟩, ?_, rfl, rfl, ?_⟩
    · exact {
        literal_min := by simp only [htake]; omega
        literal_max := by simp only [htake]; omega
        distance_min := by simp only [hdrop]; omega
        distance_max := by simp only [hdrop]; omega
        written_min := by simp
        written_max := by simp only; omega
        lengthCode_length := hlength
        lengthCode_le := hsmall
        unwritten := hunwritten
        lengthCode_fits := hfits
        literal_fits := hliteralFits
        distance_fits := hdistanceFits
        items := hitems
        expand := by simp only [hwhole, hexpand] }
    · simp only [DynamicHead.bits, htake, hdrop, Nat.add_sub_cancel, Reads.append_iff]
      exact ⟨r1, hreads1, r2, hreads2, r3, hreads3, r4, hreads4, hreads5⟩
  · rintro ⟨head, hvalid, rfl, rfl, hreads⟩
    simp only [DynamicHead.bits, Reads.append_iff] at hreads
    obtain ⟨r1, hreads1, r2, hreads2, r3, hreads3, r4, hreads4, hreads5⟩ := hreads
    have hlit : head.codes.literal.length - 257 + 257 = head.codes.literal.length :=
      Nat.sub_add_cancel hvalid.literal_min
    have hdist : head.codes.distance.length - 1 + 1 = head.codes.distance.length :=
      Nat.sub_add_cancel hvalid.distance_min
    have hclen : head.written - 4 + 4 = head.written := Nat.sub_add_cancel hvalid.written_min
    have hliteral := hvalid.literal_max
    have hdistance := hvalid.distance_max
    have hwritten := hvalid.written_max
    have hlength := hvalid.lengthCode_length
    refine ⟨head.codes.literal.length - 257, r1, ⟨by omega, hreads1⟩, head.codes.distance.length - 1, r2,
      ⟨by omega, hreads2⟩, head.written - 4, r3, ⟨by omega, hreads3⟩, head.lengthCode, r4, ?_,
      treeOf head.lengthCode, ⟨⟨by omega, by omega, hvalid.lengthCode_fits⟩, rfl⟩,
      head.codes.literal ++ head.codes.distance, reader', ?_, treeOf head.codes.literal, ?_,
      treeOf head.codes.distance, ?_, rfl⟩
    · rw [hclen]
      exact ⟨hlength, hvalid.lengthCode_le, hvalid.unwritten, hreads4⟩
    · rw [hlit, hdist]
      exact (readCodeLengthsLoop_iff hvalid.lengthCode_fits (Nat.zero_le _) (by simp)).mpr
        ⟨head.items, hvalid.items, hvalid.expand, length_append, hreads5⟩
    · rw [hlit, take_left]
      exact ⟨⟨by omega, hliteral, hvalid.literal_fits⟩, rfl⟩
    · rw [hlit, hdist, drop_left, take_length]
      exact ⟨⟨by omega, by omega, hvalid.distance_fits⟩, rfl⟩

/-- The trees of a fixed block. -/
theorem fixedTrees_eq :
    fixedTrees = some (treeOf fixedCodes.literal, treeOf fixedCodes.distance) := by
  have hliteral : huffmanBuild fixedLiteralLengths = some (treeOf fixedCodes.literal) := by
    rw [show fixedLiteralLengths = fixedCodes.literal by decide +kernel]
    exact huffmanBuild_iff.mpr ⟨⟨by decide +kernel, by decide +kernel, fixedCodes_fits.1⟩, rfl⟩
  have hdistance : huffmanBuild fixedDistanceLengths = some (treeOf fixedCodes.distance) :=
    huffmanBuild_iff.mpr ⟨⟨by decide, by decide, fixedCodes_fits.2⟩, rfl⟩
  simp only [fixedTrees, hliteral, hdistance, bind_eq_bind, bind_some]

end Trees

section Symbols

variable {reader reader' : BitReader} {codes : Codes} {capacity : Nat} {out out' : List UInt8}

/-- Two tables of the source are a table of the format. -/
def TablesAgree (bases extras : List Nat) (table : List (Nat × Nat)) : Prop :=
  ∀ i < table.length, bases.getD i 0 = (table.getD i (0, 0)).1 ∧
    extras.getD i 0 = (table.getD i (0, 0)).2 ∧ extras.getD i 0 ≤ 24

section Tables

variable {bases extras : List Nat} {table : List (Nat × Nat)} (h : TablesAgree bases extras table)
  (c : Coded) (hcode : c.code < table.length)

include h hcode

theorem TablesAgree.value : bases.getD c.code 0 + c.extra = c.value table := by
  rw [Coded.value, (h c.code hcode).1]

theorem TablesAgree.read_iff (hwithin : reader.Within) :
    readBits reader (extras.getD c.code 0) = some (c.extra, reader') ↔
      c.Valid table ∧ Reads reader (c.extraBits table) reader' := by
  rw [readBits_natBits_iff_of_within hwithin (h c.code hcode).2.2, (h c.code hcode).2.1, Coded.Valid,
    and_iff_right hcode]
  rfl

end Tables

theorem length_tables : TablesAgree lengthBase lengthExtra lengthTable := by
  unfold TablesAgree
  decide

theorem distance_tables : TablesAgree distanceBase distanceExtra distanceTable := by
  unfold TablesAgree
  decide

/-- One pass of the symbol loop: a token, or the end of the block. -/
theorem inflateSymbol_iff (hliteral : Fits codes.literal 15) (hdistance : Fits codes.distance 15)
    (hout : out.length ≤ capacity) {next : SymbolNext} :
    inflateSymbol capacity (treeOf codes.literal) (treeOf codes.distance) reader out = some next ↔
      (∃ (token : Token) (reader' : BitReader), token.Valid codes out.length ∧
        (token.expand out).length ≤ capacity ∧ Reads reader (token.bits codes) reader' ∧
        next = .again reader' (token.expand out)) ∨
      (∃ reader', Used codes.literal 256 ∧ Reads reader (wordBits codes.literal 256) reader' ∧
        next = .endOfBlock reader') := by
  constructor
  · intro h
    obtain ⟨⟨symbol, r1⟩, hread, h⟩ := Option.bind_eq_some_iff.mp h
    obtain ⟨hused, hword⟩ := (huffmanRead_iff hliteral).mp hread
    dsimp only at h
    split_ifs at h with hlow hfull hend hhigh
    · cases h
      have hbyte : (UInt8.ofNat symbol).toNat = symbol := UInt8.toNat_ofNat_of_lt' hlow
      refine .inl ⟨.literal (UInt8.ofNat symbol), r1, ?_, ?_, ?_, rfl⟩
      · rwa [Token.Valid, hbyte]
      · simp only [Token.expand, length_append, length_singleton]
        omega
      · rwa [Token.bits, hbyte]
    · cases h
      subst hend
      exact .inr ⟨r1, hused, hword, rfl⟩
    · obtain ⟨⟨lengthBits, r2⟩, hread2, h⟩ := Option.bind_eq_some_iff.mp h
      have hlc : symbol - 257 < 29 := by omega
      obtain ⟨hlengthValid, hreads2⟩ := (length_tables.read_iff ⟨_, _⟩ hlc
        (hword.end_within (wordBits_ne_nil hused))).mp hread2
      obtain ⟨⟨distanceSymbol, r3⟩, hread3, h⟩ := Option.bind_eq_some_iff.mp h
      obtain ⟨hused3, hword3⟩ := (huffmanRead_iff hdistance).mp hread3
      dsimp only at h
      split_ifs at h with hthirty
      obtain ⟨⟨distanceBits, r4⟩, hread4, h⟩ := Option.bind_eq_some_iff.mp h
      have hdc : distanceSymbol < 30 := by omega
      obtain ⟨hdistanceValid, hreads4⟩ := (distance_tables.read_iff ⟨_, _⟩ hdc
        (hword3.end_within (wordBits_ne_nil hused3))).mp hread4
      dsimp only at h
      split_ifs at h with hroom
      cases h
      have hcode : 257 + (symbol - 257) = symbol := by omega
      have hlength := length_tables.value ⟨symbol - 257, lengthBits⟩ hlc
      have hdist := distance_tables.value ⟨distanceSymbol, distanceBits⟩ hdc
      dsimp only at hlength hdist
      refine .inl ⟨.copy ⟨symbol - 257, lengthBits⟩ ⟨distanceSymbol, distanceBits⟩, r4, ?_, ?_, ?_, ?_⟩
      · refine ⟨hlengthValid, hdistanceValid, ?_, hused3, ?_⟩
        · rwa [hcode]
        · rw [← hdist]
          omega
      · rw [Token.expand, length_copyMatch, ← hlength]
        omega
      · simp only [Token.bits, hcode, Reads.append_iff]
        exact ⟨r1, hword, r2, hreads2, r3, hword3, hreads4⟩
      · rw [Token.expand, hlength, hdist]
  · rintro (⟨token, r, hvalid, hroom, hreads, rfl⟩ | ⟨r, hused, hreads, rfl⟩)
    · cases token with
      | literal byte =>
        have hread := (huffmanRead_iff hliteral).mpr ⟨hvalid, hreads⟩
        have hlt : byte.toNat < 256 := byte.toNat_lt
        simp only [Token.expand, length_append, length_singleton] at hroom
        simp only [inflateSymbol, hread, bind_eq_bind, bind_some, if_pos hlt,
          if_neg (show ¬out.length ≥ capacity by omega), UInt8.ofNat_toNat, Token.expand]
      | copy length distance =>
        obtain ⟨hlengthValid, hdistanceValid, husedl, husedd, hfar⟩ := hvalid
        simp only [Token.bits, Reads.append_iff] at hreads
        obtain ⟨r1, hword, r2, hreads2, r3, hword3, hreads4⟩ := hreads
        have hlc : length.code < 29 := hlengthValid.1
        have hdc : distance.code < 30 := hdistanceValid.1
        have hread := (huffmanRead_iff hliteral).mpr ⟨husedl, hword⟩
        have hread2 := (length_tables.read_iff length hlc
          (hword.end_within (wordBits_ne_nil husedl))).mpr ⟨hlengthValid, hreads2⟩
        have hread3 := (huffmanRead_iff hdistance).mpr ⟨husedd, hword3⟩
        have hread4 := (distance_tables.read_iff distance hdc
          (hword3.end_within (wordBits_ne_nil husedd))).mpr ⟨hdistanceValid, hreads4⟩
        rw [Token.expand, length_copyMatch] at hroom
        simp only [inflateSymbol, hread, bind_eq_bind, bind_some,
          if_neg (show ¬257 + length.code < 256 by omega),
          if_neg (show ¬257 + length.code = 256 by omega),
          if_neg (show ¬257 + length.code > 285 by omega), Nat.add_sub_cancel_left, hread2, hread3,
          if_neg (show ¬distance.code ≥ 30 by omega), hread4, length_tables.value length hlc,
          distance_tables.value distance hdc, if_neg (show ¬(distance.value distanceTable > out.length ∨
            length.value lengthTable > capacity - out.length) by omega), Token.expand]
    · have hread := (huffmanRead_iff hliteral).mpr ⟨hused, hreads⟩
      simp [inflateSymbol, hread]

theorem isPrefix_tokenExpand (token : Token) (out : List UInt8) : out <+: token.expand out := by
  cases token with
  | literal byte => exact prefix_append _ _
  | copy length distance => exact isPrefix_copyMatch _ _ _

theorem isPrefix_foldl_tokenExpand (tokens : List Token) (out : List UInt8) :
    out <+: tokens.foldl Token.expand out :=
  foldlRecOn tokens _ (prefix_refl _) fun _ h token _ => h.trans (isPrefix_tokenExpand token _)

theorem tokenBits_pos {token : Token} {produced : Nat} (h : token.Valid codes produced) :
    0 < (token.bits codes).length := by
  cases token with
  | literal byte =>
    rw [Token.bits, length_wordBits]
    exact Nat.pos_of_ne_zero h
  | copy length distance =>
    rw [Token.bits, length_append, length_wordBits]
    have hused : wordLength codes.literal (257 + length.code) ≠ 0 := h.2.2.1
    omega

/-- The symbol loop reads the tokens of a block. By induction on the passes left; each reads a bit. -/
theorem symbolLoop_iff (hliteral : Fits codes.literal 15) (hdistance : Fits codes.distance 15)
    (hout : out.length ≤ capacity) (hfuel : reader.rest.length < fuel) :
    symbolLoop capacity (treeOf codes.literal) (treeOf codes.distance) fuel reader out =
        some (reader', out') ↔
      ∃ tokens, TokensValid codes out tokens ∧ tokens.foldl Token.expand out = out' ∧
        out'.length ≤ capacity ∧ Reads reader (tokensBits codes tokens) reader' := by
  induction fuel generalizing reader out with
  | zero => omega
  | succ fuel ih =>
    rw [symbolLoop]
    constructor
    · intro h
      cases hsymbol : inflateSymbol capacity (treeOf codes.literal) (treeOf codes.distance) reader out with
      | none =>
        rw [hsymbol] at h
        cases h
      | some next =>
        rw [hsymbol] at h
        rcases (inflateSymbol_iff hliteral hdistance hout).mp hsymbol with
          ⟨token, r, hvalid, hroom, hreads, rfl⟩ | ⟨r, hused, hreads, rfl⟩
        · have hrest := hreads.length_rest
          have hpos := tokenBits_pos hvalid
          obtain ⟨tokens, htokens, hexpand, hlength, htail⟩ :=
            (ih hroom (by omega)).mp h
          refine ⟨token :: tokens, ⟨hvalid, htokens⟩, hexpand, hlength, ?_⟩
          rw [tokensBits, flatMap_cons, append_assoc]
          exact Reads.append_iff.mpr ⟨r, hreads, htail⟩
        · cases h
          exact ⟨[], hused, rfl, hout, hreads⟩
    · rintro ⟨tokens, htokens, hexpand, hlength, hreads⟩
      cases tokens with
      | nil =>
        have hsymbol := (inflateSymbol_iff hliteral hdistance hout).mpr
          (.inr ⟨reader', htokens, hreads, rfl⟩)
        have heq : out = out' := hexpand
        simp only [hsymbol]
        rw [heq]
      | cons token tokens =>
        obtain ⟨hvalid, htokens⟩ := htokens
        rw [tokensBits, flatMap_cons, append_assoc] at hreads
        obtain ⟨middle, hreads, htail⟩ := Reads.append_iff.mp hreads
        have hroom : (token.expand out).length ≤ capacity := by
          rw [← hexpand] at hlength
          exact (isPrefix_foldl_tokenExpand tokens _).length_le.trans hlength
        have hsymbol := (inflateSymbol_iff hliteral hdistance hout).mpr
          (.inl ⟨token, middle, hvalid, hroom, hreads, rfl⟩)
        have hrest := hreads.length_rest
        have hpos := tokenBits_pos hvalid
        simp only [hsymbol]
        exact (ih hroom (by omega)).mpr
          ⟨tokens, htokens, hexpand, hlength, htail⟩

theorem inflateSymbols_iff (hliteral : Fits codes.literal 15) (hdistance : Fits codes.distance 15)
    (hout : out.length ≤ capacity) :
    inflateSymbols capacity (treeOf codes.literal) (treeOf codes.distance) reader out =
        some (reader', out') ↔
      ∃ tokens, TokensValid codes out tokens ∧ tokens.foldl Token.expand out = out' ∧
        out'.length ≤ capacity ∧ Reads reader (tokensBits codes tokens) reader' := by
  apply symbolLoop_iff hliteral hdistance hout
  have hlength := BitReader.length_rest reader
  have hlimit := reader.limit_le
  omega

end Symbols

section Stored

variable {reader reader' : BitReader} {capacity : Nat} {out out' : List UInt8}

/-- The byte loop reads whole bytes. -/
theorem storedLoop_iff {length : Nat} :
    storedLoop length reader out = some (reader', out') ↔
      ∃ bytes : List UInt8, bytes.length = length ∧ out' = out ++ bytes ∧
        Reads reader (bytesBits bytes) reader' := by
  induction length generalizing reader out with
  | zero =>
    simp only [storedLoop, some.injEq, Prod.mk.injEq]
    constructor
    · rintro ⟨rfl, rfl⟩
      exact ⟨[], rfl, by simp, Reads.nil_iff.mpr rfl⟩
    · rintro ⟨bytes, hlength, rfl, hreads⟩
      rw [eq_nil_of_length_eq_zero hlength] at hreads ⊢
      exact ⟨(Reads.nil_iff.mp hreads).symm, by simp⟩
  | succ length ih =>
    simp only [storedLoop, bind_eq_bind, Option.bind_eq_some_iff, Prod.exists,
      readBits_natBits_iff, Nat.ofNat_pos, reduceLeDiff, and_self, ih]
    constructor
    · rintro ⟨value, middle, ⟨hlt, hreads⟩, bytes, hlength, hout', htail⟩
      have hbyte : (UInt8.ofNat value).toNat = value := UInt8.toNat_ofNat_of_lt' hlt
      refine ⟨UInt8.ofNat value :: bytes, by simp [hlength], by simp [hout'], ?_⟩
      rw [bytesBits_cons, hbyte]
      exact Reads.append_iff.mpr ⟨middle, hreads, htail⟩
    · rintro ⟨bytes, hlength, hout', hreads⟩
      cases bytes with
      | nil => cases hlength
      | cons byte bytes =>
        rw [bytesBits_cons] at hreads
        obtain ⟨middle, hreads, htail⟩ := Reads.append_iff.mp hreads
        exact ⟨byte.toNat, middle, ⟨byte.toNat_lt, hreads⟩, bytes, by simpa using hlength,
          by simp [hout'], htail⟩

/-- The check on the length and its complement. -/
theorem complement_iff {length inverse : Nat} (hlength : length < 2 ^ 16) (hinverse : inverse < 2 ^ 16) :
    (length ^^^ inverse) &&& 0xffff = 0xffff ↔ inverse = 2 ^ 16 - 1 - length := by
  have hxor : length ^^^ inverse < 2 ^ 16 := xor_lt_two_pow hlength hinverse
  have hnot : (2 ^ 16 - 1) ^^^ length = 2 ^ 16 - 1 - length := by
    have h := BitVec.toNat_not (x := BitVec.ofNat 16 length)
    rwa [BitVec.not_def, BitVec.toNat_xor, BitVec.toNat_allOnes, BitVec.toNat_ofNat,
      mod_eq_of_lt hlength] at h
  rw [show 0xffff = 2 ^ 16 - 1 from rfl, and_two_pow_sub_one_eq_mod, mod_eq_of_lt hxor, ← hnot]
  constructor
  · intro h
    rw [← h, Nat.xor_comm length, Nat.xor_xor_cancel_right]
  · rintro rfl
    rw [Nat.xor_comm, Nat.xor_xor_cancel_right]

/-- Going on to the next byte skips fewer than eight bits. -/
theorem Reads.aligned {padding : List Bool} (h : Reads reader padding reader')
    (hlt : padding.length < 8) (halign : (reader.bit + padding.length) % 8 = 0) :
    reader' = { reader with bit := (reader.bit + 7) / 8 * 8 } := by
  rw [h.after, BitReader.advance, show reader.bit + padding.length = (reader.bit + 7) / 8 * 8 by omega]

theorem reads_padding (hnext : (reader.bit + 7) / 8 * 8 ≤ reader.limit) :
    ∃ padding : List Bool, padding.length < 8 ∧ (reader.bit + padding.length) % 8 = 0 ∧
      Reads reader padding { reader with bit := (reader.bit + 7) / 8 * 8 } := by
  have hlength := BitReader.length_rest reader
  have htake : (reader.rest.take ((reader.bit + 7) / 8 * 8 - reader.bit)).length =
      (reader.bit + 7) / 8 * 8 - reader.bit := length_take_of_le (by omega)
  refine ⟨reader.rest.take ((reader.bit + 7) / 8 * 8 - reader.bit), by omega, by omega,
    take_prefix _ _, ?_⟩
  rw [htake, BitReader.advance, Nat.add_sub_cancel' (by omega)]

/-- The branch for stored blocks. -/
theorem inflateStored_iff (hout : out.length ≤ capacity) :
    inflateStored capacity reader out = some (reader', out') ↔
      ∃ (padding : List Bool) (bytes : List UInt8), padding.length < 8 ∧
        (reader.bit + padding.length) % 8 = 0 ∧ bytes.length < 2 ^ 16 ∧ out' = out ++ bytes ∧
        out'.length ≤ capacity ∧
        Reads reader (padding ++ (natBits 16 bytes.length ++
          (natBits 16 (2 ^ 16 - 1 - bytes.length) ++ bytesBits bytes))) reader' := by
  simp only [inflateStored, bind_eq_bind, Option.bind_eq_some_iff, Prod.exists,
    readBits_natBits_iff, Nat.ofNat_pos, reduceLeDiff, and_self]
  constructor
  · rintro ⟨length, r1, ⟨hlt1, hreads1⟩, inverse, r2, ⟨hlt2, hreads2⟩, h⟩
    obtain ⟨padding, hpad, halign, hskip⟩ :=
      reads_padding (hreads1.start_within (cons_ne_nil _ _))
    split_ifs at h with hguard
    push Not at hguard
    obtain ⟨bytes, rfl, hout', hreads3⟩ := storedLoop_iff.mp h
    have hinverse := (complement_iff hlt1 hlt2).mp hguard.1
    refine ⟨padding, bytes, hpad, halign, hlt1, hout', ?_, ?_⟩
    · rw [hout', length_append]
      omega
    · simp only [Reads.append_iff]
      exact ⟨_, hskip, r1, hreads1, r2, by rwa [← hinverse], hreads3⟩
  · rintro ⟨padding, bytes, hpad, halign, hlt, hout', hroom, hreads⟩
    simp only [Reads.append_iff] at hreads
    obtain ⟨r0, hskip, r1, hreads1, r2, hreads2, hreads3⟩ := hreads
    cases hskip.aligned hpad halign
    refine ⟨bytes.length, r1, ⟨hlt, hreads1⟩, 2 ^ 16 - 1 - bytes.length, r2, ⟨by omega, hreads2⟩, ?_⟩
    have hcomplement := (complement_iff hlt (show 2 ^ 16 - 1 - bytes.length < 2 ^ 16 by omega)).mpr rfl
    have hfits : r2.bit + 8 * bytes.length ≤ r2.limit := by
      have hwithin3 := hreads3.within (hreads2.end_within (cons_ne_nil _ _))
      rw [hreads3.after] at hwithin3
      change r2.bit + (bytesBits bytes).length ≤ r2.limit at hwithin3
      rwa [length_bytesBits] at hwithin3
    have hlimit : r2.limit < 2 ^ 32 := mod_lt _ (by decide)
    have hwrap : (r2.limit + 2 ^ 32 - bytes.length * 8) % 2 ^ 32 = r2.limit - bytes.length * 8 := by
      omega
    rw [hout', length_append] at hroom
    rw [if_neg, storedLoop_iff]
    · exact ⟨bytes, rfl, hout', hreads3⟩
    · rw [hwrap, hcomplement]
      omega

end Stored

section Blocks

variable {reader reader' : BitReader} {capacity : Nat} {out out' : List UInt8}

theorem natBits_one (bit : Bool) : natBits 1 bit.toNat = [bit] := by
  cases bit <;> rfl

/-- What a block is made of behind its first three bits, by its type. -/
theorem inflateBlock_eq {last : Bool} {type : Nat} {r1 r2 : BitReader}
    (htype : type < 4) (hlast : Reads reader [last] r1) (hreads : Reads r1 (natBits 2 type) r2) :
    inflateBlock capacity reader out =
      if type = 0 then
        (inflateStored capacity r2 out).map fun result => (last.toNat, result.1, result.2)
      else if type = 1 then
        (inflateSymbols capacity (treeOf fixedCodes.literal) (treeOf fixedCodes.distance) r2 out).map
          fun result => (last.toNat, result.1, result.2)
      else if type = 2 then
        (dynamicTrees r2).bind fun trees =>
          (inflateSymbols capacity trees.1 trees.2.1 trees.2.2 out).map
            fun result => (last.toNat, result.1, result.2)
      else none := by
  have hread1 : readBits reader 1 = some (last.toNat, r1) := by
    rw [readBits_natBits_iff (by decide), natBits_one]
    exact ⟨Bool.toNat_lt last, hlast⟩
  have hread2 : readBits r1 2 = some (type, r2) :=
    (readBits_natBits_iff (by decide)).mpr ⟨htype, hreads⟩
  simp only [inflateBlock, hread1, hread2, fixedTrees_eq, bind_eq_bind, bind_some]
  split_ifs
  · cases inflateStored capacity r2 out <;> rfl
  · cases inflateSymbols capacity (treeOf fixedCodes.literal) (treeOf fixedCodes.distance) r2 out <;>
      rfl
  · cases dynamicTrees r2 with
    | none => rfl
    | some trees =>
      obtain ⟨literalTree, distanceTree, r3⟩ := trees
      cases h : inflateSymbols capacity literalTree distanceTree r3 out <;> simp [h]
  · rfl

theorem map_result_iff {last final : Nat} {result : Option (BitReader × List UInt8)} :
    (result.map fun result => (last, result.1, result.2)) = some (final, reader', out') ↔
      last = final ∧ result = some (reader', out') := by
  cases result <;> simp [Prod.ext_iff]

/-- One pass of the block loop. -/
theorem inflateBlock_iff (hout : out.length ≤ capacity) {final : Nat} :
    inflateBlock capacity reader out = some (final, reader', out') ↔
      ∃ (last : Bool) (block : Block), final = last.toNat ∧ block.Valid reader.bit out ∧
        block.expand out = out' ∧ out'.length ≤ capacity ∧
        Reads reader (last :: block.bits) reader' := by
  have hposition {r1 r2 : BitReader} {last : Bool} {type : Nat} (hlast : Reads reader [last] r1)
      (hreads : Reads r1 (natBits 2 type) r2) : r2.bit = reader.bit + 3 := by
    rw [hreads.after, hlast.after]
    simp [Nat.add_assoc]
  constructor
  · intro h
    have hparts := h
    simp only [inflateBlock, bind_eq_bind, Option.bind_eq_some_iff, Prod.exists, readBits_natBits_iff,
      Nat.one_pos, Nat.ofNat_pos, reduceLeDiff, and_self] at hparts
    obtain ⟨value, r1, ⟨hlt1, hreads1⟩, type, r2, ⟨hlt2, hreads2⟩, -⟩ := hparts
    obtain ⟨last, rfl⟩ : ∃ last : Bool, value = last.toNat := by
      interval_cases value
      · exact ⟨false, rfl⟩
      · exact ⟨true, rfl⟩
    rw [natBits_one] at hreads1
    have hbit := hposition hreads1 hreads2
    have hjoin {bits : List Bool} (htail : Reads r2 bits reader') :
        Reads reader (last :: (natBits 2 type ++ bits)) reader' :=
      Reads.append_iff (a := [last]).mpr ⟨r1, hreads1, Reads.append_iff.mpr ⟨r2, hreads2, htail⟩⟩
    rw [inflateBlock_eq hlt2 hreads1 hreads2] at h
    split_ifs at h with h0 h1 h2
    · obtain ⟨rfl, hstored⟩ := map_result_iff.mp h
      obtain ⟨padding, bytes, hpad, halign, hlength, hout', hroom, htail⟩ :=
        (inflateStored_iff hout).mp hstored
      subst h0
      exact ⟨last, .stored padding bytes, rfl, ⟨hpad, by rwa [← hbit], hlength⟩, hout'.symm, hroom,
        hjoin htail⟩
    · obtain ⟨rfl, hsymbols⟩ := map_result_iff.mp h
      obtain ⟨tokens, htokens, hexpand, hroom, htail⟩ :=
        (inflateSymbols_iff fixedCodes_fits.1 fixedCodes_fits.2 hout).mp hsymbols
      subst h1
      exact ⟨last, .fixed tokens, rfl, htokens, hexpand, hroom, hjoin htail⟩
    · obtain ⟨⟨literalTree, distanceTree, r3⟩, htrees, h⟩ := Option.bind_eq_some_iff.mp h
      obtain ⟨rfl, hsymbols⟩ := map_result_iff.mp h
      obtain ⟨head, hvalid, rfl, rfl, hhead⟩ := dynamicTrees_iff.mp htrees
      obtain ⟨tokens, htokens, hexpand, hroom, htail⟩ :=
        (inflateSymbols_iff hvalid.literal_fits hvalid.distance_fits hout).mp hsymbols
      subst h2
      exact ⟨last, .dynamic head tokens, rfl, ⟨hvalid, htokens⟩, hexpand, hroom,
        hjoin (Reads.append_iff.mpr ⟨r3, hhead, htail⟩)⟩
  · rintro ⟨last, block, rfl, hvalid, hexpand, hroom, hreads⟩
    obtain ⟨r1, hlast, hreads⟩ := (Reads.append_iff (a := [last])).mp hreads
    cases block with
    | stored padding bytes =>
      obtain ⟨hpad, halign, hlength⟩ := hvalid
      obtain ⟨r2, (htype : Reads r1 (natBits 2 0) r2), htail⟩ := Reads.append_iff.mp hreads
      have hstored := (inflateStored_iff hout).mpr ⟨padding, bytes, hpad,
        by rwa [hposition hlast htype], hlength, hexpand.symm, hroom, htail⟩
      rw [inflateBlock_eq (by decide) hlast htype, if_pos rfl, hstored]
      rfl
    | fixed tokens =>
      obtain ⟨r2, (htype : Reads r1 (natBits 2 1) r2), htail⟩ := Reads.append_iff.mp hreads
      have hsymbols := (inflateSymbols_iff fixedCodes_fits.1 fixedCodes_fits.2 hout).mpr
        ⟨tokens, hvalid, hexpand, hroom, htail⟩
      rw [inflateBlock_eq (by decide) hlast htype, if_neg (by decide), if_pos rfl, hsymbols]
      rfl
    | dynamic head tokens =>
      obtain ⟨hhead, htokens⟩ := hvalid
      obtain ⟨r2, (htype : Reads r1 (natBits 2 2) r2), htail⟩ := Reads.append_iff.mp hreads
      obtain ⟨r3, hheadReads, htail⟩ := Reads.append_iff.mp htail
      have htrees := dynamicTrees_iff.mpr ⟨head, hhead, rfl, rfl, hheadReads⟩
      have hsymbols := (inflateSymbols_iff hhead.literal_fits hhead.distance_fits
        hout).mpr ⟨tokens, htokens, hexpand, hroom, htail⟩
      rw [inflateBlock_eq (by decide) hlast htype, if_neg (by decide), if_neg (by decide),
        if_pos rfl, htrees, bind_some, hsymbols]
      rfl

theorem isPrefix_blockExpand (block : Block) (out : List UInt8) : out <+: block.expand out := by
  cases block with
  | stored padding bytes => exact prefix_append _ _
  | fixed tokens => exact isPrefix_foldl_tokenExpand _ _
  | dynamic head tokens => exact isPrefix_foldl_tokenExpand _ _

theorem isPrefix_foldl_blockExpand (blocks : List Block) (out : List UInt8) :
    out <+: blocks.foldl Block.expand out :=
  foldlRecOn blocks _ (prefix_refl _) fun _ h block _ => h.trans (isPrefix_blockExpand block _)

/-- The block loop. By induction on the passes left; each reads a bit. -/
theorem inflateBlocks_iff (hout : out.length ≤ capacity) (hfuel : reader.rest.length < fuel) :
    inflateBlocks capacity fuel reader out = some (reader', out') ↔
      ∃ blocks, BlocksValid reader.bit out blocks ∧ blocks.foldl Block.expand out = out' ∧
        out'.length ≤ capacity ∧ Reads reader (blocksBits blocks) reader' := by
  induction fuel generalizing reader out with
  | zero => omega
  | succ fuel ih =>
    simp only [inflateBlocks, bind_eq_bind, Option.bind_eq_some_iff, Prod.exists, inflateBlock_iff hout]
    constructor
    · rintro ⟨_, r1, _, ⟨last, block, rfl, hvalid, rfl, hroom, hreads⟩, h⟩
      cases last with
      | true =>
        obtain ⟨rfl, rfl⟩ : r1 = reader' ∧ block.expand out = out' := by simpa using h
        exact ⟨[block], hvalid, rfl, hroom, hreads⟩
      | false =>
        have hrest := hreads.length_rest
        rw [length_cons] at hrest
        obtain ⟨blocks, hblocks, hexpand, hlength, htail⟩ :=
          (ih hroom (show r1.rest.length < fuel by omega)).mp (by simpa using h)
        cases blocks with
        | nil => exact hblocks.elim
        | cons next blocks =>
          refine ⟨block :: next :: blocks, ⟨hvalid, ?_⟩, hexpand, hlength, ?_⟩
          · rw [hreads.after] at hblocks
            simpa [Nat.add_assoc, Nat.add_comm 1] using hblocks
          · exact (Reads.append_iff (a := false :: block.bits)).mpr ⟨r1, hreads, htail⟩
    · rintro ⟨blocks, hblocks, hexpand, hlength, hreads⟩
      match blocks with
      | [] => exact hblocks.elim
      | [block] =>
        exact ⟨1, reader', out', ⟨true, block, rfl, hblocks, hexpand, hlength, hreads⟩, by simp⟩
      | block :: next :: blocks =>
        obtain ⟨hvalid, hblocks⟩ := hblocks
        obtain ⟨r1, hreads, htail⟩ := (Reads.append_iff (a := false :: block.bits)).mp hreads
        have hroom : (block.expand out).length ≤ capacity := by
          rw [← hexpand] at hlength
          exact (isPrefix_foldl_blockExpand (next :: blocks) _).length_le.trans hlength
        have hrest := hreads.length_rest
        rw [length_cons] at hrest
        refine ⟨0, r1, block.expand out, ⟨false, block, rfl, hvalid, rfl, hroom, hreads⟩, ?_⟩
        rw [if_pos rfl]
        refine (ih hroom (by omega)).mpr
          ⟨next :: blocks, ?_, hexpand, hlength, htail⟩
        rw [hreads.after]
        simpa [Nat.add_assoc, Nat.add_comm 1] using hblocks

end Blocks

end KernelBoot.Btrfs
