import KernelBoot.Laws.Btrfs.Inflate

/-!
# Laws of `btrfs_zlib_inflate`

The checks on the header and the checksum are those of the format, so a run that succeeds has read the
blocks of a zlib stream, and a stream is read when its bits are below the wrapped bit limit. The source
takes the checksum from the end of the input and not from where the last block ends; between the two
any bytes may stand. `btrfsZlibInflate_exact_iff` says for which inputs that makes no difference.
-/

namespace KernelBoot.Btrfs

open Lib Lib.Deflate List Nat

variable {out : List UInt8} (data : List UInt8)

section Checks

theorem zlibHeaderOk_iff (cmf flg : UInt8) : zlibHeaderOk cmf flg = true ↔ HeaderValid cmf flg := by
  have hcheck : cmf.toNat <<< 8 ||| flg.toNat = 256 * cmf.toNat + flg.toNat := by
    rw [lor_comm, lor_shiftLeft flg.toNat_lt]
    omega
  have hmethod : cmf.toNat &&& 0x0f = cmf.toNat % 16 := and_two_pow_sub_one_eq_mod _ 4
  have hdictionary : flg.toNat &&& 0x20 = 0 ↔ flg.toNat / 32 % 2 = 0 := by
    have hall : ∀ b : UInt8, b.toNat &&& 0x20 = 0 ↔ b.toNat / 32 % 2 = 0 := by decide +kernel
    exact hall flg
  rw [zlibHeaderOk, HeaderValid, decide_eq_true_eq, hcheck, hmethod, hdictionary,
    shiftRight_eq_div_pow]

/-- The two sums of `adler32` after some bytes, from any values they may have before. -/
theorem adlerLoop_eq (a b : Nat) : data.foldl (fun (p : Nat × Nat) byte =>
        ((p.1 + byte.toNat) % 65521, (p.2 + (p.1 + byte.toNat) % 65521) % 65521))
      (a % 65521, b % 65521) =
      ((a + (data.map UInt8.toNat).sum) % 65521,
        (b + data.length * a + weightedSum data) % 65521) := by
  induction data generalizing a b with
  | nil => simp [weightedSum]
  | cons byte data ih =>
    have hfirst : (a % 65521 + byte.toNat) % 65521 = (a + byte.toNat) % 65521 :=
      mod_add_mod _ _ _
    have hsecond : (b % 65521 + (a % 65521 + byte.toNat) % 65521) % 65521 =
        (b + (a + byte.toNat)) % 65521 := by
      rw [hfirst, ← add_mod]
    rw [foldl_cons, hsecond, hfirst, ih, map_cons, sum_cons, length_cons,
      weightedSum, Nat.add_assoc]
    congr 2
    ring

theorem adler32_eq : adler32 data = adler data := by
  have hloop : adlerLoop data = ((1 + (data.map UInt8.toNat).sum) % 65521,
      (data.length + weightedSum data) % 65521) := by
    have h := adlerLoop_eq data 1 0
    rw [Nat.zero_add, Nat.mul_one] at h
    exact h
  have hlow : (1 + (data.map UInt8.toNat).sum) % 65521 < 2 ^ 16 := by
    have h := mod_lt (1 + (data.map UInt8.toNat).sum) (show 0 < 65521 by omega)
    omega
  have hjoin : adler32 data = (adlerLoop data).2 <<< 16 ||| (adlerLoop data).1 := rfl
  rw [hjoin, hloop, adler, ← shiftLeft_add_eq_or_of_lt hlow, shiftLeft_eq]

theorem adler_lt : adler data < 2 ^ 32 := by
  unfold adler
  omega

/-- The number four bytes are compared as tells which bytes they are. -/
theorem beBytes_eq_iff (a b c d : UInt8) {n : Nat} (hn : n < 2 ^ 32) :
    a.toNat <<< 24 ||| b.toNat <<< 16 ||| c.toNat <<< 8 ||| d.toNat = n ↔ [a, b, c, d] = beBytes n := by
  have ha := a.toNat_lt
  have hb := b.toNat_lt
  have hc := c.toNat_lt
  have hd := d.toNat_lt
  simp only [shiftLeft_lor_bytes, leNat_cons, leNat_nil, beBytes, cons.injEq, and_true,
    ← UInt8.toNat_inj, UInt8.toNat_ofNat']
  omega

end Checks

section Streams

variable {input : List UInt8} {capacity : Nat} {blocks : List Block}

/-- The reader `btrfs_zlib_inflate` starts with. -/
def zlibReader (input : List UInt8) : BitReader :=
  { data := (input.drop 2).take (input.length - 6), bit := 0 }

theorem limit_zlibReader : (zlibReader input).limit = 8 * ((input.length - 6) % 2 ^ 29) := by
  rw [zlibReader, BitReader.limit, length_take, length_drop]
  omega

/-- An input split where the source splits it. -/
theorem zlib_split (input : List UInt8) (h : 6 ≤ input.length) :
    ∃ cmf flg a b c d, input = cmf :: flg :: ((zlibReader input).data ++ [a, b, c, d]) ∧
      input.getD 0 0 = cmf ∧ input.getD 1 0 = flg ∧
      zlibExpected input = a.toNat <<< 24 ||| b.toNat <<< 16 ||| c.toNat <<< 8 ||| d.toNat := by
  obtain ⟨cmf, flg, tail, rfl⟩ : ∃ cmf flg tail, input = cmf :: flg :: tail := by
    match input, h with
    | cmf :: flg :: tail, _ => exact ⟨cmf, flg, tail, rfl⟩
  have hdata : (zlibReader (cmf :: flg :: tail)).data = tail.take (tail.length - 4) := rfl
  have hlast : (tail.drop (tail.length - 4)).length = 4 := by
    simp only [length_cons] at h
    rw [length_drop]
    omega
  obtain ⟨a, b, c, d, hbytes⟩ : ∃ a b c d, tail.drop (tail.length - 4) = [a, b, c, d] := by
    match tail.drop (tail.length - 4), hlast with
    | [a, b, c, d], _ => exact ⟨a, b, c, d, rfl⟩
  have hget (i : Nat) (hi : i < 4) :
      (cmf :: flg :: tail).getD ((cmf :: flg :: tail).length - (4 - i)) 0 = [a, b, c, d].getD i 0 := by
    simp only [length_cons] at h ⊢
    rw [show tail.length + 1 + 1 - (4 - i) = tail.length - 4 + i + 1 + 1 by omega,
      getD_cons_succ, getD_cons_succ, ← hbytes, getD_eq_getElem?_getD,
      getD_eq_getElem?_getD, getElem?_drop]
  refine ⟨cmf, flg, a, b, c, d, ?_, rfl, rfl, ?_⟩
  · rw [hdata, ← hbytes, take_append_drop]
  · rw [zlibExpected, hget 0 (by omega), hget 1 (by omega), hget 2 (by omega), hget 3 (by omega)]
    rfl

/-- Blocks at the front of the data leave a gap of whole bytes. -/
theorem exists_deflated {data : List UInt8} (h : blocksBits blocks <+: bytesBits data) :
    ∃ gap, Deflated data blocks gap := by
  obtain ⟨tail, htail⟩ := h
  have hdrop : (tail.drop (tail.length % 8)).length = 8 * (tail.length / 8) := by
    rw [length_drop]
    omega
  obtain ⟨gap, hgap, -⟩ := exists_bytesBits _ _ hdrop
  refine ⟨gap, tail.take (tail.length % 8), ?_, ?_⟩
  · rw [length_take]
    omega
  · rw [← hgap, take_append_drop, htail]

theorem btrfsZlibInflate_eq_some_iff : btrfsZlibInflate input capacity = some out ↔
      ¬(input.length < 6 ∨ capacity = 0 ∨ zlibHeaderOk (input.getD 0 0) (input.getD 1 0) = false) ∧
        ∃ reader', inflateBlocks capacity ((zlibReader input).data.length * 8 + 1) (zlibReader input)
            [] = some (reader', out) ∧ adler32 out = zlibExpected input := by
  rw [btrfsZlibInflate]
  split_ifs with hguard
  · constructor
    · intro h
      cases h
    · rintro ⟨hnot, -⟩
      exact absurd hguard hnot
  · simp only [hguard, not_false_eq_true, true_and, Option.bind_eq_some_iff, Prod.exists]
    constructor
    · rintro ⟨reader', o, hblocks, hsum⟩
      split_ifs at hsum with hne
      cases hsum
      exact ⟨reader', hblocks, not_not.mp hne⟩
    · rintro ⟨reader', hblocks, hsum⟩
      exact ⟨reader', out, hblocks, if_neg (not_not.mpr hsum)⟩

/-- `btrfs_zlib_inflate` succeeds exactly on the zlib streams, with or without a gap, that have room
and whose blocks are below the bit limit; it returns their expansion. -/
theorem btrfsZlibInflate_iff : btrfsZlibInflate input capacity = some out ↔
      0 < capacity ∧ ∃ blocks gap, Framed input blocks gap ∧ expandBlocks blocks = out ∧
        out.length ≤ capacity ∧ (blocksBits blocks).length ≤ 8 * ((input.length - 6) % 2 ^ 29) := by
  have hfuel : (zlibReader input).rest.length < (zlibReader input).data.length * 8 + 1 := by
    have hlimit := (zlibReader input).limit_le
    rw [BitReader.length_rest]
    omega
  have hrest : (zlibReader input).rest =
      (bytesBits (zlibReader input).data).take (8 * ((input.length - 6) % 2 ^ 29)) := by
    rw [BitReader.rest, limit_zlibReader]
    rfl
  constructor
  · intro h
    obtain ⟨hguard, reader', hblocks, hsum⟩ := btrfsZlibInflate_eq_some_iff.mp h
    obtain ⟨blocks, hvalid, hexpand, hroom, hreads⟩ :=
      (inflateBlocks_iff (Nat.zero_le _) hfuel).mp hblocks
    have hpre := hreads.isPrefix
    rw [hrest] at hpre
    obtain ⟨gap, hgap⟩ := exists_deflated (hpre.trans ( take_prefix _ _))
    obtain ⟨cmf, flg, a, b, c, d, hinput, hcmf, hflg, hexpected⟩ :=
      zlib_split input (by omega)
    have hheader : zlibHeaderOk cmf flg = true := by
      rw [← hcmf, ← hflg]
      by_contra hbad
      exact hguard (.inr (.inr (by simpa using hbad)))
    have hbytes : [a, b, c, d] = beBytes (adler (expandBlocks blocks)) := by
      rw [← beBytes_eq_iff _ _ _ _ (adler_lt _), ← hexpected, ← hsum, adler32_eq, ← hexpand]
      rfl
    refine ⟨by omega, blocks, gap, ⟨hvalid, cmf, flg, _, (zlibHeaderOk_iff _ _).mp hheader, hgap, ?_⟩,
      hexpand, hroom, ?_⟩
    · rw [← hbytes]
      exact hinput
    · exact hpre.length_le.trans (length_take_le _ _)
  · rintro ⟨hcapacity, blocks, gap, ⟨hvalid, cmf, flg, data, hheader, ⟨padding, -, hdata⟩, hinput⟩,
      rfl, hroom, hlimit⟩
    have hlength : input.length = data.length + 6 := by
      rw [hinput, length_cons, length_cons, length_append]
      rfl
    have hreader : (zlibReader input).data = data := by
      change (input.drop 2).take (input.length - 6) = data
      rw [hlength, hinput, Nat.add_sub_cancel]
      exact take_left
    obtain ⟨cmf', flg', a, b, c, d, hinput', hcmf, hflg, hexpected⟩ :=
      zlib_split input (by omega)
    have hsplit := hinput.symm.trans hinput'
    rw [hreader] at hsplit
    obtain ⟨rfl, rfl, htail⟩ : cmf = cmf' ∧ flg = flg' ∧ _ := by simpa using hsplit
    have hbits : blocksBits blocks <+: (zlibReader input).rest := by
      rw [hrest, hreader, hdata, prefix_take_iff]
      exact ⟨prefix_append _ _, hlimit⟩
    have hblocks := (inflateBlocks_iff (Nat.zero_le _) hfuel).mpr
      ⟨blocks, hvalid, rfl, hroom, hbits, rfl⟩
    have hsum : adler32 (expandBlocks blocks) = zlibExpected input := by
      rw [hexpected, adler32_eq, eq_comm, beBytes_eq_iff _ _ _ _ (adler_lt _), htail]
    have hok : zlibHeaderOk cmf flg = true := (zlibHeaderOk_iff _ _).mpr hheader
    have hguard : ¬(input.length < 6 ∨ capacity = 0 ∨
        zlibHeaderOk (input.getD 0 0) (input.getD 1 0) = false) := by
      rw [hcmf, hflg, hok]
      simp
      omega
    exact btrfsZlibInflate_eq_some_iff.mpr ⟨hguard, _, hblocks, hsum⟩

/-- An input is a stream of one list of blocks with one gap at most. -/
theorem Framed.unique {blocks' : List Block} {gap gap' : List UInt8} (h : Framed input blocks gap)
    (h' : Framed input blocks' gap') : blocks = blocks' ∧ gap = gap' := by
  obtain ⟨hvalid, cmf, flg, data, -, hdata, rfl⟩ := h
  obtain ⟨hvalid', cmf', flg', data', -, hdata', hinput⟩ := h'
  have htail := (cons.inj (cons.inj hinput).2).2
  obtain ⟨rfl, -⟩ := append_inj' htail (by simp [beBytes])
  exact Deflated.unique hvalid hvalid' hdata hdata'

/-- For which inputs `btrfs_zlib_inflate` decodes exactly the zlib streams: read as blocks, a gap and
the checksum of their expansion, with room for it, there is no gap just when there is a capacity at all
and the blocks are below the bit limit. -/
theorem btrfsZlibInflate_exact_iff (input : List UInt8) (capacity : Nat) :
    ((∀ blocks, Framed input blocks [] → (expandBlocks blocks).length ≤ capacity →
        btrfsZlibInflate input capacity = some (expandBlocks blocks)) ∧
      ∀ out, btrfsZlibInflate input capacity = some out →
        ∃ blocks, Framed input blocks [] ∧ expandBlocks blocks = out) ↔
      ∀ blocks gap, Framed input blocks gap → (expandBlocks blocks).length ≤ capacity →
        (gap = [] ↔ 0 < capacity ∧
          (blocksBits blocks).length ≤ 8 * ((input.length - 6) % 2 ^ 29)) := by
  constructor
  · rintro ⟨hdecodes, honly⟩ blocks gap hframed hroom
    constructor
    · rintro rfl
      obtain ⟨hcapacity, blocks', gap', hframed', -, -, hlimit⟩ :=
        btrfsZlibInflate_iff.mp (hdecodes blocks hframed hroom)
      obtain ⟨rfl, -⟩ := Framed.unique hframed hframed'
      exact ⟨hcapacity, hlimit⟩
    · rintro ⟨hcapacity, hlimit⟩
      obtain ⟨blocks', hframed', -⟩ := honly _ (btrfsZlibInflate_iff.mpr
        ⟨hcapacity, blocks, gap, hframed, rfl, hroom, hlimit⟩)
      exact (Framed.unique hframed hframed').2
  · intro h
    constructor
    · intro blocks hframed hroom
      obtain ⟨hcapacity, hlimit⟩ := (h blocks [] hframed hroom).mp rfl
      exact btrfsZlibInflate_iff.mpr ⟨hcapacity, blocks, [], hframed, rfl, hroom, hlimit⟩
    · intro out hout
      obtain ⟨hcapacity, blocks, gap, hframed, rfl, hroom, hlimit⟩ := btrfsZlibInflate_iff.mp hout
      obtain rfl := (h blocks gap hframed hroom).mpr ⟨hcapacity, hlimit⟩
      exact ⟨blocks, hframed, rfl⟩

/-- A stored block with `abc`, then two bytes, then the checksum of `abc`. -/
def gapStream : List UInt8 :=
  [0x78, 0x01, 0x01, 0x03, 0x00, 0xfc, 0xff, 97, 98, 99, 7, 7, 0x02, 0x4d, 0x01, 0x27]

/-- The stream with the gap is accepted, though it is no zlib stream without one. -/
theorem gapStream_accepted :
    btrfsZlibInflate gapStream 10 = some [97, 98, 99] ∧ ¬∃ blocks, Framed gapStream blocks [] := by
  have hframed : Framed gapStream [.stored [false, false, false, false, false] [97, 98, 99]] [7, 7] :=
    ⟨⟨by decide, by decide, by decide⟩, 0x78, 0x01,
      [0x01, 0x03, 0x00, 0xfc, 0xff, 97, 98, 99, 7, 7], ⟨by decide, by decide, by decide, by decide⟩, ⟨[], by decide, by
        decide +kernel⟩, by decide +kernel⟩
  refine ⟨by decide +kernel, ?_⟩
  rintro ⟨blocks, h⟩
  cases (Framed.unique hframed h).2

end Streams

end KernelBoot.Btrfs
