import KernelBoot.Lib.ZstdFrame
import KernelBoot.Laws.Btrfs.Xxhash

/-!
# Laws of Zstandard decompression

On a frame of raw blocks the block loop reads back the blocks, and the checksum agrees. The header is
read with the dictionary flag, which is zero here, in the place of the content size flag: the source
always takes one byte for the size of a single segment and no size field otherwise, so a frame that
has a longer field has the rest of the field read as blocks.
-/

namespace KernelBoot.Btrfs

open Lib Lib.ZstdFrame List Descriptor Frame

variable {fuel : Nat} {d : Descriptor}
variable {blocks : List (List UInt8)} {rest : List UInt8} (f : Frame)

variable {σ : Type} {decode : (block output : List UInt8) → (capacity : Nat) → σ →
  Option (List UInt8 × σ)}

section Blocks

variable {capacity : Nat} {out rest : List UInt8} {history : σ}

/-- A pass over a header that says raw. -/
theorem zstdBlock_raw {n : Nat} (hn : n < 256 ^ 3) (hraw : n / 2 % 4 = 0) :
    zstdBlock decode capacity ⟨leBytes 3 n ++ rest, out, history⟩ =
      if capacity - out.length < n / 8 ∨ rest.length < n / 8 then none
      else some (decide (n % 2 ≠ 0), ⟨rest.drop (n / 8), out ++ rest.take (n / 8), history⟩) := by
  obtain ⟨b0, b1, b2, hbytes⟩ : ∃ b0 b1 b2, leBytes 3 n = [b0, b1, b2] := ⟨_, _, _, rfl⟩
  have hheader : b0.toNat ||| b1.toNat <<< 8 ||| b2.toNat <<< 16 = n := by
    have hread := leNat_leBytes 3 n
    rw [hbytes, Nat.mod_eq_of_lt hn] at hread
    have hfour := le32_eq [b0, b1, b2]
    simpa [le32, hread] using hfour
  have htype : (n >>> 1) &&& 3 = 0 := by
    rw [Nat.shiftRight_eq_div_pow]
    exact (Nat.and_two_pow_sub_one_eq_mod (n / 2) 2).trans hraw
  have hlast : n &&& 1 = n % 2 := Nat.and_two_pow_sub_one_eq_mod n 1
  have hsize : n >>> 3 = n / 8 := Nat.shiftRight_eq_div_pow n 3
  simp [zstdBlock, hbytes, hheader, htype, hlast, hsize]

theorem zstdBlock_rawBlock (last : Bool) {block : List UInt8} (hblock : block.length < 2 ^ 21)
    (hroom : out.length + block.length ≤ capacity) :
    zstdBlock decode capacity ⟨rawBlock last block ++ rest, out, history⟩ =
      some (last, ⟨rest, out ++ block, history⟩) := by
  have hlast : last.toNat < 2 := Bool.toNat_lt last
  have hsize : (last.toNat + 8 * block.length) / 8 = block.length := by omega
  have hflag : decide ((last.toNat + 8 * block.length) % 2 ≠ 0) = last := by
    cases last <;> simp <;> omega
  rw [rawBlock, append_assoc, zstdBlock_raw (by omega) (by omega), hsize, hflag,
    if_neg (by rw [length_append]; omega), drop_left, take_left]

/-- The block loop on raw blocks, by induction on the blocks. -/
theorem zstdBlocks_rawBlocks (hne : blocks ≠ []) (hblocks : ∀ block ∈ blocks, block.length < 2 ^ 21)
    (hroom : out.length + blocks.flatten.length ≤ capacity) (hfuel : blocks.length ≤ fuel) :
    zstdBlocks decode capacity fuel ⟨rawBlocks blocks ++ rest, out, history⟩ =
      some ⟨rest, out ++ blocks.flatten, history⟩ := by
  induction blocks generalizing out fuel with
  | nil => exact absurd rfl hne
  | cons block blocks ih =>
    obtain ⟨fuel, rfl⟩ := Nat.exists_eq_add_of_le' (Nat.le_trans (by simp) hfuel : 1 ≤ fuel)
    have hblock := hblocks block mem_cons_self
    rw [flatten_cons, length_append] at hroom
    have hfits : out.length + block.length ≤ capacity := by omega
    cases blocks with
    | nil =>
      simp only [rawBlocks, zstdBlocks, zstdBlock_rawBlock true hblock hfits, flatten_cons,
        flatten_nil, append_nil]
    | cons next blocks =>
      have htail : (out ++ block).length + (next :: blocks).flatten.length ≤ capacity := by
        rw [length_append]
        omega
      simp only [rawBlocks, append_assoc, zstdBlocks, zstdBlock_rawBlock false hblock hfits]
      rw [ih (cons_ne_nil _ _) (fun b hb => hblocks b (mem_cons_of_mem _ hb)) htail
        (by simpa using hfuel), append_assoc]
      rfl

theorem length_le_rawBlocks (blocks : List (List UInt8)) :
    blocks.length ≤ (rawBlocks blocks).length := by
  induction blocks with
  | nil => simp
  | cons block blocks ih =>
    cases blocks with
    | nil => simp [rawBlocks, rawBlock]; omega
    | cons next blocks =>
      simp only [rawBlocks, rawBlock, length_append, length_cons, length_leBytes] at ih ⊢
      omega

end Blocks

section Frames

variable {capacity : Nat} {initial : σ}

theorem descriptor_bits (d : Descriptor) :
    d.byte.toNat &&& 8 = 0 ∧ (d.byte.toNat >>> 5) &&& 1 = d.singleSegment.toNat ∧
      (d.byte.toNat >>> 2) &&& 1 = d.checksum.toNat ∧ d.byte.toNat &&& 3 = 0 := by
  obtain ⟨flag, single, checksum⟩ := d
  cases flag <;> cases single <;> cases checksum <;> decide

/-- The checksum of a frame is accepted. -/
theorem zstdFinish_trailer {size : Nat} (hsize : size = 0 ∨ size = f.content.length) (history : σ) :
    zstdFinish f.descriptor.checksum.toNat size ⟨f.trailer, f.content, history⟩ =
      some f.content := by
  have hcontent : ¬(size ≠ 0 ∧ size ≠ f.content.length) := by omega
  by_cases h : f.descriptor.checksum
  · have hread : le32 (leBytes 4 (Xxh64.xxh64 0 f.content).toNat) = zstdXxhash32 f.content := by
      rw [le32_eq, take_of_length_le (length_leBytes 4 _).le, leNat_leBytes, zstdXxhash32_eq,
        show (256 : Nat) ^ 4 = 2 ^ 32 by norm_num]
    have hdrop : (leBytes 4 (Xxh64.xxh64 0 f.content).toNat).drop 4 = [] :=
      drop_eq_nil_of_le (length_leBytes 4 _).le
    simp [zstdFinish, trailer, h, hread, hdrop, hcontent]
  · simp [zstdFinish, trailer, h, hcontent]

/-- The first byte the source takes for the content size. -/
def sizeRead (f : Frame) : Nat :=
  if f.descriptor.singleSegment then
    ((f.descriptor.contentSize f.content.length).getD 0 0).toNat
  else 0

/-- What the source takes for the blocks: all behind the header it expects. -/
def blocksRead (f : Frame) : List UInt8 :=
  (f.descriptor.contentSize f.content.length).drop f.descriptor.singleSegment.toNat ++
    (rawBlocks f.blocks ++ f.trailer)

theorem contentSize_ne_nil (d : Descriptor) (n : Nat) (h : d.singleSegment = true) :
    d.contentSize n ≠ [] := by
  obtain ⟨flag, single, checksum⟩ := d
  cases flag <;> simp_all [contentSize, leBytes]

theorem rawBlocks_length_pos (h : blocks ≠ []) : 0 < (rawBlocks blocks).length :=
  Nat.lt_of_lt_of_le (length_pos_of_ne_nil h) (length_le_rawBlocks blocks)

/-- The header as the source reads it. -/
theorem btrfsZstdDecompress_encode (hcapacity : 0 < capacity) :
    btrfsZstdDecompress decode initial f.encode capacity =
      if capacity < sizeRead f then none
      else (zstdBlocks decode capacity f.encode.length ⟨blocksRead f, [], initial⟩).bind
        (zstdFinish f.descriptor.checksum.toNat (sizeRead f)) := by
  obtain ⟨hreserved, hsingle, hchecksum, hflag⟩ := descriptor_bits f.descriptor
  have hpos := rawBlocks_length_pos f.nonempty
  have hmagic : le32 f.encode = 0xfd2fb528 := by
    simp [le32, encode, magic]
  have hdescriptor : f.encode.getD 4 0 = f.descriptor.byte := by
    simp [encode, magic]
  have hencode : f.encode.length = 5 + ((1 - f.descriptor.singleSegment.toNat) +
      ((f.descriptor.contentSize f.content.length).length +
        ((rawBlocks f.blocks).length + f.trailer.length))) := by
    cases h : f.descriptor.singleSegment <;> simp [encode, magic, h] <;> omega
  cases h : f.descriptor.singleSegment with
  | true =>
    obtain ⟨byte, field, hfield⟩ :=
      exists_cons_of_ne_nil (contentSize_ne_nil f.descriptor f.content.length h)
    have hstart : ¬(f.encode.length < 6 ∨ capacity = 0 ∨ le32 f.encode ≠ 0xfd2fb528) := by
      rw [hfield, length_cons] at hencode
      omega
    have hdrop : f.encode.drop 5 = byte :: (field ++ (rawBlocks f.blocks ++ f.trailer)) := by
      simp [encode, magic, h, hfield]
    have hbody : f.encode.drop 6 = blocksRead f := by
      simp [encode, magic, blocksRead, h, hfield]
    have hsize : sizeRead f = byte.toNat := by simp [sizeRead, h, hfield]
    rw [btrfsZstdDecompress, if_neg hstart]
    simp [-getD_eq_getElem?_getD, hdescriptor, hreserved, hsingle, hchecksum, hflag, h, hdrop,
      hbody, hsize, frameContentSize, if_neg (show ¬f.encode.length ≤ 5 by omega), getD_cons_zero]
  | false =>
    have hstart : ¬(f.encode.length < 6 ∨ capacity = 0 ∨ le32 f.encode ≠ 0xfd2fb528) := by
      rw [h] at hencode
      simp at hencode
      omega
    have hbody : f.encode.drop 6 = blocksRead f := by
      simp [encode, magic, blocksRead, h]
    have hsize : sizeRead f = 0 := by simp [sizeRead, h]
    rw [btrfsZstdDecompress, if_neg hstart]
    simp [-getD_eq_getElem?_getD, hdescriptor, hreserved, hsingle, hchecksum, hflag, h, hbody,
      hsize, frameContentSize]
    intro hshort
    omega

theorem block_length_lt : ∀ block ∈ f.blocks, block.length < 2 ^ 21 := by
  intro block hblock
  have hmax := f.bounded block hblock
  have hlimit : blockMaximum f.descriptor f.window f.blocks.flatten.length ≤ 128 * 1024 :=
    min_le_right _ _
  omega

/-- Three zero bytes are an empty block that is not the last. -/
theorem zstdBlocks_zeros {history : σ} :
    zstdBlocks decode capacity (fuel + 1) ⟨0 :: 0 :: 0 :: rest, [], history⟩ =
      zstdBlocks decode capacity fuel ⟨rest, [], history⟩ := by
  have hblock : zstdBlock decode capacity ⟨leBytes 3 0 ++ rest, [], history⟩ =
      some (false, ⟨rest, [], history⟩) := by
    rw [zstdBlock_raw (by omega) rfl]
    simp
  rw [show 0 :: 0 :: 0 :: rest = leBytes 3 0 ++ rest from rfl]
  rw [zstdBlocks, hblock]

/-- Where the source stands at the blocks, with a size it can live with, the content comes out. -/
theorem decompress_of_blocksRead (skipped : List UInt8) (hcapacity : 0 < capacity)
    (hcontent : f.content.length ≤ capacity)
    (hsize : sizeRead f = 0 ∨ sizeRead f = f.content.length)
    (hread : blocksRead f = skipped ++ (rawBlocks f.blocks ++ f.trailer))
    (hskipped : skipped = [] ∨ skipped = [0, 0, 0]) :
    btrfsZstdDecompress decode initial f.encode capacity = some f.content := by
  have hblocks (fuel : Nat) (hfuel : f.blocks.length ≤ fuel) :
      zstdBlocks decode capacity fuel ⟨rawBlocks f.blocks ++ f.trailer, [], initial⟩ =
        some ⟨f.trailer, f.content, initial⟩ := by
    rw [zstdBlocks_rawBlocks f.nonempty (block_length_lt f)
      ((Nat.zero_add _).trans_le hcontent) hfuel, nil_append]
    rfl
  have hlength : f.blocks.length + 4 ≤ f.encode.length := by
    have hraw := length_le_rawBlocks f.blocks
    simp only [encode, magic, length_append, length_cons]
    omega
  rw [btrfsZstdDecompress_encode f hcapacity, if_neg (by omega), hread]
  rcases hskipped with rfl | rfl
  · rw [nil_append, hblocks _ (by omega), Option.bind_some]
    exact zstdFinish_trailer f hsize initial
  · obtain ⟨fuel, hfuel⟩ := Nat.exists_eq_add_of_le' (by omega : 1 ≤ f.encode.length)
    rw [hfuel, cons_append, cons_append, cons_append, nil_append,
      zstdBlocks_zeros, hblocks fuel (by omega), Option.bind_some]
    exact zstdFinish_trailer f hsize initial

theorem windowSize_zero : windowSize 0 = 1024 := rfl

/-- A frame without content: one last block of size zero. -/
def emptyFrame (d : Descriptor) (h : d.contentSizeFlag ≠ .flag1) : Frame where
  descriptor := d
  window := 0
  blocks := [[]]
  nonempty := cons_ne_nil _ _
  holds := by
    obtain ⟨flag, single, checksum⟩ := d
    cases flag <;> simp_all [Descriptor.Holds]
  bounded := by simp

/-- 256 zero bytes. -/
def zeroBytes : List UInt8 := List.replicate 256 0

theorem length_zeroBytes : zeroBytes.length = 256 := length_replicate

theorem flatten_zeroBytes : [zeroBytes].flatten = zeroBytes := by
  rw [flatten_cons, flatten_nil, append_nil]

/-- A frame of 256 zero bytes in one block. -/
def zeroFrame (d : Descriptor) (h : d.contentSizeFlag = .flag1 ∨ d.contentSizeFlag = .flag2) :
    Frame where
  descriptor := d
  window := 0
  blocks := [zeroBytes]
  nonempty := cons_ne_nil _ _
  holds := by
    rw [flatten_zeroBytes, length_zeroBytes]
    rcases h with h | h <;> simp [Descriptor.Holds, h]
  bounded := by
    rw [flatten_zeroBytes, length_zeroBytes]
    intro block hblock
    rw [mem_singleton.mp hblock, length_zeroBytes]
    cases hsingle : d.singleSegment <;> simp [blockMaximum, hsingle, windowSize_zero]

theorem length_content_zeroFrame (h : d.contentSizeFlag = .flag1 ∨ d.contentSizeFlag = .flag2) :
    (zeroFrame d h).content.length = 256 := by
  rw [content, zeroFrame, flatten_zeroBytes, length_zeroBytes]

theorem rawBlocks_zeroFrame (h : d.contentSizeFlag = .flag1 ∨ d.contentSizeFlag = .flag2) :
    rawBlocks (zeroFrame d h).blocks = 1 :: 8 :: 0 :: zeroBytes := by
  rw [zeroFrame, rawBlocks, rawBlock, length_zeroBytes]
  rfl

theorem trailer_length_le : f.trailer.length ≤ 4 := by
  unfold trailer
  split <;> simp

/-- A block header that says more than is left ends the loop. -/
theorem zstdBlocks_too_long {n : Nat} {out : List UInt8} {history : σ} (hlong : rest.length < n / 8)
    (hn : n < 256 ^ 3 := by omega) (hraw : n / 2 % 4 = 0 := by omega) :
    zstdBlocks decode capacity fuel ⟨leBytes 3 n ++ rest, out, history⟩ = none := by
  cases fuel with
  | zero => rfl
  | succ fuel => rw [zstdBlocks, zstdBlock_raw hn hraw, if_pos (.inr hlong)]

/-- With a size field of eight bytes, or of four outside a single segment, the last bytes of the field
and the first of the block make up a header that says too much. -/
theorem emptyFrame_refused (hne : d.contentSizeFlag ≠ .flag1) (hcapacity : 0 < capacity)
    (h : d.contentSizeFlag = .flag3 ∨ d.contentSizeFlag = .flag2 ∧ d.singleSegment = false) :
    btrfsZstdDecompress decode initial (emptyFrame d hne).encode capacity = none := by
  have htrailer := trailer_length_le (emptyFrame d hne)
  have hblocks : rawBlocks (emptyFrame d hne).blocks = [1, 0, 0] := rfl
  have hsize : sizeRead (emptyFrame d hne) = 0 := by
    rcases h with h | h <;>
      simp [sizeRead, emptyFrame, content, contentSize, h, leBytes]
  obtain ⟨fuel, hfuel⟩ : ∃ fuel, (emptyFrame d hne).encode.length = fuel + 2 :=
    Nat.exists_eq_add_of_le' (by simp [encode, magic])
  have hnone : zstdBlocks decode capacity (fuel + 2) ⟨blocksRead (emptyFrame d hne), [], initial⟩ =
      none := by
    rcases h with h | ⟨h, hsingle⟩
    · cases hsingle : d.singleSegment with
      | true =>
        have hread : blocksRead (emptyFrame d hne) = 0 :: 0 :: 0 :: 0 :: 0 :: 0 ::
            (leBytes 3 256 ++ 0 :: (emptyFrame d hne).trailer) := by
          rw [blocksRead, hblocks]
          simp [emptyFrame, content, contentSize, h, hsingle, leBytes]
        rw [hread, zstdBlocks_zeros, zstdBlocks_zeros, zstdBlocks_too_long (by rw [length_cons]; omega)]
      | false =>
        have hread : blocksRead (emptyFrame d hne) = 0 :: 0 :: 0 :: 0 :: 0 :: 0 ::
            (leBytes 3 65536 ++ 0 :: 0 :: (emptyFrame d hne).trailer) := by
          rw [blocksRead, hblocks]
          simp [emptyFrame, content, contentSize, h, hsingle, leBytes]
        rw [hread, zstdBlocks_zeros, zstdBlocks_zeros,
          zstdBlocks_too_long (by rw [length_cons, length_cons]; omega)]
    · have hread : blocksRead (emptyFrame d hne) = 0 :: 0 :: 0 ::
          (leBytes 3 256 ++ 0 :: (emptyFrame d hne).trailer) := by
        rw [blocksRead, hblocks]
        simp [emptyFrame, content, contentSize, h, hsingle, leBytes]
      rw [hread, zstdBlocks_zeros, zstdBlocks_too_long (by rw [length_cons]; omega)]
  rw [btrfsZstdDecompress_encode _ hcapacity, hfuel, hsize, if_neg (Nat.not_lt_zero _), hnone]
  rfl

/-- More than a checksum behind the last block is refused. -/
theorem zstdFinish_too_much {checksum size : Nat} {s : Zstd σ} (h : 4 < s.input.length) :
    zstdFinish checksum size s = none := by
  have hdrop : s.input.drop 4 ≠ [] := by
    apply ne_nil_of_length_pos
    rw [length_drop]
    omega
  have hinput : s.input ≠ [] := ne_nil_of_length_pos (by omega)
  by_cases hchecksum : checksum = 0 <;> simp [zstdFinish, hchecksum, hdrop, hinput]

/-- With a size field of two bytes, or of four in a single segment, 256 bytes of content do not come
out: the field is read as part of a header that says too much, or as an empty last block. -/
theorem zeroFrame_refused (hflag : d.contentSizeFlag = .flag1 ∨ d.contentSizeFlag = .flag2)
    (hcapacity : 0 < capacity) (h : d.contentSizeFlag = .flag1 ∨ d.singleSegment = true) :
    btrfsZstdDecompress decode initial (zeroFrame d hflag).encode capacity = none := by
  have htrailer := trailer_length_le (zeroFrame d hflag)
  have hcontent := length_content_zeroFrame hflag
  have hblocks := rawBlocks_zeroFrame hflag
  have hsize : sizeRead (zeroFrame d hflag) = 0 := by
    rw [sizeRead, hcontent]
    rcases hflag with hflag | hflag <;> simp [zeroFrame, contentSize, hflag, leBytes]
  obtain ⟨fuel, hfuel⟩ : ∃ fuel, (zeroFrame d hflag).encode.length = fuel + 1 :=
    Nat.exists_eq_add_of_le' (by simp [encode, magic])
  rw [btrfsZstdDecompress_encode _ hcapacity, hfuel, hsize, if_neg (Nat.not_lt_zero _)]
  have hfield := hflag
  rcases hfield with hone | htwo
  · cases hsingle : d.singleSegment with
    | true =>
      have hread : blocksRead (zeroFrame d hflag) =
          leBytes 3 0x080100 ++ 0 :: (zeroBytes ++ (zeroFrame d hflag).trailer) := by
        rw [blocksRead, hcontent, hblocks]
        simp [zeroFrame, contentSize, hone, hsingle, leBytes]
      rw [hread, zstdBlocks_too_long (by rw [length_cons, length_append, length_zeroBytes]; omega)]
      rfl
    | false =>
      have hread : blocksRead (zeroFrame d hflag) =
          leBytes 3 65536 ++ 8 :: 0 :: (zeroBytes ++ (zeroFrame d hflag).trailer) := by
        rw [blocksRead, hcontent, hblocks]
        simp [zeroFrame, contentSize, hone, hsingle, leBytes]
      rw [hread, zstdBlocks_too_long
        (by rw [length_cons, length_cons, length_append, length_zeroBytes]; omega)]
      rfl
  · have hsingle : d.singleSegment = true := by simpa [htwo] using h
    have hread : blocksRead (zeroFrame d hflag) =
        leBytes 3 1 ++ 1 :: 8 :: 0 :: (zeroBytes ++ (zeroFrame d hflag).trailer) := by
      rw [blocksRead, hcontent, hblocks]
      simp [zeroFrame, contentSize, htwo, hsingle, leBytes]
    rw [hread, zstdBlocks, zstdBlock_raw (by omega) (by omega), if_neg (by omega)]
    apply zstdFinish_too_much
    simp [length_zeroBytes]
    omega

/-- Exactly when every frame with this descriptor decodes, at this capacity: the content size flag is
zero and there is a capacity at all; or no content of a size the source misreads can be held. -/
theorem btrfsZstdDecompress_all_iff (decode : (block output : List UInt8) → (capacity : Nat) → σ →
    Option (List UInt8 × σ)) (initial : σ) (d : Descriptor) (capacity : Nat) :
    (∀ f : Frame, f.descriptor = d → f.content.length ≤ capacity →
      btrfsZstdDecompress decode initial f.encode capacity = some f.content) ↔
      d.contentSizeFlag = .flag0 ∧ 0 < capacity ∨
        d.contentSizeFlag = .flag1 ∧ capacity < 256 ∨
        d.contentSizeFlag = .flag2 ∧ d.singleSegment = true ∧ 0 < capacity ∧ capacity < 256 := by
  constructor
  · intro hall
    have hempty (hne : d.contentSizeFlag ≠ .flag1) :
        btrfsZstdDecompress decode initial (emptyFrame d hne).encode capacity = some [] :=
      hall (emptyFrame d hne) rfl (Nat.zero_le _)
    have hpos (hne : d.contentSizeFlag ≠ .flag1) : 0 < capacity := by
      by_contra hzero
      have hnone : btrfsZstdDecompress decode initial (emptyFrame d hne).encode capacity = none :=
        if_pos (.inr (.inl (by omega)))
      rw [hempty hne] at hnone
      cases hnone
    have hsmall (hflag : d.contentSizeFlag = .flag1 ∨ d.contentSizeFlag = .flag2)
        (h : d.contentSizeFlag = .flag1 ∨ d.singleSegment = true) : capacity < 256 := by
      by_contra hlarge
      have hlength := length_content_zeroFrame hflag
      have hsome := hall (zeroFrame d hflag) rfl (by omega)
      rw [zeroFrame_refused hflag (by omega) h] at hsome
      cases hsome
    cases hflag : d.contentSizeFlag with
    | flag0 => exact .inl ⟨rfl, hpos (by simp [hflag])⟩
    | flag1 => exact .inr (.inl ⟨rfl, hsmall (.inl hflag) (.inl hflag)⟩)
    | flag2 =>
      have hne : d.contentSizeFlag ≠ .flag1 := by simp [hflag]
      cases hsingle : d.singleSegment with
      | true => exact .inr (.inr ⟨rfl, rfl, hpos hne, hsmall (.inr hflag) (.inr hsingle)⟩)
      | false =>
        have hsome := hempty hne
        rw [emptyFrame_refused hne (hpos hne) (.inr ⟨hflag, hsingle⟩)] at hsome
        cases hsome
    | flag3 =>
      have hne : d.contentSizeFlag ≠ .flag1 := by simp [hflag]
      have hsome := hempty hne
      rw [emptyFrame_refused hne (hpos hne) (.inl hflag)] at hsome
      cases hsome
  · intro h f hdescriptor hlength
    have hholds := f.holds
    rw [hdescriptor] at hholds
    rcases h with ⟨hflag, hcapacity⟩ | ⟨hflag, hcapacity⟩ | ⟨hflag, hsingle, hpos, hcapacity⟩
    · cases hsingle : d.singleSegment with
      | true =>
        have hlt : f.content.length < 256 := by
          rw [Holds, hflag] at hholds
          exact hholds hsingle
        apply decompress_of_blocksRead f [] hcapacity hlength _ _ (.inl rfl)
        · right
          simp [sizeRead, hdescriptor, hsingle, contentSize, hflag, leBytes]
          omega
        · simp [blocksRead, hdescriptor, hsingle, contentSize, hflag, leBytes]
      | false =>
        apply decompress_of_blocksRead f [] hcapacity hlength _ _ (.inl rfl)
        · left
          simp [sizeRead, hdescriptor, hsingle]
        · simp [blocksRead, hdescriptor, hsingle, contentSize, hflag]
    · rw [Holds, hflag] at hholds
      have hmin : 256 ≤ f.content.length := hholds.1
      omega
    · apply decompress_of_blocksRead f [0, 0, 0] hpos hlength _ _ (.inr rfl)
      · right
        simp [sizeRead, hdescriptor, hsingle, contentSize, hflag, leBytes]
        omega
      · have hfield : leBytes 4 f.content.length = [UInt8.ofNat f.content.length, 0, 0, 0] := by
          simp [leBytes, Nat.div_eq_of_lt (show f.content.length < 256 by omega)]
        simp [blocksRead, hdescriptor, hsingle, contentSize, hflag, hfield]

/-- A single segment of 256 bytes with its size in two bytes, without a checksum. -/
def singleSegment256 : Frame := zeroFrame ⟨.flag1, true, false⟩ (.inl rfl)

theorem singleSegment256_refused :
    singleSegment256.encode =
        [0x28, 0xb5, 0x2f, 0xfd, 0x60, 0x00, 0x00, 0x01, 0x08, 0x00] ++ zeroBytes ∧
      singleSegment256.content.length ≤ 256 ∧
      ∀ decode : (block output : List UInt8) → (capacity : Nat) → Unit → Option (List UInt8 × Unit),
        btrfsZstdDecompress decode () singleSegment256.encode 256 ≠ some singleSegment256.content := by
  refine ⟨?_, (length_content_zeroFrame _).le, fun decode hsome => ?_⟩
  · rw [encode, singleSegment256, length_content_zeroFrame, rawBlocks_zeroFrame]
    simp [magic, zeroFrame, trailer, byte, contentSize,
      ContentSizeFlag.bits, leBytes]
  · rw [singleSegment256, zeroFrame_refused (.inl rfl) (by decide) (.inl rfl)] at hsome
    cases hsome

end Frames

end KernelBoot.Btrfs
