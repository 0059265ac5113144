import KernelBoot.Laws.Btrfs.Mount

/-!
# Reading a btrfs file

A file in a well-formed tree (`FileAt`) is a list of extents in order, and its contents (`fileBytes`)
are their bytes, with zeros in the holes. `readFileLoop_eq` says exactly when the loop of
`btrfs_read_file` returns them: no hole of the range may be the one behind the last extent, and the
sectors of each extent in the range must fit in the 4096 bytes of a buffer (`Readable`).
-/

namespace KernelBoot.Btrfs

open Lib Lib.Attempt Drivers List

variable {fs : BtrfsFs} {s : Storage} {offset n : Nat} {extent : Item}

section Contents

/-- The end of an extent in its file. -/
def Item.stop (extent : Item) : Nat := extent.start + extent.length

/-- Extents in order, none of which overlap. -/
def InOrder (extents : List Item) : Prop :=
  extents.Pairwise fun a b => a.start < b.start ∧ a.stop ≤ b.start

variable {extents : List Item}

/-- Two extents: one ends before the other starts. -/
theorem InOrder.apart (h : InOrder extents) {a b : Item} (ha : a ∈ extents) (hb : b ∈ extents) :
    a = b ∨ a.stop ≤ b.start ∧ a.start < b.start ∨ b.stop ≤ a.start ∧ b.start < a.start := by
  obtain ⟨i, hi, rfl⟩ := getElem_of_mem ha
  obtain ⟨j, hj, rfl⟩ := getElem_of_mem hb
  rcases Nat.lt_trichotomy i j with hlt | rfl | hgt
  · have hpair := pairwise_iff_getElem.mp h i j hi hj hlt
    exact .inr (.inl ⟨hpair.2, hpair.1⟩)
  · exact .inl rfl
  · have hpair := pairwise_iff_getElem.mp h j i hj hi hgt
    exact .inr (.inr ⟨hpair.2, hpair.1⟩)

/-- A byte of a file: of the extent it lies in, or zero in a hole. -/
def fileByte (fs : BtrfsFs) (s : Storage) (extents : List Item) (offset : Nat) : UInt8 :=
  (extents.find? fun extent => extent.start ≤ offset ∧ offset < extent.stop).elim 0 fun extent =>
    extentByte fs s extent (offset - extent.start)

/-- Bytes of a file. -/
def fileBytes (fs : BtrfsFs) (s : Storage) (extents : List Item) (offset size : Nat) : List UInt8 :=
  (List.range size).map fun i => fileByte fs s extents (offset + i)

/-- A range of a file is its parts, one after the other. -/
theorem fileBytes_add (offset a b : Nat) :
    fileBytes fs s extents offset (a + b) =
      fileBytes fs s extents offset a ++ fileBytes fs s extents (offset + a) b := by
  rw [fileBytes, fileBytes, fileBytes, range_add, map_append, map_map]
  simp [Function.comp_def, Nat.add_assoc]

theorem fileByte_of_mem (h : InOrder extents) (hmem : extent ∈ extents) {offset : Nat}
    (hstart : extent.start ≤ offset) (hstop : offset < extent.stop) :
    fileByte fs s extents offset = extentByte fs s extent (offset - extent.start) := by
  have hfind : extents.find? (fun e => decide (e.start ≤ offset ∧ offset < e.stop)) = some extent := by
    cases hfound : extents.find? (fun e => decide (e.start ≤ offset ∧ offset < e.stop)) with
    | none =>
      have := find?_eq_none.mp hfound extent hmem
      exact absurd (decide_eq_true ⟨hstart, hstop⟩) this
    | some other =>
      have hother := find?_some hfound
      rw [decide_eq_true_eq] at hother
      rcases h.apart (mem_of_find?_eq_some hfound) hmem with rfl | hapart | hapart
      · rfl
      · omega
      · omega
  rw [fileByte, hfind]
  rfl

theorem fileByte_of_hole {offset : Nat}
    (h : ∀ extent ∈ extents, ¬(extent.start ≤ offset ∧ offset < extent.stop)) :
    fileByte fs s extents offset = 0 := by
  have hfind : extents.find? (fun e => decide (e.start ≤ offset ∧ offset < e.stop)) = none := by
    rw [find?_eq_none]
    intro extent hmem
    rw [decide_eq_true_eq]
    exact h extent hmem
  rw [fileByte, hfind]
  rfl

theorem fileBytes_of_part (h : InOrder extents) (hmem : extent ∈ extents)
    (hstart : extent.start ≤ offset) (hstop : offset + n ≤ extent.stop) :
    fileBytes fs s extents offset n =
      (List.range n).map fun i => extentByte fs s extent (offset - extent.start + i) := by
  apply map_congr_left
  intro i hi
  rw [mem_range] at hi
  rw [fileByte_of_mem h hmem (by omega) (by omega)]
  congr 1
  omega

theorem fileBytes_of_hole (h : ∀ extent ∈ extents, extent.stop ≤ offset ∨ offset + n ≤ extent.start) :
    fileBytes fs s extents offset n = List.replicate n 0 := by
  rw [fileBytes, eq_replicate_iff]
  refine ⟨by simp, fun b hb => ?_⟩
  obtain ⟨i, hi, rfl⟩ := mem_map.mp hb
  rw [mem_range] at hi
  apply fileByte_of_hole
  intro extent hmem
  have := h extent hmem
  omega

/-- Where an extent and a range meet, they begin and end. -/
def Item.from (extent : Item) (offset : Nat) : Nat := max offset extent.start

def Item.upTo (extent : Item) (offset n : Nat) : Nat := min extent.stop (offset + n)

/-- The ranges that `btrfs_read_file` can read: a hole behind an extent has another extent behind it
(and the item before it fits in a buffer), and so does the part of every extent in the range. -/
structure Readable (fs : BtrfsFs) (extents : List Item) (offset n : Nat) : Prop where
  holes : ∀ p, offset ≤ p → p < offset + n → ∀ extent, IsLast extents p extent → extent.stop ≤ p →
    extent.size ≤ 4096 ∧ ∃ next ∈ extents, p < next.start
  parts : ∀ extent ∈ extents, extent.from offset < extent.upTo offset n →
    partFits fs extent (extent.from offset) (extent.upTo offset n - extent.from offset)

theorem readable_zero (offset : Nat) : Readable fs extents offset 0 where
  holes p hlow hhigh := by omega
  parts extent _ hlt := by
    simp only [Item.from, Item.upTo] at hlt
    omega

/-- A range is cut where no extent goes across. -/
theorem readable_add_iff {offset n c : Nat} (hle : c ≤ n)
    (hcut : ∀ extent ∈ extents, extent.upTo offset n ≤ offset + c ∨ offset + c ≤ extent.start) :
    Readable fs extents offset n ↔
      Readable fs extents offset c ∧ Readable fs extents (offset + c) (n - c) := by
  have hend : offset + c + (n - c) = offset + n := by omega
  have hbefore : ∀ extent : Item, extent.upTo offset n ≤ offset + c →
      extent.upTo offset c = extent.upTo offset n := by
    intro extent h
    simp only [Item.upTo] at h ⊢
    omega
  have hbehind : ∀ extent : Item, offset + c ≤ extent.start →
      extent.from (offset + c) = extent.from offset := by
    intro extent h
    simp only [Item.from]
    omega
  have hupTo : ∀ extent : Item, extent.upTo (offset + c) (n - c) = extent.upTo offset n := by
    intro extent
    rw [Item.upTo, Item.upTo, hend]
  constructor
  · intro hr
    refine ⟨⟨fun p hlow hhigh => hr.holes p hlow (by omega), fun extent hmem hlt => ?_⟩,
      fun p hlow hhigh => hr.holes p (by omega) (by omega), fun extent hmem hlt => ?_⟩
    · rcases hcut extent hmem with h | h
      · rw [hbefore extent h] at hlt ⊢
        exact hr.parts extent hmem hlt
      · simp only [Item.from, Item.upTo] at hlt
        omega
    · rcases hcut extent hmem with h | h
      · simp only [Item.from, Item.upTo] at h hlt
        omega
      · rw [hbehind extent h, hupTo] at hlt ⊢
        exact hr.parts extent hmem hlt
  · rintro ⟨hfront, hback⟩
    refine ⟨fun p hlow hhigh => ?_, fun extent hmem hlt => ?_⟩
    · rcases Nat.lt_or_ge p (offset + c) with hin | hout
      · exact hfront.holes p hlow hin
      · exact hback.holes p hout (by omega)
    · rcases hcut extent hmem with h | h
      · rw [← hbefore extent h] at hlt ⊢
        exact hfront.parts extent hmem hlt
      · rw [← hbehind extent h, ← hupTo] at hlt ⊢
        exact hback.parts extent hmem hlt

/-- What a read of a range should answer, given what the function can read. -/
noncomputable def readAnswer (fs : BtrfsFs) (s : Storage) (extents : List Item) (offset n : Nat) :
    Option (List UInt8) :=
  open Classical in if Readable fs extents offset n then some (fileBytes fs s extents offset n) else none

open Classical in
theorem readAnswer_add {offset n c : Nat} (hle : c ≤ n)
    (hcut : ∀ extent ∈ extents, extent.upTo offset n ≤ offset + c ∨ offset + c ≤ extent.start) :
    readAnswer fs s extents offset n =
      if Readable fs extents offset c then
        (readAnswer fs s extents (offset + c) (n - c)).map (fileBytes fs s extents offset c ++ ·)
      else none := by
  have hbytes := @fileBytes_add fs s extents offset c (n - c)
  rw [Nat.add_sub_cancel' hle] at hbytes
  simp only [readAnswer, readable_add_iff hle hcut, ite_and, hbytes]
  split_ifs <;> rfl

/-- A hole at the front of a range. -/
theorem readAnswer_of_hole {offset h n : Nat} (hle : h ≤ n)
    (hfree : ∀ extent ∈ extents, extent.stop ≤ offset ∨ offset + h ≤ extent.start)
    (hholes : ∀ p, offset ≤ p → p < offset + h → ∀ extent, IsLast extents p extent →
      extent.stop ≤ p → extent.size ≤ 4096 ∧ ∃ next ∈ extents, p < next.start) :
    readAnswer fs s extents offset n =
      (readAnswer fs s extents (offset + h) (n - h)).map (List.replicate h 0 ++ ·) := by
  have hr : Readable fs extents offset h := by
    refine ⟨hholes, fun extent hmem hlt => ?_⟩
    have := hfree extent hmem
    simp only [Item.from, Item.upTo] at hlt
    omega
  rw [readAnswer_add hle, if_pos hr, fileBytes_of_hole hfree]
  intro extent hmem
  have := hfree extent hmem
  rw [Item.upTo]
  omega

/-- A part of an extent at the front of a range. -/
theorem readAnswer_of_part (horder : InOrder extents) (hmem : extent ∈ extents)
    {offset n c : Nat} (hstart : extent.start ≤ offset) (hc : c = min (extent.stop - offset) n)
    (hpos : 0 < c) :
    readAnswer fs s extents offset n =
      if partFits fs extent offset c then
        (readAnswer fs s extents (offset + c) (n - c)).map
          (((List.range c).map fun i => extentByte fs s extent (offset - extent.start + i)) ++ ·)
      else none := by
  have hfrom : extent.from offset = offset := by
    simp only [Item.from]
    omega
  have hupTo : extent.upTo offset c = offset + c := by
    simp only [Item.upTo]
    omega
  have hiff : Readable fs extents offset c ↔ partFits fs extent offset c := by
    constructor
    · intro hr
      have hpart := hr.parts extent hmem (by omega)
      rwa [hfrom, hupTo, Nat.add_sub_cancel_left] at hpart
    · intro hpart
      refine ⟨fun p hlow hhigh other hother hstop => ?_, fun other hother hlt => ?_⟩
      · have hbest := hother.2.2 extent hmem (by omega)
        have := hother.2.1
        rcases horder.apart hother.1 hmem with rfl | hapart | hapart <;> omega
      · rcases horder.apart hother hmem with rfl | hapart | hapart
        · rwa [hfrom, hupTo, Nat.add_sub_cancel_left]
        · simp only [Item.from, Item.upTo] at hlt
          omega
        · simp only [Item.from, Item.upTo] at hlt
          omega
  rw [readAnswer_add (c := c) (by omega), fileBytes_of_part horder hmem hstart (by omega)]
  · by_cases hfits : partFits fs extent offset c
    · rw [if_pos hfits, if_pos (hiff.mpr hfits)]
    · rw [if_neg hfits, if_neg (mt hiff.mp hfits)]
  · intro other hother
    rw [Item.upTo]
    rcases horder.apart hother hmem with rfl | hapart | hapart <;> omega

end Contents

section Files

/-- A regular file of some size in a well-formed tree. -/
structure FileAt (fs : BtrfsFs) (s : Storage) (bytenr inode : Nat) (items : List Item)
    (fileSize : Nat) : Prop where
  tree : ∃ height ≤ 8, TreeAt fs s height bytenr items
  stat : ∃ item ∈ items, item.key = ⟨inode, inodeItemType, 0⟩ ∧ 160 ≤ item.size ∧
    item.size ≤ 4096 ∧ item.data.load64 16 = fileSize ∧ item.data.load32 96 &&& 0o170000 = 0o100000
  extents : ∀ extent ∈ extentsOf inode items, ExtentOk fs s extent
  order : InOrder (extentsOf inode items)

variable {σ : Type} {decodeCompressedBlock : (block output : List UInt8) → (capacity : Nat) → σ →
  Option (List UInt8 × σ)} {initial : σ} {bytenr inode fileSize fuel : Nat} {items : List Item}

/-- The hole before the first extent, or in a file without any. -/
theorem readAnswer_before_first {extents : List Item} {next : Option Nat}
    (hnone : ∀ extent ∈ extents, offset < extent.start)
    (hnext : (next = none ∧ ∀ extent ∈ extents, extent.start ≤ offset) ∨
      ∃ extent, IsNext extents offset extent ∧ next = some extent.start) (hn : n ≠ 0) :
    let hole := next.elim n fun next => min (next - offset) n
    hole ≠ 0 ∧ hole ≤ n ∧ readAnswer fs s extents offset n =
      (readAnswer fs s extents (offset + hole) (n - hole)).map (List.replicate hole 0 ++ ·) := by
  intro hole
  have hfree : ∀ extent ∈ extents, offset + hole ≤ extent.start := by
    intro extent hmem
    have hlt := hnone extent hmem
    rcases hnext with ⟨rfl, hall⟩ | ⟨first, hfirst, rfl⟩
    · have := hall extent hmem
      omega
    · have := hfirst.2.2 extent hmem hlt
      have hdef : hole = min (first.start - offset) n := rfl
      omega
  have hbound : hole ≠ 0 ∧ hole ≤ n := by
    rcases hnext with ⟨rfl, -⟩ | ⟨first, hfirst, rfl⟩
    · exact ⟨hn, le_refl n⟩
    · have := hfirst.2.1
      have hdef : hole = min (first.start - offset) n := rfl
      omega
  refine ⟨hbound.1, hbound.2, readAnswer_of_hole hbound.2 (fun extent hmem => .inr (hfree extent hmem)) ?_⟩
  intro p _ hhigh extent hextent _
  have := hfree extent hextent.1
  have := hextent.2.1
  omega

/-- The hole behind an extent that has another behind it. -/
theorem readAnswer_behind {extents : List Item} (horder : InOrder extents)
    {extent next : Item} (hlast : IsLast extents offset extent) (hstop : extent.stop ≤ offset)
    (hsize : extent.size ≤ 4096) (hnext : IsNext extents offset next) (hn : n ≠ 0) :
    let hole := min (next.start - offset) n
    hole ≠ 0 ∧ hole ≤ n ∧ readAnswer fs s extents offset n =
      (readAnswer fs s extents (offset + hole) (n - hole)).map (List.replicate hole 0 ++ ·) := by
  intro hole
  have hdef : hole = min (next.start - offset) n := rfl
  have hlt := hnext.2.1
  have hfree : ∀ other ∈ extents, other.stop ≤ offset ∨ offset + hole ≤ other.start := by
    intro other hmem
    rcases Nat.lt_or_ge offset other.start with hbehind | hbefore
    · have := hnext.2.2 other hmem hbehind
      omega
    · have hle := hlast.2.2 other hmem hbefore
      rcases horder.apart hmem hlast.1 with rfl | hapart | hapart
      · exact .inl hstop
      · have := hlast.2.1
        omega
      · omega
  refine ⟨by omega, by omega, readAnswer_of_hole (by omega) hfree ?_⟩
  intro p hlow hhigh other hother _
  refine ⟨?_, next, hnext.1, by omega⟩
  -- up to the next extent the last one stays the same
  have hle : extent.start ≤ other.start := hother.2.2 extent hlast.1 (hlast.2.1.trans hlow)
  have hby : other.start ≤ offset := by
    by_contra hgt
    have := hnext.2.2 other hother.1 (by omega)
    have := hother.2.1
    omega
  have hge := hlast.2.2 other hother.1 hby
  rcases horder.apart hother.1 hlast.1 with rfl | hapart | hapart
  · exact hsize
  · omega
  · omega

/-- The hole behind the last extent cannot be read, nor one behind an item that is too long. -/
theorem readAnswer_none {extents : List Item}
    (hlast : IsLast extents offset extent) (hstop : extent.stop ≤ offset) (hn : n ≠ 0)
    (h : 4096 < extent.size ∨ ∀ next ∈ extents, next.start ≤ offset) :
    readAnswer fs s extents offset n = none := by
  rw [readAnswer, if_neg]
  intro hr
  obtain ⟨hsize, next, hnext, hlt⟩ := hr.holes offset (le_refl _) (by omega) extent hlast hstop
  rcases h with h | h
  · omega
  · have := h next hnext
    omega

/-- The loop of `btrfs_read_file` answers as it should. The induction is on the passes, each of which
takes a hole or a part of an extent from the front of the range. -/
theorem readFileLoop_eq (hfile : FileAt fs s bytenr inode items fileSize) (hsized : Sized fs)
    (hfuel : 8 < fuel) : ∀ passes offset n, n ≤ passes → n < 2 ^ 32 →
      (readFileLoop decodeCompressedBlock initial fuel fs bytenr inode passes offset n s).1 =
        readAnswer fs s (extentsOf inode items) offset n := by
  have hempty : ∀ offset, readAnswer fs s (extentsOf inode items) offset 0 = some [] := by
    intro offset
    rw [readAnswer, if_pos (readable_zero offset)]
    rfl
  obtain ⟨height, hheight, htree⟩ := hfile.tree
  intro passes
  induction passes with
  | zero =>
    intro offset n hn _
    obtain rfl : n = 0 := by omega
    rw [hempty]
    rfl
  | succ passes ih =>
    intro offset n hn hn32
    rw [readFileLoop]
    by_cases hzero : n = 0
    · rw [if_pos hzero, hzero, hempty]
      rfl
    rw [if_neg hzero, (btrfsFindExtentStart_readOnly _ _ _).answer_bind]
    have hrest : ∀ (data : List UInt8) (m : Nat), m ≠ 0 → m ≤ n →
        ((do
          let rest ← readFileLoop decodeCompressedBlock initial fuel fs bytenr inode passes
            (offset + m) (n - m)
          return data ++ rest) s).1 =
        (readAnswer fs s (extentsOf inode items) (offset + m) (n - m)).map (data ++ ·) := by
      intro data m hm hle
      rw [(readFileLoop_readOnly _ _ _ _ _ _).bind_pure_fst, ih _ _ (by omega) (by omega)]
    rcases btrfsFindExtentStart_cases inode offset htree hsized.node hheight with
      ⟨hstart, hnone⟩ | ⟨extent, hlast, hstart⟩
    · rw [hstart]
      have hafter := btrfsFindExtentAfter_cases inode offset htree hsized.node hheight
      obtain ⟨hne, hle, hanswer⟩ := @readAnswer_before_first fs s _ _ _ _ hnone hafter hzero
      simp only [(btrfsFindExtentAfter_readOnly _ _ _).answer_bind]
      rw [hanswer, bind_of_some (check_of_true hne s)]
      exact hrest _ _ hne hle
    rw [hstart]
    obtain ⟨hmem, hkey⟩ := mem_extentsOf.mp hlast.1
    have hok := hfile.extents extent hlast.1
    have hsize := htree.size_le extent hmem
    have hby := hlast.2.1
    have hitem : (btrfsReadItem fuel fs bytenr extent.key 53 s).1 =
        if 53 ≤ extent.size ∧ extent.size ≤ 4096 then some extent.data else none :=
      btrfsReadItem_of_mem htree hsized.node hmem (by omega) (by decide)
    rw [hkey] at hitem
    by_cases hlong : 4096 < extent.size
    · -- the item does not fit in the buffer, whatever part of the extent is asked for
      rw [if_neg fun h => by omega] at hitem
      simp only [(btrfsReadItem_readOnly _ _ _ _).bind_of_fst_none hitem]
      by_cases hstop : extent.stop ≤ offset
      · rw [readAnswer_none hlast hstop hzero (.inl hlong)]
      · rw [readAnswer_of_part hfile.order hlast.1 hby rfl (by omega), if_neg fun h => by
          have := h.1
          omega]
    rw [if_pos ⟨hok.size, by omega⟩] at hitem
    simp only [(btrfsReadItem_readOnly _ _ _ _).bind_of_fst_some hitem]
    have hlength : extentLength extent.data = extent.stop - extent.start :=
      (Nat.add_sub_cancel_left ..).symm
    rw [hlength]
    by_cases hstop : extent.stop ≤ offset
    · rw [if_pos (by omega)]
      rcases btrfsFindExtentAfter_cases inode offset htree hsized.node hheight with
        ⟨hafter, hall⟩ | ⟨next, hnext, hafter⟩
      · rw [(btrfsFindExtentAfter_readOnly _ _ _).bind_of_fst_none hafter,
          readAnswer_none hlast hstop hzero (.inr hall)]
      · obtain ⟨hne, hle, hanswer⟩ := @readAnswer_behind fs s _ _ _ hfile.order _ _ hlast hstop
          (by omega) hnext hzero
        rw [(btrfsFindExtentAfter_readOnly _ _ _).bind_of_fst_some hafter, hanswer]
        exact hrest _ _ hne hle
    have hchunk : min (extent.stop - extent.start - (offset - extent.start)) n =
        min (extent.stop - offset) n := by omega
    rw [if_neg (by omega), hchunk, readAnswer_of_part hfile.order hlast.1 hby rfl (by omega)]
    have hread : (btrfsReadExtentData decodeCompressedBlock initial fuel fs bytenr inode
        extent.start offset (min (extent.stop - offset) n) s).1 = _ :=
      btrfsReadExtentData_eq htree hsized hlast.1 hok (by omega) hby (by omega) (by omega)
        (by have : extent.length = extent.stop - extent.start := hlength; omega)
    by_cases hfits : partFits fs extent offset (min (extent.stop - offset) n)
    · rw [if_pos hfits] at hread ⊢
      rw [(btrfsReadExtentData_readOnly _ _ _ _ _ _).bind_of_fst_some hread]
      exact hrest _ _ (by omega) (by omega)
    · rw [if_neg hfits] at hread ⊢
      rw [(btrfsReadExtentData_readOnly _ _ _ _ _ _).bind_of_fst_none hread]

end Files

section Mount

/-- A power of two between 512 and 4096. -/
theorem sectorSize_cases {n : Nat} (hlow : 512 ≤ n) (hhigh : n ≤ 4096) (hpow : n &&& (n - 1) = 0) :
    n = 512 ∨ n = 1024 ∨ n = 2048 ∨ n = 4096 := by
  obtain ⟨k, rfl⟩ := (Nat.and_sub_one_eq_zero_iff_isPowerOfTwo (by omega)).mp hpow
  have hk : 9 ≤ k ∧ k ≤ 12 :=
    ⟨(Nat.pow_le_pow_iff_right (by decide)).mp (show 2 ^ 9 ≤ 2 ^ k from hlow),
      (Nat.pow_le_pow_iff_right (by decide)).mp (show 2 ^ k ≤ 2 ^ 12 from hhigh)⟩
  obtain ⟨hk9, hk12⟩ := hk
  interval_cases k <;> decide

theorem sized_of_geometryOk {sb : Bytes} {deviceBlocks : Nat} (h : geometryOk sb deviceBlocks)
    (hz : fs.sizes = (sb.load32 0x90, sb.load32 0x94)) : Sized fs := by
  obtain ⟨hlow, hhigh, hpow, -, hnode, -⟩ := h
  rw [BtrfsFs.sizes, Prod.mk.injEq] at hz
  rw [← hz.1] at hlow hhigh hpow
  exact ⟨sectorSize_cases hlow hhigh hpow, hz.2 ▸ hnode⟩

theorem treeRoot_readOnly (fuel objectid : Nat) : ReadOnly (treeRoot fuel fs objectid) :=
  .bind (btrfsReadItem_readOnly _ _ _ _) fun _ => .check_bind <| .pure _

/-- `fs` is what a mount and `btrfs_resolve_filesystem_tree` leave. -/
def Mounted (fs : BtrfsFs) (s : Storage) : Prop :=
  ∃ device fuel, ((do
    let fs ← btrfsMount device
    btrfsResolveFilesystemTree fuel fs) s).1 = some fs

theorem Mounted.sized (h : Mounted fs s) : Sized fs := by
  obtain ⟨device, fuel, h⟩ := h
  have hresolve : Finds s Sized (do
      let fs ← btrfsMount device
      btrfsResolveFilesystemTree fuel fs) :=
    .bind (btrfsMount_finds device) fun _ ⟨sb, _, hgeometry, htabled⟩ =>
      .then_ (treeRoot_readOnly _ _) fun _ => .then_ (treeRoot_readOnly _ _) fun _ =>
        .pure (sized_of_geometryOk hgeometry htabled.sizes_eq)
  exact hresolve.2 fs h

end Mount

section Contract

variable {σ : Type} {decodeCompressedBlock : (block output : List UInt8) → (capacity : Nat) → σ →
  Option (List UInt8 × σ)} {initial : σ} {bytenr inode fileSize fuel offset size : Nat}
  {items : List Item}

theorem btrfsInodeStat_eq (hfile : FileAt fs s bytenr inode items fileSize) (hsized : Sized fs)
    (hfuel : 8 < fuel) : ∃ mode, (btrfsInodeStat fuel fs bytenr inode s).1 = some (fileSize, mode) ∧
      mode &&& 0o170000 = 0o100000 := by
  obtain ⟨height, hheight, htree⟩ := hfile.tree
  obtain ⟨item, hmem, hkey, hlow, hhigh, hsize, hmode⟩ := hfile.stat
  have hread : (btrfsReadItem fuel fs bytenr item.key 160 s).1 = _ :=
    btrfsReadItem_of_mem htree hsized.node hmem (by omega) (by decide)
  rw [hkey, if_pos ⟨hlow, hhigh⟩] at hread
  refine ⟨item.data.load32 96, ?_, hmode⟩
  rw [btrfsInodeStat, (btrfsReadItem_readOnly _ _ _ _).bind_of_fst_some hread, ← hsize]
  rfl

/-- Reading a range of a file returns its contents exactly when the range is not empty and the function
can read it; and the contents of a range are those of its parts. -/
theorem btrfsReadFile_iff (hmounted : Mounted fs s) (hfile : FileAt fs s bytenr inode items fileSize)
    (hrange : offset + size ≤ fileSize) (hsize : size < 2 ^ 32) (hfuel : 8 < fuel) :
    ((btrfsReadFile decodeCompressedBlock initial fuel fs bytenr inode offset size s).1 =
        some (fileBytes fs s (extentsOf inode items) offset size) ↔
      size ≠ 0 ∧ Readable fs (extentsOf inode items) offset size) ∧
    ∀ a b, a + b = size → fileBytes fs s (extentsOf inode items) offset size =
      fileBytes fs s (extentsOf inode items) offset a ++
        fileBytes fs s (extentsOf inode items) (offset + a) b := by
  refine ⟨?_, fun a b hab => hab ▸ fileBytes_add offset a b⟩
  have hsized := hmounted.sized
  obtain ⟨mode, hstat, hmode⟩ := btrfsInodeStat_eq hfile hsized hfuel
  have hbound : fileSize < 2 ^ 64 := by
    obtain ⟨item, -, -, -, -, hload, -⟩ := hfile.stat
    exact hload ▸ Bytes.load64_lt
  have hloop : (readFileLoop decodeCompressedBlock initial fuel fs bytenr inode size offset size s).1 =
      readAnswer fs s (extentsOf inode items) offset size :=
    readFileLoop_eq hfile hsized hfuel size offset size (Nat.le_refl _) hsize
  rw [btrfsReadFile, check_bind_fst, (btrfsInodeStat_readOnly _ _ _).bind_of_fst_some hstat]
  refine and_congr_right fun _ => ?_
  rw [check_bind_fst, if_neg (by omega)]
  constructor
  · rintro ⟨-, hanswer⟩
    by_contra hnot
    have hnone : readAnswer fs s (extentsOf inode items) offset size = none := if_neg hnot
    exact Option.some_ne_none _ (hanswer.symm.trans (hloop.trans hnone))
  · intro hreadable
    refine ⟨⟨hmode, by omega, by omega⟩, hloop.trans (if_pos hreadable)⟩

/-- What the file tree of the sample volume says of inode 258. -/
def SampleLeaf (node : Bytes) : Prop :=
  node 100 = 0 ∧ nodeCount node ≤ 36 ∧
    (∀ i < nodeCount node, itemOffset (leafItem node i) ≤ 1024 ∧
      itemSize (leafItem node i) ≤ 1024 - itemOffset (leafItem node i)) ∧
    (leafEntries node).Pairwise (fun a b => a.key < b.key) ∧
    (∃ item ∈ leafEntries node, item.key = ⟨258, inodeItemType, 0⟩ ∧ 160 ≤ item.size ∧
      item.size ≤ 4096 ∧ item.data.load64 16 = 1024 ∧ item.data.load32 96 &&& 0o170000 = 0o100000) ∧
    InOrder (extentsOf 258 (leafEntries node)) ∧
    ∀ extent ∈ extentsOf 258 (leafEntries node), (extent.start = 0 ∧ extent.stop = 512) ∧
      extent.size = 53 ∧ (extent.data 16 = 0 ∧ extent.data 17 = 0 ∧ extent.data 18 = 0) ∧
      extent.data 20 = 1 ∧ extent.data.load64 21 = 73728 ∧ extent.data.load64 29 = 512 ∧
      extent.data.load64 37 = 0 ∧ extent.data.load64 45 = 512

instance (node : Bytes) : Decidable (SampleLeaf node) := by
  unfold SampleLeaf InOrder
  infer_instance

theorem sampleLeaf_read :
    ∃ node, (btrfsReadNode sampleFs 71680 sampleStorage).1 = some node ∧ SampleLeaf node := by
  have hread : (btrfsReadNode sampleFs 71680 sampleStorage).1.map (fun node =>
      decide (SampleLeaf node)) = some true := by decide +kernel
  obtain ⟨node, hnode, hleaf⟩ := Option.map_eq_some_iff.mp hread
  exact ⟨node, hnode, of_decide_eq_true hleaf⟩

theorem btrfsMap_of_find {logical bytes : Nat} {chunk : BtrfsChunk} (hbytes : bytes ≠ 0)
    (hfind : fs.chunks.find? (fun chunk => chunk.holds logical bytes) = some chunk)
    (hlt : (chunk.place false logical).2 < 2 ^ 64) :
    btrfsMap fs logical bytes = some (chunk.place false logical) := by
  have hplace : (do
      guard ((chunk.place false logical).2 < 2 ^ 64)
      return chunk.place false logical) = some (chunk.place false logical) := by
    rw [guard, if_pos hlt]
    rfl
  rw [btrfsMap, btrfsMapAt, guard, if_pos hbytes, hfind]
  exact hplace

theorem sample_maps {o n : Nat} (hn : n ≠ 0) (hle : o + n ≤ 512) :
    btrfsMap sampleFs (73728 + o) n = some (0, 73728 + o) := by
  have hholds : BtrfsChunk.holds ⟨69632, 8192, 0, 0, 69632, 0⟩ (73728 + o) n := by
    simp only [BtrfsChunk.holds]
    omega
  have hplace : BtrfsChunk.place ⟨69632, 8192, 0, 0, 69632, 0⟩ false (73728 + o) =
      (0, 73728 + o) := by
    simp only [BtrfsChunk.place, Bool.false_eq_true, false_and, if_false, Prod.mk.injEq, true_and]
    omega
  have hlt : 73728 + o < 2 ^ 64 := by omega
  rw [← hplace]
  apply btrfsMap_of_find hn
  · exact find?_cons_of_pos (decide_eq_true hholds)
  · rw [hplace]
    exact hlt

theorem sample_storedAt :
    ∃ index device physical, StoredAt sampleFs sampleStorage 73728 512 index device physical :=
  ⟨0, _, 73728, {
    device_eq := rfl
    blockSize := rfl
    aligned := by decide
    maps := fun _ _ hn hle => sample_maps hn hle
    good := by decide +kernel
    checksums := by decide +kernel }⟩

/-- Inode 258 of the sample volume. -/
theorem sample_fileAt : ∃ items, FileAt sampleFs sampleStorage 71680 258 items 1024 ∧
    ∀ extent ∈ extentsOf 258 items, (extent.start = 0 ∧ extent.stop = 512) ∧ extent.size = 53 ∧
      ExtentFields.at extent.data = ⟨73728, 512, 0, 512⟩ := by
  obtain ⟨node, hread, hlevel, hcount, hbounds, hsorted, hstat, horder, hextents⟩ := sampleLeaf_read
  have hfields : ∀ extent ∈ extentsOf 258 (leafEntries node),
      ExtentFields.at extent.data = ⟨73728, 512, 0, 512⟩ := by
    intro extent hmem
    obtain ⟨-, -, -, -, hbytenr, hdisk, hoffset, hdata⟩ := hextents extent hmem
    rw [ExtentFields.at, hbytenr, hdisk, hoffset, hdata]
  refine ⟨leafEntries node, ⟨⟨0, by decide, .leaf hread hlevel hcount hbounds hsorted⟩, hstat, ?_,
    horder⟩, fun extent hmem => ⟨(hextents extent hmem).1, (hextents extent hmem).2.1, hfields extent hmem⟩⟩
  intro extent hmem
  obtain ⟨-, hsize, hencoding, htype, -⟩ := hextents extent hmem
  refine ⟨hencoding, hsize.ge, .inr htype, fun hinline => ?_, fun _ => ?_⟩
  · exact absurd (hinline.symm.trans htype) (by decide)
  · rw [hfields extent hmem]
    exact ⟨by decide, by decide, by decide, by decide, sample_storedAt⟩

theorem btrfsReadFile_iff_sample : ∃ items, FileAt sampleFs sampleStorage 71680 258 items 1024 ∧
    (btrfsReadFile (fun _ _ _ _ => none) () 9 sampleFs 71680 258 0 512 sampleStorage).1 =
      some (fileBytes sampleFs sampleStorage (extentsOf 258 items) 0 512) := by
  obtain ⟨items, hfile, hextents⟩ := sample_fileAt
  refine ⟨items, hfile, (btrfsReadFile_iff ⟨0, 9, sample_mounted⟩ hfile (by decide) (by decide)
    (by decide)).1.mpr ⟨by decide, ⟨fun p _ hp extent hlast hstop => ?_, fun extent hmem _ => ?_⟩⟩⟩
  · obtain ⟨⟨-, hend⟩, -⟩ := hextents extent hlast.1
    omega
  · obtain ⟨⟨hstart, hend⟩, -, hfields⟩ := hextents extent hmem
    rw [partFits, hfields, Item.from, Item.upTo, hstart, hend]
    exact ⟨by decide, fun _ => by decide⟩

/-- The last 512 bytes of inode 258 are a hole behind its last extent. -/
theorem last_hole_fails : ∃ items, Mounted sampleFs sampleStorage ∧
    FileAt sampleFs sampleStorage 71680 258 items 1024 ∧ 512 + 512 ≤ 1024 ∧
    (btrfsReadFile (fun _ _ _ _ => none) () 9 sampleFs 71680 258 512 512 sampleStorage).1 ≠
      some (fileBytes sampleFs sampleStorage (extentsOf 258 items) 512 512) := by
  obtain ⟨items, hfile, -⟩ := sample_fileAt
  have hnone : (btrfsReadFile (fun _ _ _ _ => none) () 9 sampleFs 71680 258 512 512
      sampleStorage).1 = none := by decide +kernel
  refine ⟨items, ⟨0, 9, sample_mounted⟩, hfile, by decide, ?_⟩
  rw [hnone]
  simp

end Contract

end KernelBoot.Btrfs
