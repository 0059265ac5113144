import KernelBoot.Laws.Btrfs.ReadOnly

/-!
# Integrity of btrfs reads

Whatever is on the devices, the bytes of a regular extent that `btrfs_read_extent_data` returns come
from sectors that were compared with the checksum tree (`Checked`), through nodes that passed their own
checks (`NodeAt`); and if the extent is compressed, they are a part of what it decompresses to.

The inline branch returns the stored bytes before the compression byte is looked at. `sound_iff` says
that this is the only way in which a call breaks the rule.
-/

namespace KernelBoot.Btrfs

open Lib Lib.Attempt Drivers List

variable {fs : BtrfsFs} {s : Storage}
variable {fileOffset relative size : Nat} {extentType : BitVec 8} {extent : ExtentFields}
  {out : List UInt8}

section Nodes

/-- A node that `btrfs_read_node` may answer: one of its two copies, with every check passed. -/
def NodeAt (fs : BtrfsFs) (s : Storage) (bytenr : Nat) (node : Bytes) : Prop :=
  ∃ mirror place raw, btrfsMapAt fs bytenr fs.nodeSize mirror = some place ∧
    (readAt place fs.nodeSize s).1 = some raw ∧ nodeValid fs bytenr raw ∧ node = raw.store32 0 0

theorem nodeAt_of_readNodeMirror {bytenr : Nat} {node : Bytes}
    (h : (readNodeMirror fs bytenr s).1 = some node) : NodeAt fs s bytenr node := by
  obtain ⟨place, hplace, hrest⟩ := ofOption_bind_fst.mp h
  obtain ⟨-, hread⟩ := check_bind_fst.mp hrest
  obtain ⟨raw, hraw, hcheck⟩ := (readAt_readOnly place _).bind_fst.mp hread
  obtain ⟨hvalid, hnode⟩ := check_bind_fst.mp hcheck
  exact ⟨true, place, raw, hplace, hraw, hvalid, (Option.some.inj hnode).symm⟩

theorem nodeAt_of_btrfsReadNode {bytenr : Nat} {node : Bytes}
    (h : (btrfsReadNode fs bytenr s).1 = some node) : NodeAt fs s bytenr node := by
  obtain ⟨-, hmap⟩ := check_bind_fst.mp h
  obtain ⟨place, hplace, hread⟩ := ofOption_bind_fst.mp hmap
  rw [(readAt_readOnly place _).answer_bind] at hread
  cases hraw : (readAt place fs.nodeSize s).1 with
  | none =>
    rw [hraw] at hread
    exact nodeAt_of_readNodeMirror hread
  | some raw =>
    rw [hraw] at hread
    by_cases hvalid : nodeValid fs bytenr raw
    · simp only [if_pos hvalid] at hread
      exact ⟨false, place, raw, hplace, hraw, hvalid, (Option.some.inj hread).symm⟩
    · simp only [if_neg hvalid] at hread
      exact nodeAt_of_readNodeMirror hread

end Nodes

section Checksums

/-- The checksum tree from a node down has this checksum for the sector at `logical`; every node on the
way passed its checks. -/
inductive CsumEntry (fs : BtrfsFs) (s : Storage) (logical : Nat) : (bytenr checksum : Nat) → Prop where
  | leaf {bytenr node i checksum} (hnode : NodeAt fs s bytenr node) (hlevel : node 100 = 0)
      (hi : i < nodeCount node) (hentry : csumInItem fs node logical i = some checksum) :
      CsumEntry fs s logical bytenr checksum
  | child {bytenr node i checksum} (hnode : NodeAt fs s bytenr node) (hi : i < nodeCount node)
      (hentry : CsumEntry fs s logical (childBytenr node i) checksum) :
      CsumEntry fs s logical bytenr checksum

theorem csumEntry_of_btrfsFindDataCsum {logical checksum : Nat} :
    ∀ {levels bytenr}, (btrfsFindDataCsum fs logical levels bytenr s).1 = some checksum →
      CsumEntry fs s logical bytenr checksum
  | 0, _, h => nomatch h
  | levels + 1, bytenr, h => by
    obtain ⟨-, hread⟩ := check_bind_fst.mp h
    obtain ⟨node, hnode, hrest⟩ := (btrfsReadNode_readOnly bytenr).bind_fst.mp hread
    have hat := nodeAt_of_btrfsReadNode hnode
    by_cases hlevel : node 100 = 0
    · rw [if_pos hlevel] at hrest
      obtain ⟨-, hfound⟩ := check_bind_fst.mp hrest
      cases hsome : (List.range (nodeCount node)).findSome? (csumInItem fs node logical) with
      | none =>
        rw [hsome] at hfound
        cases hfound
      | some found =>
        rw [hsome] at hfound
        obtain rfl : found = checksum := Option.some.inj hfound
        obtain ⟨i, hi, hentry⟩ := exists_of_findSome?_eq_some hsome
        exact .leaf hat hlevel (mem_range.mp hi) hentry
    · rw [if_neg hlevel] at hrest
      obtain ⟨-, hfirst⟩ := check_bind_fst.mp hrest
      obtain ⟨i, hi, hchild⟩ := ReadOnly.firstOf_fst
        (fun i => btrfsFindDataCsum_readOnly logical levels (childBytenr node i)) _ hfirst
      exact .child hat (mem_range.mp hi) (csumEntry_of_btrfsFindDataCsum hchild)

/-- Data that was read from one of its two places and whose every sector has the checksum that the
checksum tree has for it. -/
structure Checked (fs : BtrfsFs) (s : Storage) (logical bytes : Nat) (data : Bytes) : Prop where
  read : ∃ mirror place, btrfsMapAt fs logical bytes mirror = some place ∧
    (readAt place bytes s).1 = some data
  whole : bytes % fs.sectorSize = 0
  sectors : ∀ i < bytes / fs.sectorSize, CsumEntry fs s (logical + i * fs.sectorSize)
    fs.csumRootBytenr (crc32c (data.window (i * fs.sectorSize)) fs.sectorSize)

variable {logical bytes : Nat} {data : Bytes}

theorem sectors_of_btrfsValidateData {u : Unit}
    (h : (btrfsValidateData fs logical data bytes s).1 = some u) :
    bytes % fs.sectorSize = 0 ∧ ∀ i < bytes / fs.sectorSize,
      CsumEntry fs s (logical + i * fs.sectorSize) fs.csumRootBytenr
        (crc32c (data.window (i * fs.sectorSize)) fs.sectorSize) := by
  obtain ⟨⟨-, -, hwhole⟩, hall⟩ := check_bind_fst.mp h
  refine ⟨hwhole, fun i hi => ?_⟩
  have hone := (ReadOnly.forAll_fst (validateSector_readOnly logical data) _).mp hall i (mem_range.mpr hi)
  obtain ⟨-, hfind⟩ := check_bind_fst.mp hone
  obtain ⟨expected, hexpected, hcheck⟩ := (btrfsFindDataCsum_readOnly _ _ _).bind_fst.mp hfind
  by_cases heq : crc32c (data.window (i * fs.sectorSize)) fs.sectorSize = expected
  · rw [heq]
    exact csumEntry_of_btrfsFindDataCsum hexpected
  · rw [check_of_false heq] at hcheck
    cases hcheck

theorem checked_of_readValidated {mirror : Bool}
    (h : (readValidated fs logical bytes mirror s).1 = some data) :
    Checked fs s logical bytes data := by
  obtain ⟨place, hplace, hrest⟩ := ofOption_bind_fst.mp h
  obtain ⟨-, hread⟩ := check_bind_fst.mp hrest
  obtain ⟨found, hfound, hvalidate⟩ := (readAt_readOnly place bytes).bind_fst.mp hread
  obtain ⟨_, hvalid, heq⟩ := (btrfsValidateData_readOnly logical found bytes).bind_fst.mp hvalidate
  obtain rfl : found = data := Option.some.inj heq
  obtain ⟨hwhole, hsectors⟩ := sectors_of_btrfsValidateData hvalid
  exact ⟨⟨mirror, place, hplace, hfound⟩, hwhole, hsectors⟩

theorem checked_of_btrfsReadChecked (h : (btrfsReadChecked fs logical bytes s).1 = some data) :
    Checked fs s logical bytes data := by
  obtain ⟨_, -, hrest⟩ := ofOption_bind_fst.mp h
  obtain ⟨-, hread⟩ := check_bind_fst.mp hrest
  rw [(readValidated_readOnly logical bytes false).answer_bind] at hread
  cases hfirst : (readValidated fs logical bytes false s).1 with
  | none =>
    rw [hfirst] at hread
    exact checked_of_readValidated hread
  | some found =>
    rw [hfirst] at hread
    obtain rfl : found = data := Option.some.inj hread
    exact checked_of_readValidated hfirst

end Checksums

section Contract

variable {σ : Type} (decodeCompressedBlock : (block output : List UInt8) → (capacity : Nat) → σ →
  Option (List UInt8 × σ)) (initial : σ)

/-- The decompression that a compression byte stands for, for data that begins at a place in its first
sector. -/
def decompress (fs : BtrfsFs) (compression : BitVec 8) (inSector : Nat) :
    List UInt8 → Nat → Option (List UInt8) :=
  if compression = 1 then btrfsZlibInflate
  else if compression = 2 then btrfsLzoInflate inSector fs.sectorSize
  else if compression = 3 then btrfsZstdDecompress decodeCompressedBlock initial
  else fun _ _ => none

/-- `out` is a part of what some stored bytes decompress to. -/
def PartOf (fs : BtrfsFs) (compression : BitVec 8) (inSector : Nat) (stored : List UInt8)
    (capacity relative size : Nat) (out : List UInt8) : Prop :=
  ∃ decoded, decompress decodeCompressedBlock initial fs compression inSector stored capacity =
    some decoded ∧ relative + size ≤ decoded.length ∧ out = (decoded.drop relative).take size

/-- The rule for a regular extent: the bytes are those of checked sectors, or a part of what they
decompress to. -/
def RegularSound (fs : BtrfsFs) (s : Storage) (item : Bytes) (relative size : Nat)
    (out : List UInt8) : Prop :=
  let extent := ExtentFields.at item
  if item 16 = 0 then
    let logical := (extent.diskBytenr + extent.dataOffset + relative) % 2 ^ 64
    let inSector := logical % fs.sectorSize
    ∃ covered data, Checked fs s (logical - inSector) covered data ∧ inSector + size ≤ covered ∧
      out = data.octets inSector size
  else
    let logical := (extent.diskBytenr + extent.dataOffset) % 2 ^ 64
    let inSector := logical % fs.sectorSize
    ∃ covered data, Checked fs s (logical - inSector) covered data ∧
      inSector + extent.diskSize ≤ covered ∧
      PartOf decodeCompressedBlock initial fs (item 16) inSector
        (data.octets inSector extent.diskSize) extent.dataSize relative size out

/-- The rule for an inline extent of `dataSize` bytes, header and all: if it is compressed, the bytes
are a part of what it decompresses to. -/
def InlineSound (fs : BtrfsFs) (item : Bytes) (dataSize relative size : Nat) (out : List UInt8) :
    Prop :=
  item 16 ≠ 0 → PartOf decodeCompressedBlock initial fs (item 16) 0 (item.octets 53 (dataSize - 53))
    (item.load64 8) relative size out

/-- The rule for a call: whatever it returns keeps the rule of its extent. -/
def Sound (fuel : Nat) (fs : BtrfsFs) (treeBytenr inode extentOffset fileOffset size : Nat)
    (s : Storage) : Prop :=
  ∀ out, (btrfsReadExtentData decodeCompressedBlock initial fuel fs treeBytenr inode extentOffset
      fileOffset size s).1 = some out →
    ∀ item dataSize, (btrfsReadItemFull fuel fs treeBytenr ⟨inode, extentDataType, extentOffset⟩ 4096
        s).1 = some (item, dataSize) →
      (item 20 = 0 → InlineSound decodeCompressedBlock initial fs item dataSize
        (fileOffset - extentOffset) size out) ∧
      (item 20 ≠ 0 → RegularSound decodeCompressedBlock initial fs s item
        (fileOffset - extentOffset) size out)

/-- The checks of the inline branch, those of its second `btrfs_read_item` included. -/
def inlineInRange (item : Bytes) (dataSize relative size : Nat) : Prop :=
  (relative ≤ item.load64 8 ∧ relative ≤ 2 ^ 32 - 1 - 53 ∧ size ≤ item.load64 8 - relative ∧
    size ≤ sub64 (4096 - 53) relative) ∧
  (53 + relative + size) % 2 ^ 32 ≠ 0 ∧ (53 + relative + size) % 2 ^ 32 ≤ dataSize

/-- The calls that go wrong: the item is inline and compressed, the range is in it, and its stored bytes
in that range are not by chance those it decompresses to. -/
def returnsStored (fuel : Nat) (fs : BtrfsFs) (treeBytenr inode extentOffset fileOffset size : Nat)
    (s : Storage) : Prop :=
  (size ≠ 0 ∧ fs.nodeSize ≤ 4096 ∧ extentOffset ≤ fileOffset) ∧
  ∃ item dataSize, (btrfsReadItemFull fuel fs treeBytenr ⟨inode, extentDataType, extentOffset⟩ 4096
      s).1 = some (item, dataSize) ∧
    53 ≤ dataSize ∧ (item 17 = 0 ∧ item 18 = 0) ∧ item 20 = 0 ∧
    inlineInRange item dataSize (fileOffset - extentOffset) size ∧
    ¬InlineSound decodeCompressedBlock initial fs item dataSize (fileOffset - extentOffset) size
      (item.octets (53 + (fileOffset - extentOffset)) size)

theorem btrfsReadItem_fst {fuel treeBytenr : Nat} {wanted : Key} {item : Bytes} :
    (btrfsReadItem fuel fs treeBytenr wanted size s).1 = some item ↔
      size ≠ 0 ∧ ∃ dataSize, (btrfsReadItemFull fuel fs treeBytenr wanted 4096 s).1 =
        some (item, dataSize) ∧ size ≤ dataSize := by
  rw [btrfsReadItem, check_bind_fst, (btrfsReadItemFull_readOnly _ _ _ _).bind_fst]
  simp only [check_bind_fst, pure_apply, Option.some.injEq, Prod.exists]
  constructor
  · rintro ⟨hsize, found, dataSize, hfound, hle, rfl⟩
    exact ⟨hsize, dataSize, hfound, hle⟩
  · rintro ⟨hsize, dataSize, hfound, hle⟩
    exact ⟨hsize, item, dataSize, hfound, hle, rfl⟩

/-- Whole sectors cover what they are rounded up from. -/
theorem le_covered {transfer sectorSize : Nat} (h : 0 < sectorSize) :
    transfer ≤ (transfer + sectorSize - 1) / sectorSize * sectorSize := by
  have hdiv := Nat.div_add_mod (transfer + sectorSize - 1) sectorSize
  have hmod := Nat.mod_lt (transfer + sectorSize - 1) h
  rw [Nat.mul_comm] at hdiv
  omega

theorem Checked.sectorSize_pos {logical sectors : Nat} {data : Bytes}
    (h : Checked fs s logical (sectors * fs.sectorSize) data) : 0 < fs.sectorSize := by
  rcases Nat.eq_zero_or_pos fs.sectorSize with hzero | hpos
  · obtain ⟨mirror, place, hplace, -⟩ := h.read
    rw [hzero, Nat.mul_zero] at hplace
    cases hplace
  · exact hpos

theorem checked_of_readCompressed {unpack : Nat → List UInt8 → Nat → Option (List UInt8)}
    (h : (readCompressed fs extentType extent relative fileOffset size unpack s).1 = some out) :
    let logical := (extent.diskBytenr + extent.dataOffset) % 2 ^ 64
    let inSector := logical % fs.sectorSize
    ∃ covered data, Checked fs s (logical - inSector) covered data ∧
      inSector + extent.diskSize ≤ covered ∧
      ∃ decoded, unpack inSector (data.octets inSector extent.diskSize) extent.dataSize =
        some decoded ∧ relative + size ≤ decoded.length ∧ out = (decoded.drop relative).take size := by
  obtain ⟨-, hrest⟩ := check_bind_fst.mp h
  obtain ⟨-, hread⟩ := check_bind_fst.mp hrest
  obtain ⟨data, hdata, hdecode⟩ := (btrfsReadChecked_readOnly _ _).bind_fst.mp hread
  obtain ⟨decoded, hdecoded, hslice⟩ := ofOption_bind_fst.mp hdecode
  obtain ⟨⟨hrelative, hsize⟩, hout⟩ := check_bind_fst.mp hslice
  have hchecked := checked_of_btrfsReadChecked hdata
  exact ⟨_, data, hchecked, le_covered hchecked.sectorSize_pos, decoded, hdecoded, by omega,
    (Option.some.inj hout).symm⟩

theorem checked_of_readPlain (hsector : fs.sectorSize < 2 ^ 32)
    (h : (readPlain fs extentType extent relative fileOffset size s).1 = some out) :
    let logical := (extent.diskBytenr + extent.dataOffset + relative) % 2 ^ 64
    let inSector := logical % fs.sectorSize
    ∃ covered data, Checked fs s (logical - inSector) covered data ∧ inSector + size ≤ covered ∧
      out = data.octets inSector size := by
  intro logical inSector
  obtain ⟨-, hfields⟩ := check_bind_fst.mp h
  obtain ⟨-, hrest⟩ := check_bind_fst.mp hfields
  obtain ⟨⟨hsize, htransfer, hcovered⟩, hread⟩ := check_bind_fst.mp hrest
  obtain ⟨data, hdata, hout⟩ := (btrfsReadChecked_readOnly _ _).bind_fst.mp hread
  have hchecked := checked_of_btrfsReadChecked hdata
  refine ⟨_, data, hchecked, ?_, (Option.some.inj hout).symm⟩
  have hin : inSector < fs.sectorSize := Nat.mod_lt _ hchecked.sectorSize_pos
  -- the sum did not wrap around, or it would be less than `size`
  have hsum : (inSector + size) % 2 ^ 32 = inSector + size := by
    have hlt := Nat.mod_lt (inSector + size) (show 0 < 2 ^ 32 by decide)
    have hmod : size ≤ (inSector + size) % 2 ^ 32 := hsize
    omega
  calc inSector + size = (inSector + size) % 2 ^ 32 := hsum.symm
    _ ≤ _ := htransfer

variable {fuel treeBytenr inode extentOffset fileOffset size dataSize : Nat} {item : Bytes}
  {out : List UInt8}

/-- A call, once the item is known. -/
theorem btrfsReadExtentData_fst
    (hitem : (btrfsReadItemFull fuel fs treeBytenr ⟨inode, extentDataType, extentOffset⟩ 4096 s).1 =
      some (item, dataSize)) :
    (btrfsReadExtentData decodeCompressedBlock initial fuel fs treeBytenr inode extentOffset fileOffset
        size s).1 = some out ↔
      (size ≠ 0 ∧ fs.nodeSize ≤ 4096 ∧ extentOffset ≤ fileOffset) ∧ 53 ≤ dataSize ∧
        (item 17 = 0 ∧ item 18 = 0) ∧
        (item 20 = 0 → (readInline fuel fs treeBytenr ⟨inode, extentDataType, extentOffset⟩ item
          (fileOffset - extentOffset) size s).1 = some out) ∧
        (item 20 ≠ 0 → (readRegular decodeCompressedBlock initial fs item (fileOffset - extentOffset)
          fileOffset size s).1 = some out) := by
  have hread : ∀ found, (btrfsReadItem fuel fs treeBytenr ⟨inode, extentDataType, extentOffset⟩ 53
      s).1 = some found ↔ found = item ∧ 53 ≤ dataSize := by
    intro found
    rw [btrfsReadItem_fst, hitem]
    constructor
    · rintro ⟨-, size', heq, hle⟩
      rw [Option.some.injEq, Prod.mk.injEq] at heq
      exact ⟨heq.1.symm, heq.2.symm ▸ hle⟩
    · rintro ⟨rfl, hle⟩
      exact ⟨by decide, dataSize, rfl, hle⟩
  rw [btrfsReadExtentData, check_bind_fst, (btrfsReadItem_readOnly _ _ _ _).bind_fst]
  simp only [hread, check_bind_fst]
  constructor
  · rintro ⟨hargs, found, ⟨rfl, hsize⟩, hflags, hbranch⟩
    refine ⟨hargs, hsize, hflags, fun hinline => ?_, fun hregular => ?_⟩
    · rwa [if_pos hinline] at hbranch
    · rwa [if_neg hregular] at hbranch
  · rintro ⟨hargs, hsize, hflags, hinline, hregular⟩
    refine ⟨hargs, item, ⟨rfl, hsize⟩, hflags, ?_⟩
    split_ifs with hcase
    · exact hinline hcase
    · exact hregular hcase

theorem readInline_fst
    (hitem : (btrfsReadItemFull fuel fs treeBytenr ⟨inode, extentDataType, extentOffset⟩ 4096 s).1 =
      some (item, dataSize)) :
    (readInline fuel fs treeBytenr ⟨inode, extentDataType, extentOffset⟩ item relative size s).1 =
        some out ↔
      inlineInRange item dataSize relative size ∧ out = item.octets (53 + relative) size := by
  rw [readInline, check_bind_fst, (btrfsReadItem_readOnly _ _ _ _).bind_fst, inlineInRange]
  simp only [btrfsReadItem_fst, hitem, Option.some.injEq, Prod.mk.injEq, pure_apply]
  constructor
  · rintro ⟨hguards, found, ⟨hne, size', ⟨rfl, rfl⟩, hle⟩, rfl⟩
    exact ⟨⟨hguards, hne, hle⟩, rfl⟩
  · rintro ⟨⟨hguards, hne, hle⟩, rfl⟩
    exact ⟨hguards, item, ⟨hne, dataSize, ⟨rfl, rfl⟩, hle⟩, rfl⟩

/-- The branches that are not inline keep the rule. -/
theorem regularSound_of_readRegular (hsector : fs.sectorSize < 2 ^ 32)
    (h : (readRegular decodeCompressedBlock initial fs item relative fileOffset size s).1 = some out) :
    RegularSound decodeCompressedBlock initial fs s item relative size out := by
  have hcompressed : ∀ (compression : BitVec 8)
      (unpack : Nat → List UInt8 → Nat → Option (List UInt8)), item 16 = compression →
      compression ≠ 0 → (∀ inSector, unpack inSector =
        decompress decodeCompressedBlock initial fs compression inSector) →
      (readCompressed fs (item 20) (ExtentFields.at item) relative fileOffset size unpack s).1 =
        some out → RegularSound decodeCompressedBlock initial fs s item relative size out := by
    rintro compression unpack rfl hne hunpack hread
    obtain ⟨covered, data, hchecked, hcovered, decoded, hdecoded, hpart⟩ :=
      checked_of_readCompressed hread
    rw [RegularSound, if_neg hne]
    rw [hunpack] at hdecoded
    exact ⟨covered, data, hchecked, hcovered, decoded, hdecoded, hpart⟩
  rw [readRegular] at h
  split_ifs at h with hzlib hlzo hzstd
  · obtain ⟨-, hread⟩ := check_bind_fst.mp h
    exact hcompressed 1 _ hzlib (by decide) (fun _ => rfl) hread
  · exact hcompressed 2 _ hlzo (by decide) (fun _ => rfl) h
  · exact hcompressed 3 _ hzstd (by decide) (fun _ => rfl) h
  · obtain ⟨hplain, hread⟩ := check_bind_fst.mp h
    rw [RegularSound, if_pos hplain]
    exact checked_of_readPlain hsector hread

/-- A call keeps the rule unless it returns the stored bytes of a compressed inline extent. -/
theorem sound_iff (hsector : fs.sectorSize < 2 ^ 32) :
    Sound decodeCompressedBlock initial fuel fs treeBytenr inode extentOffset fileOffset size s ↔
      ¬returnsStored decodeCompressedBlock initial fuel fs treeBytenr inode extentOffset fileOffset
        size s := by
  constructor
  · rintro hsound ⟨hargs, item, dataSize, hitem, hsize, hflags, hinline, hrange, hnot⟩
    have hout := (btrfsReadExtentData_fst decodeCompressedBlock initial hitem).mpr
      ⟨hargs, hsize, hflags, fun _ => (readInline_fst hitem).mpr ⟨hrange, rfl⟩, fun h => absurd hinline h⟩
    exact hnot ((hsound _ hout item dataSize hitem).1 hinline)
  · intro hnot out hout item dataSize hitem
    obtain ⟨hargs, hsize, hflags, hinline, hregular⟩ :=
      (btrfsReadExtentData_fst decodeCompressedBlock initial hitem).mp hout
    constructor
    · intro hcase
      obtain ⟨hrange, rfl⟩ := (readInline_fst hitem).mp (hinline hcase)
      by_contra hbad
      exact hnot ⟨hargs, item, dataSize, hitem, hsize, hflags, hcase, hrange, hbad⟩
    · exact fun hcase => regularSound_of_readRegular _ _ hsector (hregular hcase)

theorem sound_iff_sample :
    sampleFs.sectorSize < 2 ^ 32 ∧
      (Sound (fun _ _ _ _ => none) () 9 sampleFs 71680 258 0 0 4 sampleStorage ↔
        ¬returnsStored (fun _ _ _ _ => none) () 9 sampleFs 71680 258 0 0 4 sampleStorage) :=
  ⟨by decide, sound_iff _ _ (by decide)⟩

/-- Inode 257 decompresses to `aaaa`; what is returned are the first bytes of the zlib stream. -/
theorem stored_bytes_returned :
    ((do
        let fs ← btrfsMount 0
        btrfsResolveFilesystemTree 9 fs) sampleStorage).1 = some sampleFs ∧
      (btrfsReadExtentData (fun _ _ _ _ => none) () 9 sampleFs 71680 257 0 0 4 sampleStorage).1 =
        some [0x78, 0xda, 0x4b, 0x4c] ∧
      ¬Sound (fun _ _ _ _ => none) () 9 sampleFs 71680 257 0 0 4 sampleStorage := by
  have hout : (btrfsReadExtentData (fun _ _ _ _ => none) () 9 sampleFs 71680 257 0 0 4
      sampleStorage).1 = some [0x78, 0xda, 0x4b, 0x4c] := by decide +kernel
  have hitem : (btrfsReadItemFull 9 sampleFs 71680 ⟨257, extentDataType, 0⟩ 4096 sampleStorage).1.map
      (fun found => (found.1 20, found.1 16, decompress (fun _ _ _ _ => none) () sampleFs (found.1 16) 0
        (found.1.octets 53 (found.2 - 53)) (found.1.load64 8))) =
      some (0, 1, some [97, 97, 97, 97]) := by decide +kernel
  refine ⟨sample_mounted, hout, fun hsound => ?_⟩
  obtain ⟨⟨item, dataSize⟩, hread, hfields⟩ := Option.map_eq_some_iff.mp hitem
  simp only [Prod.mk.injEq] at hfields
  obtain ⟨hinline, hcompression, hdecoded⟩ := hfields
  obtain ⟨decoded, hsome, -, hpart⟩ := (hsound _ hout item dataSize hread).1 hinline
    (by rw [hcompression]; decide)
  rw [hdecoded] at hsome
  obtain rfl := Option.some.inj hsome
  exact absurd hpart (by decide)

end Contract

end KernelBoot.Btrfs
