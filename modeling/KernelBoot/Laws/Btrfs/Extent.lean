import KernelBoot.Laws.Btrfs.Tree

/-!
# The extents of a btrfs file

How `btrfs_read_file` finds the extents of a file in a well-formed tree, and what
`btrfs_read_extent_data` answers for a part of one that is stored as the format has it (`ExtentOk`):
the bytes of the part, if it fits in the buffers of the function (`partFits`), and else nothing.
-/

namespace KernelBoot.Btrfs

open Lib Lib.Attempt Drivers List Nat

variable {fs : BtrfsFs} {s : Storage}

section Extents

def extentsOf (inode : Nat) (items : List Item) : List Item :=
  items.filter fun item => item.key.objectid = inode ∧ item.key.type = extentDataType

def Item.start (extent : Item) : Nat := extent.key.offset

def Item.length (extent : Item) : Nat := extentLength extent.data

theorem mem_extentsOf {inode : Nat} {items : List Item} {extent : Item} :
    extent ∈ extentsOf inode items ↔
      extent ∈ items ∧ extent.key = ⟨inode, extentDataType, extent.start⟩ := by
  rw [extentsOf, mem_filter, decide_eq_true_eq]
  apply and_congr_right
  intro _
  cases extent with
  | mk key data size => cases key; simp [Item.start]

/-- The last extent that starts at or before an offset. -/
def IsLast (extents : List Item) (offset : Nat) (extent : Item) : Prop :=
  extent ∈ extents ∧ extent.start ≤ offset ∧
    ∀ other ∈ extents, other.start ≤ offset → other.start ≤ extent.start

/-- The first extent that starts behind an offset. -/
def IsNext (extents : List Item) (offset : Nat) (extent : Item) : Prop :=
  extent ∈ extents ∧ offset < extent.start ∧
    ∀ other ∈ extents, offset < other.start → extent.start ≤ other.start

variable (inode offset : Nat)

def startsBy (item : Item) : Prop :=
  (item.key.objectid = inode ∧ item.key.type = extentDataType) ∧ item.start ≤ offset

def startsBehind (item : Item) : Prop :=
  (item.key.objectid = inode ∧ item.key.type = extentDataType) ∧ offset < item.start

instance : DecidablePred (startsBy inode offset) := fun _ => inferInstanceAs (Decidable (_ ∧ _))

instance : DecidablePred (startsBehind inode offset) := fun _ => inferInstanceAs (Decidable (_ ∧ _))

theorem scanEntry_false :
    scanEntry inode offset false = keepBest (· < ·) (startsBy inode offset) Item.start := by
  funext best item
  simp only [scanEntry, keepBest, startsBy, Item.start]
  congr 1
  simp [and_assoc]

theorem scanEntry_true :
    scanEntry inode offset true = keepBest (· > ·) (startsBehind inode offset) Item.start := by
  funext best item
  simp only [scanEntry, keepBest, startsBehind, Item.start]
  congr 1
  simp [and_assoc]

variable {height bytenr : Nat} {items : List Item} (htree : TreeAt fs s height bytenr items)
  (hnodeSize : fs.nodeSize ≤ 65536) (hheight : height ≤ 8)

include htree hnodeSize hheight

/-- `btrfs_find_extent_start` finds the last extent that starts at or before the offset. -/
theorem btrfsFindExtentStart_cases :
    ((btrfsFindExtentStart fs bytenr inode offset s).1 = none ∧
        ∀ extent ∈ extentsOf inode items, offset < extent.start) ∨
      ∃ extent, IsLast (extentsOf inode items) offset extent ∧
        (btrfsFindExtentStart fs bytenr inode offset s).1 = some extent.start := by
  have hscan := (btrfsScanExtents_readOnly inode offset false 9 bytenr none).eq_some_iff.mpr
    (btrfsScanExtents_eq htree hnodeSize inode offset false 9 none (by omega))
  rw [btrfsFindExtentStart, bind_of_some hscan, scanEntry_false]
  rcases foldl_keepBest_cases (· < ·) (startsBy inode offset) Item.start items with
    ⟨hnone, hall⟩ | ⟨extent, hmem, ⟨hkey, hstart⟩, hsome, hbest⟩
  · rw [hnone]
    refine .inl ⟨rfl, fun extent hextent => ?_⟩
    rw [extentsOf, mem_filter, decide_eq_true_eq] at hextent
    by_contra hle
    exact hall extent hextent.1 ⟨hextent.2, not_lt.mp hle⟩
  rw [hsome]
  refine .inr ⟨extent, ⟨?_, hstart, fun other hother hle => ?_⟩, rfl⟩
  · rw [extentsOf, mem_filter, decide_eq_true_eq]
    exact ⟨hmem, hkey⟩
  · rw [extentsOf, mem_filter, decide_eq_true_eq] at hother
    rcases hbest other hother.1 ⟨hother.2, hle⟩ with hlt | heq
    · exact hlt.le
    · exact heq.le

/-- `btrfs_find_extent_after` finds the first extent that starts behind the offset. -/
theorem btrfsFindExtentAfter_cases :
    ((btrfsFindExtentAfter fs bytenr inode offset s).1 = none ∧
        ∀ extent ∈ extentsOf inode items, extent.start ≤ offset) ∨
      ∃ extent, IsNext (extentsOf inode items) offset extent ∧
        (btrfsFindExtentAfter fs bytenr inode offset s).1 = some extent.start := by
  have hscan := (btrfsScanExtents_readOnly inode offset true 9 bytenr none).eq_some_iff.mpr
    (btrfsScanExtents_eq htree hnodeSize inode offset true 9 none (by omega))
  rw [btrfsFindExtentAfter, bind_of_some hscan, scanEntry_true]
  rcases foldl_keepBest_cases (· > ·) (startsBehind inode offset) Item.start items with
    ⟨hnone, hall⟩ | ⟨extent, hmem, ⟨hkey, hstart⟩, hsome, hbest⟩
  · rw [hnone]
    refine .inl ⟨rfl, fun extent hextent => ?_⟩
    rw [extentsOf, mem_filter, decide_eq_true_eq] at hextent
    by_contra hlt
    exact hall extent hextent.1 ⟨hextent.2, not_le.mp hlt⟩
  rw [hsome]
  refine .inr ⟨extent, ⟨?_, hstart, fun other hother hlt => ?_⟩, rfl⟩
  · rw [extentsOf, mem_filter, decide_eq_true_eq]
    exact ⟨hmem, hkey⟩
  · rw [extentsOf, mem_filter, decide_eq_true_eq] at hother
    rcases hbest other hother.1 ⟨hother.2, hlt⟩ with hgt | heq
    · exact Nat.le_of_lt hgt
    · exact heq.ge

end Extents

section Data

/-- The sizes that `btrfs_mount` accepts. -/
structure Sized (fs : BtrfsFs) : Prop where
  sector : fs.sectorSize = 512 ∨ fs.sectorSize = 1024 ∨ fs.sectorSize = 2048 ∨ fs.sectorSize = 4096
  node : fs.nodeSize ≤ 65536

theorem Sized.sector_pos (h : Sized fs) : 0 < fs.sectorSize := by
  have := h.sector
  omega

theorem Sized.sector_le (h : Sized fs) : fs.sectorSize ≤ 4096 := by
  have := h.sector
  omega

theorem Sized.mod_sector (h : Sized fs) {n : Nat} (hn : n % fs.sectorSize = 0) : n % 512 = 0 := by
  have hdvd : 512 ∣ fs.sectorSize := by
    rcases h.sector with h | h | h | h <;> rw [h] <;> decide
  exact mod_eq_zero_of_dvd (hdvd.trans (dvd_of_mod_eq_zero hn))

/-- The byte at a logical address, by the chunk table. -/
def logicalByte (fs : BtrfsFs) (s : Storage) (logical : Nat) : BitVec 8 :=
  match btrfsMap fs logical 1 with
  | some place => (s.devices[place.1]?.map fun device => device.contents place.2).getD 0
  | none => 0

/-- A range of logical addresses that lies in one chunk, on good sectors, with valid checksums. -/
structure StoredAt (fs : BtrfsFs) (s : Storage) (bytenr size : Nat) (index : Nat)
    (device : StorageDevice) (physical : Nat) : Prop where
  device_eq : s.devices[index]? = some device
  blockSize : device.blockSize = 512
  aligned : physical % 512 = 0
  maps : ∀ o n, n ≠ 0 → o + n ≤ size → btrfsMap fs (bytenr + o) n = some (index, physical + o)
  good : ∀ k < size / 512, physical / 512 + k < device.blockCount ∧
    device.readable (physical / 512 + k) = true
  checksums : ∀ i < size / fs.sectorSize,
    (btrfsFindDataCsum fs (bytenr + i * fs.sectorSize) 9 fs.csumRootBytenr s).1 =
      some (crc32c (device.contents.window (physical + i * fs.sectorSize)) fs.sectorSize)

variable {bytenr size index physical : Nat} {device : StorageDevice}

section

variable (h : StoredAt fs s bytenr size index device physical)

include h

theorem StoredAt.logicalByte_eq {o : Nat}
    (ho : o < size) : logicalByte fs s (bytenr + o) = device.contents (physical + o) := by
  rw [logicalByte, h.maps o 1 (by decide) ho]
  simp [h.device_eq]

/-- A sector of such a range passes its check. -/
theorem StoredAt.validateSector_eq
    (hlimit : bytenr + size < 2 ^ 64) (hsector : 0 < fs.sectorSize) {k m i : Nat} (hi : i < m)
    (hle : k * fs.sectorSize + m * fs.sectorSize ≤ size) :
    (validateSector fs (bytenr + k * fs.sectorSize)
      (device.contents.window (physical + k * fs.sectorSize)) i s).1 = some () := by
  have hend : (k + i + 1) * fs.sectorSize ≤ size := by
    refine le_trans ?_ hle
    rw [← Nat.add_mul]
    exact Nat.mul_le_mul_right _ (by omega)
  have hindex : k + i < size / fs.sectorSize := (Nat.le_div_iff_mul_le hsector).mpr hend
  have hlogical : bytenr + k * fs.sectorSize + i * fs.sectorSize =
      bytenr + (k + i) * fs.sectorSize := by
    rw [Nat.add_mul, Nat.add_assoc]
  have hwindow : (device.contents.window (physical + k * fs.sectorSize)).window (i * fs.sectorSize) =
      device.contents.window (physical + (k + i) * fs.sectorSize) := by
    funext b
    rw [Bytes.window_apply, Bytes.window_apply, Bytes.window_apply, Nat.add_mul]
    congr 1
    omega
  rw [validateSector, check_bind_fst, (btrfsFindDataCsum_readOnly _ _ _).bind_fst, hlogical, hwindow]
  refine ⟨?_, _, h.checksums _ hindex, ?_⟩
  · rw [Nat.add_mul, Nat.one_mul] at hend
    omega
  · rw [check_of_true rfl]

/-- Whole sectors of such a range are read and pass their checks. -/
theorem StoredAt.btrfsReadChecked_eq
    (hsized : Sized fs) (hbytenr : bytenr % fs.sectorSize = 0) (hlimit : bytenr + size < 2 ^ 64)
    {k m : Nat} (hm : m ≠ 0) (hle : k * fs.sectorSize + m * fs.sectorSize ≤ size) :
    (btrfsReadChecked fs (bytenr + k * fs.sectorSize) (m * fs.sectorSize) s).1 =
      some (device.contents.window (physical + k * fs.sectorSize)) := by
  have hsector := hsized.sector_pos
  have ho512 := hsized.mod_sector (mul_mod_left k fs.sectorSize)
  have hn512 := hsized.mod_sector (mul_mod_left m fs.sectorSize)
  have hne : m * fs.sectorSize ≠ 0 := Nat.mul_ne_zero hm hsector.ne'
  have hcheck : (bytenr + k * fs.sectorSize) % fs.sectorSize = 0 := by
    rw [add_mul_mod_self_right, hbytenr]
  have hcount : m * fs.sectorSize / fs.sectorSize = m := Nat.mul_div_cancel m hsector
  have hvalid : (btrfsValidateData fs (bytenr + k * fs.sectorSize)
      (device.contents.window (physical + k * fs.sectorSize)) (m * fs.sectorSize) s).1 = some () := by
    rw [btrfsValidateData, check_bind_fst, ReadOnly.forAll_fst (validateSector_readOnly _ _), hcount]
    exact ⟨⟨hne, hcheck, mul_mod_left m fs.sectorSize⟩, fun i hi =>
      h.validateSector_eq hlimit hsector (mem_range.mp hi) hle⟩
  generalize hn : m * fs.sectorSize = n at *
  generalize ho : k * fs.sectorSize = o at *
  have hmap := h.maps o n hne hle
  have haligned : (physical + o) % 512 = 0 := by
    have := h.aligned
    omega
  have hread : (readAt (index, physical + o) n s).1 = some (device.contents.window (physical + o)) := by
    have hrange : device.inRange ((physical + o) / 512) (n / 512) ∧
        ∀ i < n / 512, device.readable ((physical + o) / 512 + i) = true := by
      have hphysical := h.aligned
      have hdiv : (physical + o) / 512 = physical / 512 + o / 512 := by omega
      refine ⟨⟨by omega, ?_, ?_⟩, fun i hi => ?_⟩
      · have := (h.good (o / 512) (by omega)).1
        omega
      · have := (h.good (o / 512 + n / 512 - 1) (by omega)).1
        omega
      · have := (h.good (o / 512 + i) (by omega)).2
        rwa [hdiv, Nat.add_assoc]
    have heq := storageRead_eq h.device_eq hrange
    rw [h.blockSize, show (physical + o) / 512 * 512 = physical + o by omega] at heq
    rw [readAt, heq]
  have hfirst : (readValidated fs (bytenr + o) n false s).1 =
      some (device.contents.window (physical + o)) := by
    rw [readValidated, ofOption_bind_fst]
    refine ⟨_, hmap, ?_⟩
    rw [check_bind_fst, (readAt_readOnly _ _).bind_fst]
    refine ⟨haligned, _, hread, ?_⟩
    rw [(btrfsValidateData_readOnly _ _ _).bind_fst]
    exact ⟨(), hvalid, rfl⟩
  rw [btrfsReadChecked, ofOption_bind_fst]
  refine ⟨_, hmap, ?_⟩
  rw [check_bind_fst, (readValidated_readOnly _ _ _).answer_bind, hfirst]
  exact ⟨haligned, rfl⟩

end

/-- A number of bytes in whole sectors. -/
def roundUp (fs : BtrfsFs) (bytes : Nat) : Nat := (bytes + fs.sectorSize - 1) / fs.sectorSize * fs.sectorSize

/-- The checks on `transfer` and `covered`, which are computed in 32 bits: they pass exactly when the
sectors fit in the buffer, and then nothing wrapped around. -/
theorem covered_iff (hsized : Sized fs) {inSector n : Nat} (hin : inSector < fs.sectorSize)
    (hn : n < 2 ^ 32) :
    let transfer := (inSector + n) % 2 ^ 32
    let covered := (transfer + fs.sectorSize - 1) % 2 ^ 32 / fs.sectorSize * fs.sectorSize
    ((n ≤ transfer ∧ transfer ≤ covered ∧ covered ≤ 4096) ↔ roundUp fs (inSector + n) ≤ 4096) ∧
      (roundUp fs (inSector + n) ≤ 4096 → covered = roundUp fs (inSector + n)) := by
  intro transfer covered
  have hsector := hsized.sector_pos
  have hle := hsized.sector_le
  have hround : inSector + n ≤ roundUp fs (inSector + n) := le_covered hsector
  by_cases hsmall : inSector + n ≤ 4096
  · have htransfer : transfer = inSector + n := mod_eq_of_lt (by omega)
    have hcovered : covered = roundUp fs (inSector + n) := by
      simp only [covered, htransfer, roundUp]
      rw [mod_eq_of_lt (by omega)]
    rw [htransfer, hcovered]
    exact ⟨⟨fun h => h.2.2, fun h => ⟨by omega, hround, h⟩⟩, fun _ => rfl⟩
  have hbig : ¬roundUp fs (inSector + n) ≤ 4096 := by omega
  refine ⟨⟨fun h => ?_, fun h => absurd h hbig⟩, fun h => absurd h hbig⟩
  exfalso
  have htransfer : transfer ≤ 4096 := h.2.1.trans h.2.2
  have hlow : n ≤ (inSector + n) % 2 ^ 32 := h.1
  have hmod : (inSector + n) % 2 ^ 32 ≤ 4096 := htransfer
  omega

/-- The fields of a regular extent that is stored as the format has it. -/
structure RegularOk (fs : BtrfsFs) (s : Storage) (extent : ExtentFields) : Prop where
  bytenr : extent.diskBytenr % fs.sectorSize = 0
  whole : extent.diskSize % fs.sectorSize = 0
  inside : extent.dataOffset + extent.dataSize ≤ extent.diskSize
  limit : extent.diskBytenr + extent.diskSize < 2 ^ 64
  stored : ∃ index device physical,
    StoredAt fs s extent.diskBytenr extent.diskSize index device physical

/-- The place of a byte of a regular extent. -/
def ExtentFields.address (extent : ExtentFields) (relative : Nat) : Nat :=
  extent.diskBytenr + extent.dataOffset + relative

/-- Where the sectors of a part of an extent lie: `k` sectors from its start, `m` of them. -/
theorem RegularOk.sectors {extent : ExtentFields} (h : RegularOk fs s extent) (hsized : Sized fs)
    {relative n : Nat} (hn : n ≠ 0) (hle : relative + n ≤ extent.dataSize) :
    let inSector := extent.address relative % fs.sectorSize
    ∃ k m, m ≠ 0 ∧ extent.address relative = extent.diskBytenr + k * fs.sectorSize + inSector ∧
      roundUp fs (inSector + n) = m * fs.sectorSize ∧
      k * fs.sectorSize + m * fs.sectorSize ≤ extent.diskSize := by
  intro inSector
  have hsector := hsized.sector_pos
  have hin : inSector = (extent.dataOffset + relative) % fs.sectorSize := by
    simp only [inSector, ExtentFields.address, Nat.add_assoc]
    rw [add_mod, h.bytenr, Nat.zero_add, mod_mod]
  have hsplit := div_add_mod (extent.dataOffset + relative) fs.sectorSize
  rw [← hin, Nat.mul_comm] at hsplit
  refine ⟨(extent.dataOffset + relative) / fs.sectorSize,
    (inSector + n + fs.sectorSize - 1) / fs.sectorSize, ?_, ?_, rfl, ?_⟩
  · have hpos : 0 < (inSector + n + fs.sectorSize - 1) / fs.sectorSize :=
      Nat.div_pos (by omega) hsector
    exact hpos.ne'
  · simp only [ExtentFields.address]
    omega
  · -- both the end of the extent and the start of the part are at sectors
    obtain ⟨d, hd⟩ := dvd_of_mod_eq_zero h.whole
    have hinside := h.inside
    have hend : (extent.dataOffset + relative) / fs.sectorSize * fs.sectorSize + (inSector + n) ≤
        d * fs.sectorSize := by
      rw [Nat.mul_comm d, ← hd]
      omega
    rw [← Nat.add_mul, hd, Nat.mul_comm fs.sectorSize d]
    apply Nat.mul_le_mul_right
    generalize (extent.dataOffset + relative) / fs.sectorSize = k at hend
    have hkd : (inSector + n + fs.sectorSize - 1) / fs.sectorSize ≤ d - k := by
      apply le_of_lt_succ
      rw [Nat.div_lt_iff_lt_mul hsector, succ_mul, Nat.sub_mul]
      omega
    have hk : k ≤ d := by
      by_contra hlt
      have := Nat.mul_le_mul_right fs.sectorSize (show d + 1 ≤ k by omega)
      rw [Nat.add_mul] at this
      omega
    omega

/-- What a read of a part of a regular extent answers. -/
theorem RegularOk.readPlain_eq {extent : ExtentFields} (h : RegularOk fs s extent)
    (hsized : Sized fs) {relative fileOffset n : Nat} (hn : n ≠ 0) (hn32 : n < 2 ^ 32)
    (hle : relative + n ≤ extent.dataSize) :
    (readPlain fs 1 extent relative fileOffset n s).1 =
      if extent.inReach fileOffset ∧
          roundUp fs (extent.address relative % fs.sectorSize + n) ≤ 4096 then
        some ((List.range n).map fun i =>
          UInt8.ofBitVec (logicalByte fs s (extent.address relative + i)))
      else none := by
  have hinside := h.inside
  have hlimit := h.limit
  have hwrap : (extent.diskBytenr + extent.dataOffset + relative) % 2 ^ 64 = extent.address relative :=
    mod_eq_of_lt (by omega)
  have hin : extent.address relative % fs.sectorSize < fs.sectorSize :=
    mod_lt _ hsized.sector_pos
  obtain ⟨hiff, hcovered⟩ := covered_iff hsized hin hn32
  obtain ⟨k, m, hm, haddress, hround, hfits⟩ := h.sectors hsized hn hle
  obtain ⟨index, device, physical, hstored⟩ := h.stored
  have hread := hstored.btrfsReadChecked_eq hsized h.bytenr hlimit hm hfits
  have hstart : extent.address relative - extent.address relative % fs.sectorSize =
      extent.diskBytenr + k * fs.sectorSize := by omega
  apply Option.ext
  intro out
  rw [readPlain, hwrap, check_bind_fst, check_bind_fst, check_bind_fst,
    (btrfsReadChecked_readOnly _ _).bind_fst, hiff]
  by_cases hcond : extent.inReach fileOffset ∧
      roundUp fs (extent.address relative % fs.sectorSize + n) ≤ 4096
  · rw [if_pos hcond, hcovered hcond.2, hstart, hround, hread]
    have hbytes : (device.contents.window (physical + k * fs.sectorSize)).octets
        (extent.address relative % fs.sectorSize) n =
        (List.range n).map fun i =>
          UInt8.ofBitVec (logicalByte fs s (extent.address relative + i)) := by
      apply map_congr_left
      intro i hi
      rw [mem_range] at hi
      have hbyte := hstored.logicalByte_eq
        (show k * fs.sectorSize + (extent.address relative % fs.sectorSize + i) < extent.diskSize by
          simp only [ExtentFields.address] at haddress ⊢
          omega)
      rw [Bytes.window_apply, Nat.add_assoc, ← hbyte]
      congr 2
      omega
    constructor
    · rintro ⟨-, -, -, data, hdata, hout⟩
      obtain rfl := Option.some.inj hdata
      rw [← hbytes]
      exact hout
    · intro hout
      refine ⟨rfl, ⟨by omega, by omega, by omega, by omega, by omega, hcond.1⟩, hround ▸ hcond.2, _, rfl, ?_⟩
      rw [← hbytes] at hout
      exact hout
  · rw [if_neg hcond]
    constructor
    · rintro ⟨-, ⟨-, -, -, -, -, hreach⟩, hfit, -⟩
      exact absurd ⟨hreach, hfit⟩ hcond
    · intro hout
      cases hout

/-- An extent item of the kinds a file may have here: inline or regular, not compressed, encrypted or
otherwise encoded, with its bytes where it says. -/
structure ExtentOk (fs : BtrfsFs) (s : Storage) (extent : Item) : Prop where
  encoding : extent.data 16 = 0 ∧ extent.data 17 = 0 ∧ extent.data 18 = 0
  size : 53 ≤ extent.size
  type : extent.data 20 = 0 ∨ extent.data 20 = 1
  inline : extent.data 20 = 0 → 53 + extent.length ≤ extent.size
  regular : extent.data 20 = 1 → RegularOk fs s (ExtentFields.at extent.data)

/-- A byte of an extent. -/
def extentByte (fs : BtrfsFs) (s : Storage) (extent : Item) (i : Nat) : UInt8 :=
  UInt8.ofBitVec (if extent.data 20 = 0 then extent.data (53 + i)
    else logicalByte fs s ((ExtentFields.at extent.data).address i))

/-- What a read of a part of an extent depends on: the nodes fit in the buffer for an item, and the
sectors of a regular extent in the buffer for data. -/
def partFits (fs : BtrfsFs) (extent : Item) (offset n : Nat) : Prop :=
  fs.nodeSize ≤ 4096 ∧ (extent.data 20 ≠ 0 →
    (ExtentFields.at extent.data).inReach offset ∧
    roundUp fs ((ExtentFields.at extent.data).address (offset - extent.start) % fs.sectorSize + n) ≤
      4096)

instance (extent : Item) (offset n : Nat) : Decidable (partFits fs extent offset n) :=
  inferInstanceAs (Decidable (_ ∧ _))

variable {σ : Type} {decodeCompressedBlock : (block output : List UInt8) → (capacity : Nat) → σ →
  Option (List UInt8 × σ)} {initial : σ} {height inode offset n fuel : Nat} {items : List Item}
  {extent : Item}

theorem ExtentOk.readInline_eq (hok : ExtentOk fs s extent) (hnode : fs.nodeSize ≤ 4096)
    (hsize : extent.size ≤ fs.nodeSize) (hinline : extent.data 20 = 0)
    (hitem : (btrfsReadItemFull fuel fs bytenr ⟨inode, extentDataType, extent.start⟩ 4096 s).1 =
      some (extent.data, extent.size)) {relative : Nat} (hle : relative + n ≤ extent.length) :
    (readInline fuel fs bytenr ⟨inode, extentDataType, extent.start⟩ extent.data relative n s).1 =
      some ((List.range n).map fun i => extentByte fs s extent (relative + i)) := by
  have hlength : extent.length = extent.data.load64 8 := if_pos hinline
  have hinside := hok.inline hinline
  have hsub : sub64 (4096 - 53) relative = 4096 - 53 - relative := by
    rw [sub64]
    omega
  rw [readInline_fst hitem, inlineInRange, hsub, ← hlength]
  refine ⟨by omega, ?_⟩
  apply map_congr_left
  intro i _
  rw [extentByte, if_pos hinline, Nat.add_assoc]

/-- What `btrfs_read_extent_data` answers for a part of an extent. -/
theorem btrfsReadExtentData_eq (htree : TreeAt fs s height bytenr items) (hsized : Sized fs)
    (hmem : extent ∈ extentsOf inode items) (hok : ExtentOk fs s extent) (hfuel : height < fuel)
    (hstart : extent.start ≤ offset) (hn : n ≠ 0) (hn32 : n < 2 ^ 32)
    (hle : offset - extent.start + n ≤ extent.length) :
    (btrfsReadExtentData decodeCompressedBlock initial fuel fs bytenr inode extent.start offset n s).1 =
      if partFits fs extent offset n then
        some ((List.range n).map fun i => extentByte fs s extent (offset - extent.start + i))
      else none := by
  obtain ⟨hmem', hkey⟩ := mem_extentsOf.mp hmem
  have hsize := htree.size_le extent hmem'
  by_cases hnode : fs.nodeSize ≤ 4096
  · have hitem := btrfsReadItemFull_of_mem htree hsized.node hmem' hfuel
    rw [hkey, if_pos (hsize.trans hnode)] at hitem
    apply Option.ext
    intro out
    rw [btrfsReadExtentData_fst _ _ hitem]
    rcases hok.type with hinline | hregular
    · have hfits : partFits fs extent offset n := ⟨hnode, fun h => absurd hinline h⟩
      rw [if_pos hfits, ← hok.readInline_eq hnode hsize hinline hitem hle]
      constructor
      · rintro ⟨-, -, -, hout, -⟩
        exact hout hinline
      · intro hout
        exact ⟨⟨hn, hnode, hstart⟩, hok.size, hok.encoding.2, fun _ => hout, fun h => absurd hinline h⟩
    have hne : extent.data 20 ≠ 0 := by
      rw [hregular]
      decide
    have hlength : extent.length = (ExtentFields.at extent.data).dataSize := if_neg hne
    have hplain := @RegularOk.readPlain_eq fs s _ (hok.regular hregular) hsized _ offset _ hn hn32
      (hlength ▸ hle)
    have hread : (readRegular decodeCompressedBlock initial fs extent.data (offset - extent.start)
        offset n s).1 = if partFits fs extent offset n then
          some ((List.range n).map fun i => extentByte fs s extent (offset - extent.start + i))
        else none := by
      have hnot : extent.data 16 ≠ 1 ∧ extent.data 16 ≠ 2 ∧ extent.data 16 ≠ 3 := by
        rw [hok.encoding.1]
        decide
      rw [readRegular, if_neg hnot.1, if_neg hnot.2.1, if_neg hnot.2.2,
        bind_of_some (check_of_true hok.encoding.1 s), hregular, hplain]
      apply if_congr
      · exact ⟨fun h => ⟨hnode, fun _ => h⟩, fun h => h.2 hne⟩
      · congr 1
        apply map_congr_left
        intro i _
        rw [extentByte, if_neg hne, ExtentFields.address, ExtentFields.address, Nat.add_assoc]
      · rfl
    rw [← hread]
    constructor
    · rintro ⟨-, -, -, -, hout⟩
      exact hout hne
    · intro hout
      exact ⟨⟨hn, hnode, hstart⟩, hok.size, hok.encoding.2, fun h => absurd h hne, fun _ => hout⟩
  · rw [if_neg fun h => hnode h.1, btrfsReadExtentData,
      bind_of_none (check_of_false (fun h => hnode h.2.1) s)]

end Data

end KernelBoot.Btrfs
