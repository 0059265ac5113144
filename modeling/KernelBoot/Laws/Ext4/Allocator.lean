import KernelBoot.Ext4.Allocator

/-!
# Laws of the ext4 block allocator

By the format, bit `b` of the bitmap of group `g` stands for block `first + g * blocks_per_group + b`.
The source places a block by the average number of blocks in a group instead (`sourcePlace`).
`ext4SetBlockUsed_eq` and `bit_setBit` say which bit a call changes, and `exists_misplaced` that the two
places disagree for some block unless the geometry is `Aligned`. So the allocator does what it is for
(`Allocates`) exactly on aligned geometries.
-/

namespace KernelBoot.Ext4

open Lib Lib.Attempt Nat

variable {fs : Ext4Fs} {disk disk' : Bytes}
variable {at_ : Nat × Nat}

section Accesses

variable {block : Nat} {buffer : Bytes}

theorem readBlock_eq (hsize : fs.blockSize ≤ 4096) (h : block < fs.blockCount) :
    readBlock fs block disk = (some (disk.window (block * fs.blockSize)), disk) :=
  bind_of_some (check_of_true ⟨h, hsize⟩ disk)

theorem writeBlock_eq (hsize : 512 ≤ fs.blockSize) (h : block < fs.blockCount) :
    writeBlock fs block buffer disk =
      (some (), disk.splice (block * fs.blockSize) fs.blockSize buffer) := by
  refine bind_of_some (check_of_true ⟨?_, h⟩ disk)
  have hdiv : 512 / 512 ≤ fs.blockSize / 512 := Nat.div_le_div_right hsize
  omega

/-- Blocks do not overlap. -/
theorem window_splice_block {size a b : Nat} (h : a ≠ b) {data : Bytes} {i : Nat} (hi : i < size) :
    (disk.splice (a * size) size data).window (b * size) i = disk.window (b * size) i := by
  apply Bytes.window_splice_of_disjoint
  rcases Nat.lt_or_gt_of_ne h with hlt | hlt
  all_goals
    have hmul := Nat.mul_le_mul_right size (succ_le_of_lt hlt)
    rw [succ_mul] at hmul
    omega

end Accesses

section Format

/-- The first block of group 0: 1 where a block has 1 KiB, else 0. -/
def firstDataBlock (fs : Ext4Fs) : Nat := if fs.blockSize = 1024 then 1 else 0

/-- The group of a block and the number of its bit there, by the format. -/
def place (fs : Ext4Fs) (perGroup block : Nat) : Nat × Nat :=
  ((block - firstDataBlock fs) / perGroup, (block - firstDataBlock fs) % perGroup)

/-- The average number of blocks in a group. -/
def groupSpan (fs : Ext4Fs) : Nat := fs.blockCount / fs.groupsCount

/-- The group of a block and the number of its bit there, as the source computes them. -/
def sourcePlace (fs : Ext4Fs) (block : Nat) : Nat × Nat :=
  (block / groupSpan fs, block - block / groupSpan fs * groupSpan fs)

/-- The bitmap block of a group. -/
def bitmapBlock (fs : Ext4Fs) (disk : Bytes) (group : Nat) : Nat :=
  descriptorBitmap fs
    ((disk.window (descriptorBlockOf fs group * fs.blockSize)).window (descriptorOffset fs group))

/-- A bit of the bitmap of a group. -/
def bit (fs : Ext4Fs) (disk : Bytes) (at_ : Nat × Nat) : Bool :=
  Bitmap.test (disk.window (bitmapBlock fs disk at_.1 * fs.blockSize)) at_.2

/-- What a mount makes sure of. -/
structure Geometry (fs : Ext4Fs) (perGroup : Nat) : Prop where
  blockSize : fs.blockSize = 1024 ∨ fs.blockSize = 2048 ∨ fs.blockSize = 4096
  perGroup_pos : 0 < perGroup
  groupsCount : fs.groupsCount =
    fs.blockCount / perGroup + if fs.blockCount % perGroup ≠ 0 then 1 else 0
  descriptorSize : 32 ≤ fs.descriptorSize
  descriptorSize64 : fs.has64bit = true → 64 ≤ fs.descriptorSize
  descriptorBlock : (if fs.blockSize = 1024 then 2 else 1) < fs.blockCount

/-- The descriptors and the bitmaps are where the format allows them: in blocks of their own, which
are marked as used. -/
structure Formatted (fs : Ext4Fs) (perGroup : Nat) (disk : Bytes) : Prop where
  perGroup_le : perGroup ≤ 8 * fs.blockSize
  descriptor_fits : ∀ g < fs.groupsCount, descriptorOffset fs g + fs.descriptorSize ≤ fs.blockSize
  descriptor_lt : ∀ g < fs.groupsCount, descriptorBlockOf fs g < fs.blockCount
  bitmap_lt : ∀ g < fs.groupsCount, bitmapBlock fs disk g < fs.blockCount
  bitmap_inj : ∀ g < fs.groupsCount, ∀ g' < fs.groupsCount,
    bitmapBlock fs disk g = bitmapBlock fs disk g' → g = g'
  bitmap_ne : ∀ g < fs.groupsCount, ∀ g' < fs.groupsCount,
    bitmapBlock fs disk g ≠ descriptorBlockOf fs g'
  descriptor_used : ∀ g < fs.groupsCount, bit fs disk (place fs perGroup (descriptorBlockOf fs g)) = true
  bitmap_used : ∀ g < fs.groupsCount, bit fs disk (place fs perGroup (bitmapBlock fs disk g)) = true

variable {perGroup : Nat}

theorem geometry_of_mount {deviceBlocks : Nat} (h : ext4Mount deviceBlocks disk = some fs) :
    Geometry fs (blocksPerGroup disk) := by
  rw [ext4Mount] at h
  split_ifs at h with hok
  obtain rfl := Option.some.inj h
  obtain ⟨-, ⟨-, hlog, -, -, hper, -, -, -, -, hdesc, -, hdesc64, -⟩, -, -, -, hblock, -⟩ := hok
  refine ⟨?_, Nat.pos_of_ne_zero hper, rfl, hdesc, hdesc64, hblock⟩
  change 1024 <<< (superblock disk).load32 24 = 1024 ∨ 1024 <<< (superblock disk).load32 24 = 2048 ∨
    1024 <<< (superblock disk).load32 24 = 4096
  generalize (superblock disk).load32 24 = log at hlog
  interval_cases log <;> decide

theorem groupSpan_mul_le (fs : Ext4Fs) : fs.groupsCount * groupSpan fs ≤ fs.blockCount :=
  mul_div_le _ _

namespace Geometry

variable (hgeo : Geometry fs perGroup)
include hgeo

theorem blockSize_le : fs.blockSize ≤ 4096 := by
  have h := hgeo.blockSize
  omega

theorem le_blockSize : 1024 ≤ fs.blockSize := by
  have h := hgeo.blockSize
  omega

theorem blockCount_pos : 0 < fs.blockCount := zero_lt_of_lt hgeo.descriptorBlock

/-- `perGroup` blocks in each group but the last reach into the last group and no further. -/
theorem groups_bounds : (fs.groupsCount - 1) * perGroup < fs.blockCount ∧
    fs.blockCount ≤ fs.groupsCount * perGroup ∧ 0 < fs.groupsCount := by
  have hcount := hgeo.groupsCount
  have hpos := hgeo.blockCount_pos
  have hdiv := div_add_mod' fs.blockCount perGroup
  have hlt := mod_lt fs.blockCount hgeo.perGroup_pos
  split_ifs at hcount with hmod
  · rw [hcount, Nat.add_sub_cancel, succ_mul]
    exact ⟨by omega, by omega, succ_pos _⟩
  · rw [not_not.mp hmod, Nat.add_zero] at hdiv
    rw [Nat.add_zero] at hcount
    rw [← hcount] at hdiv
    cases hgroups : fs.groupsCount with
    | zero =>
      rw [hgroups, Nat.zero_mul] at hdiv
      omega
    | succ n =>
      rw [hgroups, succ_mul] at hdiv
      rw [Nat.add_sub_cancel, succ_mul]
      exact ⟨by omega, by omega, succ_pos _⟩

theorem groupSpan_pos : 0 < groupSpan fs := by
  obtain ⟨hlow, -, hgroups⟩ := hgeo.groups_bounds
  apply Nat.div_pos _ hgroups
  have hle := Nat.le_mul_of_pos_right (fs.groupsCount - 1) hgeo.perGroup_pos
  omega

theorem groupSpan_le : groupSpan fs ≤ perGroup := Nat.div_le_of_le_mul hgeo.groups_bounds.2.1

theorem sourcePlace_lt (block : Nat) : (sourcePlace fs block).2 < groupSpan fs := by
  rw [sourcePlace, ← mod_eq_sub_div_mul]
  exact mod_lt block hgeo.groupSpan_pos

end Geometry

/-- The geometries in which the average is `perGroup`, or there is only one group, and no block comes
before the first group. -/
def Aligned (fs : Ext4Fs) (perGroup : Nat) : Prop :=
  fs.blockSize ≠ 1024 ∧ (fs.groupsCount = 1 ∨ perGroup ∣ fs.blockCount)

instance : Decidable (Aligned fs perGroup) := inferInstanceAs (Decidable (_ ∧ _))

namespace Geometry

variable (hgeo : Geometry fs perGroup)
include hgeo

theorem groupSpan_eq_of_dvd (h : perGroup ∣ fs.blockCount) : groupSpan fs = perGroup := by
  have hcount := hgeo.groupsCount
  rw [if_neg (not_not.mpr (mod_eq_zero_of_dvd h)), Nat.add_zero] at hcount
  rw [groupSpan, hcount]
  exact Nat.div_div_self h hgeo.blockCount_pos.ne'

/-- If the average is `perGroup`, all groups are full. -/
theorem dvd_of_groupSpan_eq (h : groupSpan fs = perGroup) : perGroup ∣ fs.blockCount := by
  have hlow := groupSpan_mul_le fs
  obtain ⟨-, hhigh, -⟩ := hgeo.groups_bounds
  rw [h] at hlow
  exact ⟨fs.groupsCount, by rw [Nat.mul_comm]; omega⟩

/-- In an aligned geometry every group has the average number of blocks. -/
theorem groupsCount_mul_of_aligned (h : Aligned fs perGroup) :
    fs.groupsCount * groupSpan fs = fs.blockCount := by
  rcases h.2 with hone | hdvd
  · rw [groupSpan, hone, Nat.div_one, Nat.one_mul]
  · have hlow := groupSpan_mul_le fs
    obtain ⟨-, hhigh, -⟩ := hgeo.groups_bounds
    rw [hgeo.groupSpan_eq_of_dvd hdvd] at hlow ⊢
    omega

theorem sourcePlace_eq_of_aligned (h : Aligned fs perGroup) {block : Nat}
    (hlt : block < fs.blockCount) : sourcePlace fs block = place fs perGroup block := by
  rw [sourcePlace, place, firstDataBlock, if_neg h.1, Nat.sub_zero]
  rcases h.2 with hone | hdvd
  · have hspan : groupSpan fs = fs.blockCount := by rw [groupSpan, hone, Nat.div_one]
    obtain ⟨-, hhigh, -⟩ := hgeo.groups_bounds
    rw [hone, Nat.one_mul] at hhigh
    rw [hspan, div_eq_of_lt hlt, div_eq_of_lt (by omega), mod_eq_of_lt (by omega),
      Nat.zero_mul, Nat.sub_zero]
  · rw [hgeo.groupSpan_eq_of_dvd hdvd, mod_eq_sub_div_mul]

/-- Elsewhere some block is placed wrong, in a group that exists and at a bit of it. -/
theorem exists_misplaced (h : ¬Aligned fs perGroup) :
    ∃ block, firstDataBlock fs ≤ block ∧ block < fs.blockCount ∧
      block / groupSpan fs < fs.groupsCount ∧ (sourcePlace fs block).2 ≤ 1 ∧
      sourcePlace fs block ≠ place fs perGroup block := by
  have hspan := hgeo.groupSpan_pos
  have hmul := groupSpan_mul_le fs
  by_cases hsize : fs.blockSize = 1024
  · -- block 1 has the first bit, and the source takes another
    have hcount := hgeo.descriptorBlock
    rw [if_pos hsize] at hcount
    have hfirst : firstDataBlock fs = 1 := if_pos hsize
    refine ⟨1, by omega, by omega, ?_, ?_, ?_⟩
    · rcases Nat.lt_or_ge 1 (groupSpan fs) with hlt | hge
      · rw [div_eq_of_lt hlt]
        exact hgeo.groups_bounds.2.2
      · rw [show groupSpan fs = 1 by omega, Nat.div_one]
        by_contra hgroups
        have hone : fs.groupsCount = 1 := by
          have := hgeo.groups_bounds.2.2
          omega
        rw [groupSpan, hone, Nat.div_one] at hge
        omega
    · exact sub_le _ _
    · rw [sourcePlace, place, hfirst, Nat.sub_self, Nat.zero_div, zero_mod]
      intro heq
      rw [Prod.mk.injEq] at heq
      rw [heq.1] at heq
      omega
  · -- the first block that the source puts in group 1
    have hmany : fs.groupsCount ≠ 1 := fun hone => h ⟨hsize, .inl hone⟩
    have hndvd : ¬perGroup ∣ fs.blockCount := fun hdvd => h ⟨hsize, .inr hdvd⟩
    have hgroups := hgeo.groups_bounds.2.2
    have hlt : groupSpan fs < perGroup :=
      lt_of_le_of_ne hgeo.groupSpan_le fun heq => hndvd (hgeo.dvd_of_groupSpan_eq heq)
    have htwo := Nat.mul_le_mul_right (groupSpan fs) (show 2 ≤ fs.groupsCount by omega)
    have hfirst : firstDataBlock fs = 0 := if_neg hsize
    refine ⟨groupSpan fs, by omega, by omega, ?_, ?_, ?_⟩
    · rw [Nat.div_self hspan]
      omega
    · rw [sourcePlace, Nat.div_self hspan, Nat.one_mul, Nat.sub_self]
      omega
    · rw [sourcePlace, place, hfirst, Nat.sub_zero, Nat.div_self hspan, div_eq_of_lt hlt]
      intro heq
      rw [Prod.mk.injEq] at heq
      omega

end Geometry

end Format

section Bits

variable {perGroup : Nat} {data : Bytes} {block group : Nat}

/-- A descriptor that a write does not reach names the same bitmap. -/
theorem bitmapBlock_splice (hgeo : Geometry fs perGroup)
    (hfits : descriptorOffset fs group + fs.descriptorSize ≤ fs.blockSize)
    (h : block ≠ descriptorBlockOf fs group) :
    bitmapBlock fs (disk.splice (block * fs.blockSize) fs.blockSize data) group =
      bitmapBlock fs disk group := by
  have hbyte : ∀ k, k < fs.descriptorSize →
      ((disk.splice (block * fs.blockSize) fs.blockSize data).window
        (descriptorBlockOf fs group * fs.blockSize)).window (descriptorOffset fs group) k =
      (disk.window (descriptorBlockOf fs group * fs.blockSize)).window (descriptorOffset fs group) k :=
    fun k hk => window_splice_block h (by omega)
  have hsize := hgeo.descriptorSize
  rw [bitmapBlock, bitmapBlock, descriptorBitmap, descriptorBitmap]
  rw [Bytes.load32_congr (i := 0) fun k hk => hbyte (0 + k) (by omega)]
  by_cases h64 : fs.has64bit = true
  · have hsize64 := hgeo.descriptorSize64 h64
    rw [if_pos h64, if_pos h64, Bytes.load32_congr (i := 32) fun k hk => hbyte (32 + k) (by omega)]
  · rw [if_neg h64, if_neg h64]

/-- A write to a block that holds neither the descriptor nor the bitmap of a group. -/
theorem bit_splice_of_ne (hgeo : Geometry fs perGroup)
    (hfits : descriptorOffset fs at_.1 + fs.descriptorSize ≤ fs.blockSize)
    (hbit : at_.2 < 8 * fs.blockSize) (hdesc : block ≠ descriptorBlockOf fs at_.1)
    (hbitmap : block ≠ bitmapBlock fs disk at_.1) :
    bit fs (disk.splice (block * fs.blockSize) fs.blockSize data) at_ = bit fs disk at_ := by
  rw [bit, bitmapBlock_splice hgeo hfits hdesc]
  exact Bytes.test_congr hbit fun i hi => window_splice_block hbitmap hi

/-- A write of a whole bitmap. -/
theorem bit_splice_bitmap (hgeo : Geometry fs perGroup) (hfmt : Formatted fs perGroup disk)
    (hgroup : at_.1 < fs.groupsCount) (hbit : at_.2 < 8 * fs.blockSize) :
    bit fs (disk.splice (bitmapBlock fs disk at_.1 * fs.blockSize) fs.blockSize data) at_ =
      Bitmap.test data at_.2 := by
  rw [bit, bitmapBlock_splice hgeo (hfmt.descriptor_fits _ hgroup) (hfmt.bitmap_ne _ hgroup _ hgroup)]
  exact Bytes.test_congr hbit fun i hi => Bytes.window_splice hi

/-- The disk after one bit of a bitmap was written. -/
def setBit (fs : Ext4Fs) (disk : Bytes) (at_ : Nat × Nat) (used : Bool) : Bytes :=
  let data := disk.window (bitmapBlock fs disk at_.1 * fs.blockSize)
  disk.splice (bitmapBlock fs disk at_.1 * fs.blockSize) fs.blockSize
    (if used then Bitmap.set data at_.2 else Bitmap.clear data at_.2)

theorem test_ite {b : Bytes} {n m : Nat} {used : Bool} :
    Bitmap.test (if used then Bitmap.set b n else Bitmap.clear b n) m =
      if m = n then used else Bitmap.test b m := by
  cases used with
  | false => simp [Bitmap.test_clear, Bool.and_comm]
  | true => simp [Bitmap.test_set, Bool.or_comm]

/-- Exactly that bit is written. -/
theorem bit_setBit (hgeo : Geometry fs perGroup) (hfmt : Formatted fs perGroup disk)
    {target : Nat × Nat} {used : Bool} (htarget : target.1 < fs.groupsCount)
    (hgroup : at_.1 < fs.groupsCount) (hbit : at_.2 < 8 * fs.blockSize) :
    bit fs (setBit fs disk target used) at_ = if at_ = target then used else bit fs disk at_ := by
  by_cases hsame : at_.1 = target.1
  · rw [setBit, ← hsame, bit_splice_bitmap hgeo hfmt hgroup hbit, test_ite]
    by_cases hat : at_.2 = target.2
    · rw [if_pos hat, if_pos (Prod.ext hsame hat)]
    · rw [if_neg hat, if_neg fun heq => hat (congrArg Prod.snd heq), bit]
  · rw [if_neg fun heq => hsame (congrArg Prod.fst heq)]
    apply bit_splice_of_ne hgeo (hfmt.descriptor_fits _ hgroup) hbit (hfmt.bitmap_ne _ htarget _ hgroup)
    exact fun heq => hsame (hfmt.bitmap_inj _ htarget _ hgroup heq).symm

end Bits

section Calls

variable {perGroup : Nat} {block group : Nat} {used : Bool}

/-- The number of blocks that the source gives a group. -/
def groupCount (fs : Ext4Fs) (group : Nat) : Nat :=
  if group + 1 = fs.groupsCount then fs.blockCount - group * groupSpan fs else groupSpan fs

section

variable (hgeo : Geometry fs perGroup)

include hgeo

theorem groupCount_pos : 0 < groupCount fs group := by
  have hspan := hgeo.groupSpan_pos
  rw [groupCount]
  split_ifs with hlast
  · have hmul := groupSpan_mul_le fs
    rw [← hlast, Nat.add_mul, Nat.one_mul] at hmul
    omega
  · exact hspan

theorem groupBitmap_eq (hfmt : Formatted fs perGroup disk)
    (hgroup : group < fs.groupsCount) :
    groupBitmap fs group disk =
      (some (bitmapBlock fs disk group, group * groupSpan fs, groupCount fs group), disk) := by
  rw [groupBitmap, bind_of_some (check_of_true ⟨hgroup, hfmt.descriptor_fits _ hgroup⟩ disk),
    bind_of_some (readBlock_eq hgeo.blockSize_le (hfmt.descriptor_lt _ hgroup))]
  exact bind_of_some
    (check_of_true ⟨hfmt.bitmap_lt _ hgroup, (groupCount_pos hgeo).ne'⟩ disk)

/-- A block that is not the last of its group by more than the group has. -/
theorem sourcePlace_lt_groupCount (hblock : block < fs.blockCount) :
    (sourcePlace fs block).2 < groupCount fs (sourcePlace fs block).1 := by
  rw [groupCount]
  split_ifs with hlast
  · exact Nat.sub_lt_sub_right (div_mul_le_self block (groupSpan fs)) hblock
  · exact hgeo.sourcePlace_lt block

/-- A call that finds its group and its byte writes one bit. -/
theorem ext4SetBlockUsed_eq (hfmt : Formatted fs perGroup disk)
    (hblock : block < fs.blockCount) (hgroup : (sourcePlace fs block).1 < fs.groupsCount)
    (hbit : (sourcePlace fs block).2 < 8 * fs.blockSize) :
    ext4SetBlockUsed fs block used disk = (some (), setBit fs disk (sourcePlace fs block) used) := by
  have hbitmap := hfmt.bitmap_lt _ hgroup
  have hin : (sourcePlace fs block).1 * groupSpan fs ≤ block ∧
      block - (sourcePlace fs block).1 * groupSpan fs < groupCount fs (sourcePlace fs block).1 :=
    ⟨div_mul_le_self _ _, sourcePlace_lt_groupCount hgeo hblock⟩
  have hbyte : (sourcePlace fs block).2 / 8 < fs.blockSize := by omega
  have hsize := hgeo.le_blockSize
  apply (bind_of_some (check_of_true hgroup disk)).trans
  apply (bind_of_some (groupBitmap_eq hgeo hfmt hgroup)).trans
  apply (bind_of_some (check_of_true hin disk)).trans
  apply (bind_of_some (readBlock_eq hgeo.blockSize_le hbitmap)).trans
  apply (bind_of_some (check_of_true hbyte disk)).trans
  exact writeBlock_eq (by omega) hbitmap

end

/-- The disk after a block was allocated: its bit is set and it is filled with zeros. -/
def allocated (fs : Ext4Fs) (disk : Bytes) (block : Nat) : Bytes :=
  (setBit fs disk (sourcePlace fs block) true).splice (block * fs.blockSize) fs.blockSize Bytes.zero

section Aligned

variable (hgeo : Geometry fs perGroup) (hfmt : Formatted fs perGroup disk)
  (haligned : Aligned fs perGroup)
include hgeo hfmt haligned

omit hfmt in
theorem groupCount_of_aligned : groupCount fs group = groupSpan fs := by
  rw [groupCount]
  split_ifs with hlast
  · rw [← hgeo.groupsCount_mul_of_aligned haligned, ← hlast, Nat.add_mul, Nat.one_mul]
    omega
  · rfl

omit hfmt in
/-- Every block has a group, and its bit is in the bitmap. -/
theorem sourcePlace_bounds (hblock : block < fs.blockCount) :
    (sourcePlace fs block).1 < fs.groupsCount ∧ (sourcePlace fs block).2 < perGroup := by
  rw [← hgeo.groupsCount_mul_of_aligned haligned, Nat.mul_comm] at hblock
  exact ⟨Nat.div_lt_of_lt_mul hblock, (hgeo.sourcePlace_lt block).trans_le hgeo.groupSpan_le⟩

theorem ext4SetBlockUsed_of_aligned (hblock : block < fs.blockCount) :
    ext4SetBlockUsed fs block used disk = (some (), setBit fs disk (sourcePlace fs block) used) := by
  obtain ⟨hgroup, hbit⟩ := sourcePlace_bounds hgeo haligned hblock
  have hper := hfmt.perGroup_le
  exact ext4SetBlockUsed_eq hgeo hfmt hblock hgroup (by omega)

omit hfmt in
/-- The block that a bit of a group stands for. -/
theorem sourcePlace_candidate {n : Nat} (hgroup : group < fs.groupsCount) (hn : n < groupSpan fs) :
    sourcePlace fs (group * groupSpan fs + n) = (group, n) ∧
      group * groupSpan fs + n < fs.blockCount := by
  constructor
  · rw [sourcePlace, Nat.mul_comm, mul_add_div hgeo.groupSpan_pos, div_eq_of_lt hn,
      Nat.add_zero, Nat.mul_comm, Nat.add_sub_cancel_left]
  · rw [← hgeo.groupsCount_mul_of_aligned haligned]
    have hmul := Nat.mul_le_mul_right (groupSpan fs) (succ_le_of_lt hgroup)
    rw [succ_mul] at hmul
    omega

/-- The search through a group gives up, or takes a bit that was 0. The induction is on the bits that
are left. -/
theorem allocBits_cases (hgroup : group < fs.groupsCount) :
    ∀ remaining n, n + remaining = groupSpan fs →
      allocBits fs (disk.window (bitmapBlock fs disk group * fs.blockSize)) (group * groupSpan fs)
          remaining n disk = (some none, disk) ∨
        ∃ block < fs.blockCount, bit fs disk (sourcePlace fs block) = false ∧
          allocBits fs (disk.window (bitmapBlock fs disk group * fs.blockSize))
            (group * groupSpan fs) remaining n disk = (some (some block), allocated fs disk block)
  | 0, _, _ => .inl rfl
  | remaining + 1, n, hn => by
    rw [allocBits]
    by_cases htest :
        Bitmap.test (disk.window (bitmapBlock fs disk group * fs.blockSize)) n = true
    · rw [if_pos htest]
      exact allocBits_cases hgroup remaining (n + 1) (by omega)
    obtain ⟨hplace, hblock⟩ := sourcePlace_candidate hgeo haligned hgroup
      (show n < groupSpan fs by omega)
    refine .inr ⟨group * groupSpan fs + n, hblock, ?_, ?_⟩
    · rw [hplace, bit]
      exact Bool.not_eq_true _ ▸ htest
    · have hsize := hgeo.le_blockSize
      have hwrite : succeeds (writeBlock fs (group * groupSpan fs + n) Bytes.zero)
          (setBit fs disk (sourcePlace fs (group * groupSpan fs + n)) true) =
          (some true, allocated fs disk (group * groupSpan fs + n)) := by
        rw [succeeds_apply, writeBlock_eq (by omega) hblock]
        rfl
      rw [if_neg htest, bind_of_some (ext4SetBlockUsed_of_aligned hgeo hfmt haligned hblock),
        bind_of_some hwrite, if_pos rfl]
      rfl

/-- The loop over the groups leaves the disk alone, or takes a bit that was 0. The induction is on the
groups that are left. -/
theorem allocGroups_cases : ∀ remaining group, group + remaining = fs.groupsCount →
    allocGroups fs remaining group disk = (none, disk) ∨
      ∃ block < fs.blockCount, bit fs disk (sourcePlace fs block) = false ∧
        allocGroups fs remaining group disk = (some block, allocated fs disk block)
  | 0, _, _ => .inl rfl
  | remaining + 1, group, hn => by
    have hgroup : group < fs.groupsCount := by omega
    have hfound : answer (do
        let info ← groupBitmap fs group
        let data ← readBlock fs info.1
        return (info, data)) disk =
        (some (some ((bitmapBlock fs disk group, group * groupSpan fs, groupCount fs group),
          disk.window (bitmapBlock fs disk group * fs.blockSize))), disk) := by
      rw [answer_apply, bind_of_some (groupBitmap_eq hgeo hfmt hgroup),
        bind_of_some (readBlock_eq hgeo.blockSize_le (hfmt.bitmap_lt _ hgroup)), pure_apply]
    rw [allocGroups, bind_of_some hfound]
    simp only [groupCount_of_aligned hgeo haligned]
    rcases allocBits_cases hgeo hfmt haligned hgroup (groupSpan fs) 0 (Nat.zero_add _) with
      hnone | ⟨block, hblock, hfree, hsome⟩
    · rw [bind_of_some hnone]
      exact allocGroups_cases remaining (group + 1) (by omega)
    · rw [bind_of_some hsome]
      exact .inr ⟨block, hblock, hfree, rfl⟩

/-- An allocation fails and leaves the disk alone, or takes a block whose bit was 0. -/
theorem ext4AllocBlock_cases :
    ext4AllocBlock fs disk = (none, disk) ∨
      ∃ block < fs.blockCount, bit fs disk (sourcePlace fs block) = false ∧
        ext4AllocBlock fs disk = (some block, allocated fs disk block) := by
  have hloop : ext4AllocBlock fs disk = allocGroups fs fs.groupsCount 0 disk :=
    bind_of_some (check_of_true hgeo.groupSpan_pos.ne' disk)
  rw [hloop]
  exact allocGroups_cases hgeo hfmt haligned fs.groupsCount 0 (Nat.zero_add _)

/-- The two writes of an allocation change one bit: the block that is filled with zeros was free, so it
is no descriptor and no bitmap. -/
theorem bit_allocated (hblock : block < fs.blockCount)
    (hfree : bit fs disk (sourcePlace fs block) = false) (hgroup : at_.1 < fs.groupsCount)
    (hbit : at_.2 < 8 * fs.blockSize) : bit fs (allocated fs disk block) at_ =
      if at_ = sourcePlace fs block then true else bit fs disk at_ := by
  have htarget := (sourcePlace_bounds hgeo haligned hblock).1
  rw [hgeo.sourcePlace_eq_of_aligned haligned hblock] at hfree
  have hne : ∀ {b}, bit fs disk (place fs perGroup b) = true → block ≠ b := by
    rintro _ hused rfl
    rw [hused] at hfree
    cases hfree
  have hsame : bitmapBlock fs (setBit fs disk (sourcePlace fs block) true) at_.1 =
      bitmapBlock fs disk at_.1 :=
    bitmapBlock_splice hgeo (hfmt.descriptor_fits _ hgroup) (hfmt.bitmap_ne _ htarget _ hgroup)
  rw [allocated, bit_splice_of_ne hgeo (hfmt.descriptor_fits _ hgroup) hbit
    (hne (hfmt.descriptor_used _ hgroup)) (hsame ▸ hne (hfmt.bitmap_used _ hgroup)),
    bit_setBit hgeo hfmt htarget hgroup hbit]

end Aligned

end Calls

section Contract

/-- What the allocator is for, on one disk: a block it hands out was free and is then used; marking a
block changes the bit of that block and no other; a used block can be freed. -/
structure Allocates (fs : Ext4Fs) (perGroup : Nat) (disk : Bytes) : Prop where
  alloc : ∀ block disk', ext4AllocBlock fs disk = (some block, disk') →
    block < fs.blockCount ∧ bit fs disk (place fs perGroup block) = false ∧
      ∀ at_ : Nat × Nat, at_.1 < fs.groupsCount → at_.2 < perGroup →
        bit fs disk' at_ = if at_ = place fs perGroup block then true else bit fs disk at_
  set : ∀ block used disk', firstDataBlock fs ≤ block → block < fs.blockCount →
    ext4SetBlockUsed fs block used disk = (some (), disk') →
      ∀ at_ : Nat × Nat, at_.1 < fs.groupsCount → at_.2 < perGroup →
        bit fs disk' at_ = if at_ = place fs perGroup block then used else bit fs disk at_
  free : ∀ block, firstDataBlock fs ≤ block → block < fs.blockCount →
    bit fs disk (place fs perGroup block) = true →
      ∃ disk', ext4SetBlockUsed fs block false disk = (some (), disk')

variable {perGroup : Nat}

theorem allocates_of_aligned (hgeo : Geometry fs perGroup) (hfmt : Formatted fs perGroup disk)
    (haligned : Aligned fs perGroup) : Allocates fs perGroup disk := by
  have hper := hfmt.perGroup_le
  constructor
  · intro block disk' hrun
    rcases ext4AllocBlock_cases hgeo hfmt haligned with hnone | ⟨block', hblock, hfree, hsome⟩
    · rw [hnone] at hrun
      cases hrun
    · rw [hsome] at hrun
      cases hrun
      rw [← hgeo.sourcePlace_eq_of_aligned haligned hblock]
      exact ⟨hblock, hfree, fun at_ hgroup hbit =>
        bit_allocated hgeo hfmt haligned hblock hfree hgroup (by omega)⟩
  · intro block used disk' _ hblock hrun at_ hgroup hbit
    rw [ext4SetBlockUsed_of_aligned hgeo hfmt haligned hblock, Prod.mk.injEq] at hrun
    rw [← hrun.2, ← hgeo.sourcePlace_eq_of_aligned haligned hblock]
    have htarget := (sourcePlace_bounds hgeo haligned hblock).1
    exact bit_setBit hgeo hfmt htarget hgroup (by omega)
  · intro block _ hblock _
    exact ⟨_, ext4SetBlockUsed_of_aligned hgeo hfmt haligned hblock⟩

theorem place_bounds (hgeo : Geometry fs perGroup) {block : Nat} (hblock : block < fs.blockCount) :
    (place fs perGroup block).1 < fs.groupsCount ∧ (place fs perGroup block).2 < perGroup := by
  obtain ⟨-, hhigh, -⟩ := hgeo.groups_bounds
  rw [Nat.mul_comm] at hhigh
  exact ⟨Nat.div_lt_of_lt_mul (by omega), mod_lt _ hgeo.perGroup_pos⟩

/-- A misplaced block: marking it leaves its own bit as it was. -/
theorem not_allocates_of_not_aligned (hgeo : Geometry fs perGroup)
    (hfmt : Formatted fs perGroup disk) (hnot : ¬Aligned fs perGroup) :
    ¬Allocates fs perGroup disk := by
  intro hok
  obtain ⟨block, hfirst, hblock, hgroup, hbit, hne⟩ := hgeo.exists_misplaced hnot
  have hsize := hgeo.le_blockSize
  have hper := hfmt.perGroup_le
  obtain ⟨hgroup', hbit'⟩ := place_bounds hgeo hblock
  have hset := hok.set block (!bit fs disk (place fs perGroup block)) _ hfirst hblock
    (ext4SetBlockUsed_eq hgeo hfmt hblock hgroup (by omega)) _ hgroup' hbit'
  rw [if_pos rfl, bit_setBit hgeo hfmt hgroup hgroup' (by omega), if_neg (Ne.symm hne)] at hset
  exact (Bool.eq_not_self _).mp hset

/-- On a mounted image in the format the allocator works exactly when the geometry is aligned. -/
theorem allocates_iff_aligned {deviceBlocks : Nat} (hmount : ext4Mount deviceBlocks disk = some fs)
    (hfmt : Formatted fs (blocksPerGroup disk) disk) :
    Allocates fs (blocksPerGroup disk) disk ↔ Aligned fs (blocksPerGroup disk) := by
  have hgeo := geometry_of_mount hmount
  constructor
  · intro hok
    by_contra hnot
    exact not_allocates_of_not_aligned hgeo hfmt hnot hok
  · exact allocates_of_aligned hgeo hfmt

/-- An image with blocks of 2 KiB, groups of 256 blocks and a full first group. -/
def image (blocks : Nat) : Bytes := fun i =>
  if 4096 ≤ i ∧ i < 4128 then 0xff
  else (List.lookup i
    [(1028, BitVec.ofNat 8 blocks), (1029, BitVec.ofNat 8 (blocks / 256)), (1048, 1), (1057, 1),
      (1064, 16), (1080, 0x53), (1081, 0xef), (1112, 128), (1278, 32),
      (2048, 2), (2056, 4), (2080, 3)]).getD 0

theorem image_formatted (blocks : Nat) (hblocks : blocks = 300 ∨ blocks = 512) :
    Formatted (mountedFs (image blocks)) (blocksPerGroup (image blocks)) (image blocks) := by
  rcases hblocks with rfl | rfl <;> constructor <;> decide +kernel

theorem image_mounts :
    ext4Mount 2048 (image 512) = some (mountedFs (image 512)) ∧
      ext4Mount 1200 (image 300) = some (mountedFs (image 300)) := by
  decide +kernel

theorem allocates_iff_aligned_image :
    Allocates (mountedFs (image 512)) (blocksPerGroup (image 512)) (image 512) ↔
      Aligned (mountedFs (image 512)) (blocksPerGroup (image 512)) :=
  allocates_iff_aligned image_mounts.1 (image_formatted 512 (.inr rfl))

/-- With 300 blocks the average is 150, and block 150, which is in use, is handed out. -/
theorem used_block_allocated :
    ext4Mount 1200 (image 300) = some (mountedFs (image 300)) ∧
      Formatted (mountedFs (image 300)) (blocksPerGroup (image 300)) (image 300) ∧
      (ext4AllocBlock (mountedFs (image 300)) (image 300)).1 = some 150 ∧
      bit (mountedFs (image 300)) (image 300)
        (place (mountedFs (image 300)) (blocksPerGroup (image 300)) 150) = true ∧
      ¬Allocates (mountedFs (image 300)) (blocksPerGroup (image 300)) (image 300) := by
  refine ⟨image_mounts.2, image_formatted 300 (.inl rfl), by decide +kernel, by decide +kernel, ?_⟩
  exact not_allocates_of_not_aligned (geometry_of_mount image_mounts.2)
    (image_formatted 300 (.inl rfl)) (by decide +kernel)

end Contract

end KernelBoot.Ext4
