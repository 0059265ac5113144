import KernelBoot.Ext4.File
import KernelBoot.Laws.Ext4.Allocator

/-!
# Laws of reading an ext4 file

`ext4_read_file` copies what `inode_data_block` finds, byte by byte (`ext4ReadFile_eq_iff`). A block map
is followed through index pointers that are 0, into block 0 of the disk; an extent tree is refused where
no extent covers a block, and an extent of 32768 blocks is taken for an empty one.
-/

namespace KernelBoot.Ext4

open Lib List

variable {fs : Ext4Fs} {disk inode : Bytes} {logical : Nat}

/-! ## Bytes of a file -/

/-- A byte of a file in a block; `none` is a hole. -/
def byteIn (fs : Ext4Fs) (disk : Bytes) (position : Nat) : Option Nat → UInt8
  | none => 0
  | some block => UInt8.ofBitVec (disk (block * fs.blockSize + position % fs.blockSize))

def DataBlock.content (data : DataBlock) : Option Nat :=
  if data.hole then none else some data.physical

/-- The bytes of a block of a file that a read finds. -/
def DataBlock.bytes (fs : Ext4Fs) (disk : Bytes) (data : DataBlock) : Option Bytes :=
  if data.hole then some fun _ => 0 else blockAt fs disk data.physical

/-- The byte that a read finds at a position. -/
def fileByte (fs : Ext4Fs) (disk inode : Bytes) (position : Nat) : Option UInt8 :=
  (inodeDataBlock fs disk inode (position / fs.blockSize)).bind (·.bytes fs disk) |>.map fun block =>
    UInt8.ofBitVec (block (position % fs.blockSize))

section Reads

theorem mapM_eq_some_map_iff {α β : Type} {f : α → Option β} {g : α → β} {l : List α} :
    l.mapM f = some (l.map g) ↔ ∀ x ∈ l, f x = some (g x) := by
  induction l with
  | nil => simp
  | cons x l ih =>
    simp only [mapM_cons, map_cons, forall_mem_cons, ← ih]
    cases hx : f x <;> cases hl : l.mapM f <;> simp

theorem bind_chunkBytes {found : Option DataBlock} {inBlock chunk : Nat} :
    (found.bind fun data => chunkBytes fs disk data inBlock chunk) =
      (found.bind (·.bytes fs disk)).map (·.octets inBlock chunk) := by
  cases found with
  | none => rfl
  | some data => cases hhole : data.hole <;> simp [chunkBytes, DataBlock.bytes, hhole, Bytes.octets]

variable (hle : fs.blockSize ≤ 4096)

include hle

theorem blockAt_eq {block : Nat} (h : block < fs.blockCount) :
    blockAt fs disk block = some (disk.window (block * fs.blockSize)) := by
  rw [blockAt, readBlock_eq hle h]

theorem fileByte_eq {position : Nat} {data : DataBlock}
    (hdata : inodeDataBlock fs disk inode (position / fs.blockSize) = some data)
    (hblock : data.hole = true ∨ data.physical < fs.blockCount) :
    fileByte fs disk inode position = some (byteIn fs disk position data.content) := by
  rw [fileByte, hdata, Option.bind_some, DataBlock.bytes, DataBlock.content]
  by_cases hhole : data.hole
  · rw [if_pos hhole, if_pos hhole]
    rfl
  · rw [if_neg hhole, if_neg hhole, blockAt_eq hle (hblock.resolve_left hhole)]
    rfl

omit hle

variable (hpos : 0 < fs.blockSize)

include hpos

/-- The bytes of one block. -/
theorem mapM_fileByte_chunk {inBlock chunk : Nat} (hchunk : 0 < chunk)
    (hin : inBlock + chunk ≤ fs.blockSize) :
    (range' (logical * fs.blockSize + inBlock) chunk).mapM (fileByte fs disk inode) =
      (inodeDataBlock fs disk inode logical).bind fun data => chunkBytes fs disk data inBlock chunk := by
  have hplace : ∀ i < chunk, fileByte fs disk inode (logical * fs.blockSize + inBlock + i) =
      ((inodeDataBlock fs disk inode logical).bind (·.bytes fs disk)).map fun block =>
        UInt8.ofBitVec (block (inBlock + i)) := by
    intro i hi
    have hlt : inBlock + i < fs.blockSize := by omega
    rw [fileByte, Nat.add_assoc, Nat.mul_comm, Nat.mul_add_div hpos, Nat.mul_add_mod,
      Nat.div_eq_of_lt hlt, Nat.mod_eq_of_lt hlt]
    rfl
  rw [bind_chunkBytes, range'_eq_map_range, mapM_map]
  cases hdata : (inodeDataBlock fs disk inode logical).bind (·.bytes fs disk) with
  | none =>
    obtain ⟨n, rfl⟩ := Nat.exists_eq_add_one.mpr hchunk
    rw [range_succ_eq_map, mapM_cons, Function.comp_apply, hplace 0 hchunk, hdata]
    rfl
  | some block =>
    rw [Option.map_some, Bytes.octets, mapM_eq_some_map_iff]
    intro i hi
    rw [Function.comp_apply, hplace i (mem_range.mp hi), hdata, Option.map_some]

/-- The loop copies the bytes that are found, and fails where none is. -/
theorem readLoop_eq {rounds inBlock remaining : Nat} (hin : inBlock < fs.blockSize)
    (hrounds : remaining ≤ rounds)
    (hend : logical * fs.blockSize + inBlock + remaining ≤ 2 ^ 32 * fs.blockSize) :
    readLoop fs disk inode rounds logical inBlock remaining =
      (range' (logical * fs.blockSize + inBlock) remaining).mapM (fileByte fs disk inode) := by
  induction rounds generalizing logical inBlock remaining with
  | zero =>
    rw [Nat.le_zero.mp hrounds]
    rfl
  | succ rounds ih =>
    by_cases hzero : remaining = 0
    · rw [hzero]
      rfl
    obtain ⟨chunk, hchunk⟩ : ∃ chunk, chunk = min (fs.blockSize - inBlock) remaining := ⟨_, rfl⟩
    obtain ⟨rest, hrest⟩ : ∃ rest, remaining = chunk + rest := ⟨remaining - chunk, by omega⟩
    have hlogical : logical < 2 ^ 32 := Nat.lt_of_mul_lt_mul_right (a := fs.blockSize) (by omega)
    have hnext : readLoop fs disk inode rounds (logical + 1) 0 rest =
        (range' (logical * fs.blockSize + inBlock + chunk) rest).mapM (fileByte fs disk inode) := by
      by_cases hlast : rest = 0
      · rw [hlast]
        cases rounds <;> rfl
      · have hstart : (logical + 1) * fs.blockSize + 0 = logical * fs.blockSize + inBlock + chunk := by
          rw [Nat.add_mul, Nat.one_mul]
          omega
        rw [ih hpos (by omega) (by omega), hstart]
    rw [readLoop, if_neg hzero, Nat.mod_eq_of_lt hlogical, ← hchunk]
    dsimp only
    rw [hrest, Nat.add_sub_cancel_left, ← range'_append_1, mapM_append,
      mapM_fileByte_chunk hpos (by omega) (by omega), hnext]
    exact (Option.bind_assoc _ _ _).symm

/-- A read gives the bytes that are found. -/
theorem ext4ReadFile_eq_iff {number offset size : Nat} (hinode : readInode fs disk number = some inode)
    (hsize : 0 < size) (hend : offset + size ≤ inodeSizeValue inode)
    (hblocks : inodeSizeValue inode ≤ 2 ^ 32 * fs.blockSize) {g : Nat → UInt8} :
    ext4ReadFile fs disk number offset size = some ((range size).map g) ↔
      ∀ i < size, fileByte fs disk inode (offset + i) = some (g i) := by
  have hoffset := Nat.div_add_mod' offset fs.blockSize
  have hread : ext4ReadFile fs disk number offset size = readLoop fs disk inode size
      (offset / fs.blockSize) (offset % fs.blockSize) size := by
    simp [ext4ReadFile, hinode, hsize.ne', guard, show offset ≤ inodeSizeValue inode by omega,
      show size ≤ inodeSizeValue inode - offset by omega]
  rw [hread, readLoop_eq hpos (Nat.mod_lt _ hpos) le_rfl (by omega), hoffset, range'_eq_map_range,
    mapM_map, mapM_eq_some_map_iff]
  simp only [mem_range, Function.comp_apply]

end Reads

/-! ## Block maps -/

section BlockMap

/-- The pointer behind some entries by the format: 0 as soon as a pointer is 0. -/
def resolve (fs : Ext4Fs) (disk : Bytes) : (entries : List Nat) → (pointer : Nat) → Nat
  | [], pointer => pointer
  | entry :: entries, pointer =>
    if pointer = 0 then 0
    else resolve fs disk entries ((disk.window (pointer * fs.blockSize)).load32 (entry * 4))

/-- The entries that are left where a pointer is 0. -/
def unresolved (fs : Ext4Fs) (disk : Bytes) : (entries : List Nat) → (pointer : Nat) → List Nat
  | [], _ => []
  | entry :: entries, pointer =>
    if pointer = 0 then entry :: entries
    else unresolved fs disk entries ((disk.window (pointer * fs.blockSize)).load32 (entry * 4))

/-- The pointer to a block of a block-mapped file, by the format. -/
def mapped (fs : Ext4Fs) (disk inode : Bytes) (logical : Nat) : Nat :=
  let path := pointerPath (fs.blockSize / 4) logical
  resolve fs disk path.2 (inode.load32 path.1)

/-- The block a pointer stands for. -/
def pointedBlock (pointer : Nat) : DataBlock := ⟨pointer, pointer = 0⟩

/-- The pointers to a block and to the index blocks above it are blocks of the disk. -/
def PointersValid (fs : Ext4Fs) (disk inode : Bytes) (logical : Nat) : Prop :=
  let path := pointerPath (fs.blockSize / 4) logical
  ∀ entries ∈ path.2.inits, resolve fs disk entries (inode.load32 path.1) < fs.blockCount

/-- Where a pointer above a block is 0, block 0 and the blocks it points to happen to have 0 in the
entries that are left. -/
def ZeroBelow (fs : Ext4Fs) (disk inode : Bytes) (logical : Nat) : Prop :=
  let path := pointerPath (fs.blockSize / 4) logical
  followPointers fs disk (unresolved fs disk path.2 (inode.load32 path.1)) 0 = some 0

theorem followPointers_eq_iff (hle : fs.blockSize ≤ 4096) {entries : List Nat} {pointer : Nat}
    (hvalid : ∀ front ∈ entries.inits, resolve fs disk front pointer < fs.blockCount) :
    followPointers fs disk entries pointer = some (resolve fs disk entries pointer) ↔
      followPointers fs disk (unresolved fs disk entries pointer) 0 = some 0 := by
  induction entries generalizing pointer with
  | nil => exact iff_of_true rfl rfl
  | cons entry entries ih =>
    by_cases hzero : pointer = 0
    · rw [hzero, resolve, unresolved, if_pos rfl, if_pos rfl]
    · rw [resolve, unresolved, if_neg hzero, if_neg hzero, followPointers,
        blockAt_eq hle (show pointer < _ from hvalid [] (by simp)), Option.bind_eq_bind, Option.bind_some]
      refine ih fun front hfront => ?_
      have := hvalid (entry :: front) (by simpa using hfront)
      rwa [resolve, if_neg hzero] at this

theorem pointerLimit_le {pointers : Nat} (h : pointers ≤ 1024) : pointerLimit pointers ≤ 2 ^ 32 := by
  have hsquare : pointers * pointers ≤ 1024 * 1024 := Nat.mul_le_mul h h
  have hcube : pointers * pointers * pointers ≤ 1024 * 1024 * 1024 := Nat.mul_le_mul hsquare h
  rw [pointerLimit]
  omega

theorem mapped_lt (hvalid : PointersValid fs disk inode logical) :
    mapped fs disk inode logical < fs.blockCount :=
  hvalid _ (mem_inits _ _ |>.mpr (prefix_refl _))

variable (hle : fs.blockSize ≤ 4096) (hmap : inode.load32 32 &&& 0x80000 = 0)

include hle hmap

theorem inodeDataBlock_eq_iff (hvalid : PointersValid fs disk inode logical)
    (hlogical : logical < pointerLimit (fs.blockSize / 4)) :
    inodeDataBlock fs disk inode logical = some (pointedBlock (mapped fs disk inode logical)) ↔
      ZeroBelow fs disk inode logical := by
  have hfollow := followPointers_eq_iff hle hvalid
  rw [ZeroBelow, ← hfollow, inodeDataBlock, if_neg (not_not.mpr hmap)]
  simp only [guard, if_pos hlogical, Option.bind_eq_bind, Option.pure_def, Option.bind_some]
  constructor
  · intro h
    obtain ⟨physical, hphysical, h⟩ := Option.bind_eq_some_iff.mp h
    obtain ⟨-, -, h⟩ := Option.bind_eq_some_iff.mp h
    rw [hphysical, show physical = _ from congrArg DataBlock.physical (Option.some.inj h)]
    rfl
  · intro h
    rw [h, Option.bind_some, if_pos (.inr (mapped_lt hvalid))]
    rfl

/-- For which reads of a block-mapped file the blocks and the bytes are those of the format. -/
theorem ext4ReadFile_mapped_iff {number offset size : Nat} (hpos : 0 < fs.blockSize)
    (hinode : readInode fs disk number = some inode) (hsize : 0 < size)
    (hend : offset + size ≤ inodeSizeValue inode)
    (hlimit : inodeSizeValue inode ≤ pointerLimit (fs.blockSize / 4) * fs.blockSize)
    (hvalid : ∀ i < size, PointersValid fs disk inode ((offset + i) / fs.blockSize)) :
    ((∀ i < size, inodeDataBlock fs disk inode ((offset + i) / fs.blockSize) =
        some (pointedBlock (mapped fs disk inode ((offset + i) / fs.blockSize)))) ∧
      ext4ReadFile fs disk number offset size = some ((range size).map fun i =>
        byteIn fs disk (offset + i)
          (pointedBlock (mapped fs disk inode ((offset + i) / fs.blockSize))).content)) ↔
      ∀ i < size, ZeroBelow fs disk inode ((offset + i) / fs.blockSize) := by
  have hreach : pointerLimit (fs.blockSize / 4) ≤ 2 ^ 32 := pointerLimit_le (by omega)
  have hblocks := hlimit.trans (Nat.mul_le_mul_right fs.blockSize hreach)
  have hfound : ∀ i < size, inodeDataBlock fs disk inode ((offset + i) / fs.blockSize) =
      some (pointedBlock (mapped fs disk inode ((offset + i) / fs.blockSize))) ↔
        ZeroBelow fs disk inode ((offset + i) / fs.blockSize) := fun i hi =>
    inodeDataBlock_eq_iff hle hmap (hvalid i hi) ((Nat.div_lt_iff_lt_mul hpos).mpr (by omega))
  constructor
  · intro h i hi
    exact (hfound i hi).mp (h.1 i hi)
  · intro h
    have hdata := fun i hi => (hfound i hi).mpr (h i hi)
    refine ⟨hdata, (ext4ReadFile_eq_iff hpos hinode hsize hend hblocks).mpr fun i hi => ?_⟩
    exact fileByte_eq hle (hdata i hi) (.inr (mapped_lt (hvalid i hi)))

omit hle hmap

/-- A disk of 16 blocks. -/
def sampleFs : Ext4Fs := ⟨1024, 128, 8, 32, 2, 1, 16, false⟩

/-- Block 3 starts with an inode of 13 blocks without any pointers, block 0 with `entry` and block 7
with 42. -/
def sampleMap (entry : Nat) : Bytes :=
  .ofFields [⟨0, 4, entry⟩, ⟨2056, 4, 3⟩, ⟨3076, 4, 13312⟩, ⟨7168, 1, 42⟩]

theorem ext4ReadFile_mapped_sample :
    ext4ReadFile sampleFs (sampleMap 0) 1 12288 2 = some [0, 0] :=
  have hinode : readInode sampleFs (sampleMap 0) 1 = some (((sampleMap 0).window 3072).window 0) := rfl
  ((ext4ReadFile_mapped_iff (by decide) (by decide +kernel) (by decide) hinode (by decide)
    (by decide +kernel) (by decide +kernel) (by unfold PointersValid; decide +kernel)).mpr
    (by unfold ZeroBelow; decide +kernel)).2.trans (by decide +kernel)

/-- The last block has no index block, and is read from block 7. -/
theorem ext4ReadFile_of_block_zero :
    ext4ReadFile sampleFs (sampleMap 7) 1 12288 2 = some [42, 0] ∧
      ∀ inode ∈ readInode sampleFs (sampleMap 7) 1, mapped sampleFs (sampleMap 7) inode 12 = 0 := by
  decide +kernel

end BlockMap

end KernelBoot.Ext4
