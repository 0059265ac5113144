import KernelBoot.Lib.Attempt
import KernelBoot.Lib.Bytes

/-!
# ext4: mounting and the block allocator

`ext4_mount`, `group_bitmap`, `ext4_set_block_used` and `ext4_alloc_block`. The state is the disk, a
byte for each address; every access is to a whole block. Device errors are not modelled: the mount
makes sure that all blocks below `block_count` are on the device, so an access fails only by its own
checks.
-/

namespace KernelBoot.Ext4

open Lib Lib.Attempt

/-- `ext4_fs_t`, without its lock. -/
structure Ext4Fs where
  blockSize : Nat
  inodeSize : Nat
  inodesPerGroup : Nat
  descriptorSize : Nat
  descriptorBlock : Nat
  groupsCount : Nat
  blockCount : Nat
  has64bit : Bool
  deriving Repr, DecidableEq

/-- `read_block`. -/
def readBlock (fs : Ext4Fs) (block : Nat) : Attempt Bytes Bytes := do
  check (block < fs.blockCount ∧ fs.blockSize ≤ 4096)
  look fun disk => disk.window (block * fs.blockSize)

/-- `write_block`. -/
def writeBlock (fs : Ext4Fs) (block : Nat) (buffer : Bytes) : Attempt Bytes Unit := do
  check (fs.blockSize / 512 ≠ 0 ∧ block < fs.blockCount)
  change fun disk => disk.splice (block * fs.blockSize) fs.blockSize buffer

/-- The superblock, from byte 1024 on. -/
def superblock (disk : Bytes) : Bytes := disk.window 1024

/-- `blocks_per_group`, which the mount reads and does not keep. -/
def blocksPerGroup (disk : Bytes) : Nat := (superblock disk).load32 32

/-- Whether `EXT4_INCOMPAT_64BIT` is set. -/
def incompat64bit (disk : Bytes) : Bool := (superblock disk).load32 96 &&& 0x80 ≠ 0

/-- The checks of `ext4_mount` on the fields of the superblock. -/
def superblockOk (deviceBlocks : Nat) (disk : Bytes) : Prop :=
  let sb := superblock disk
  let blockSize := 1024 <<< sb.load32 24
  sb.load16 56 = 0xef53 ∧ sb.load32 24 ≤ 2 ∧ sb.load32 96 &&& 0xffffff3d = 0 ∧
    sb.load32 4 ≠ 0 ∧ sb.load32 32 ≠ 0 ∧ sb.load32 40 ≠ 0 ∧
    128 ≤ sb.load16 88 ∧ sb.load16 88 ≤ blockSize ∧ blockSize % sb.load16 88 = 0 ∧
    32 ≤ sb.load16 254 ∧ sb.load16 254 ≤ blockSize ∧
    (incompat64bit disk = true → 64 ≤ sb.load16 254) ∧
    sb.load32 4 ≤ deviceBlocks / (blockSize / 512)

instance (deviceBlocks : Nat) (disk : Bytes) : Decidable (superblockOk deviceBlocks disk) :=
  inferInstanceAs (Decidable (_ ∧ _))

/-- `block_count`, with its high half where there is one. -/
def totalBlocks (disk : Bytes) : Nat :=
  if incompat64bit disk then
    (superblock disk).load32 4 ||| (superblock disk).load32 336 <<< 32
  else (superblock disk).load32 4

/-- The file system that `ext4_mount` fills in. -/
def mountedFs (disk : Bytes) : Ext4Fs :=
  let sb := superblock disk
  let blockSize := 1024 <<< sb.load32 24
  { blockSize
    inodeSize := sb.load16 88
    inodesPerGroup := sb.load32 40
    descriptorSize := sb.load16 254
    descriptorBlock := if blockSize = 1024 then 2 else 1
    groupsCount := totalBlocks disk / sb.load32 32 +
      if totalBlocks disk % sb.load32 32 ≠ 0 then 1 else 0
    blockCount := totalBlocks disk
    has64bit := incompat64bit disk }

/-- The check on the inode table of the first group. -/
def inodeTableOk (fs : Ext4Fs) (group : Bytes) : Prop :=
  let inodeTable := if fs.has64bit then group.load32 8 ||| group.load32 40 <<< 32 else group.load32 8
  inodeTable < fs.blockCount ∧
    (fs.inodesPerGroup * fs.inodeSize + fs.blockSize - 1) / fs.blockSize ≤ fs.blockCount - inodeTable

instance (fs : Ext4Fs) (group : Bytes) : Decidable (inodeTableOk fs group) :=
  inferInstanceAs (Decidable (_ ∧ _))

/-- `ext4_mount` on a device of `deviceBlocks` sectors. -/
def ext4Mount (deviceBlocks : Nat) (disk : Bytes) : Option Ext4Fs :=
  let fs := mountedFs disk
  if 4 ≤ deviceBlocks ∧ superblockOk deviceBlocks disk ∧
      fs.blockCount ≤ deviceBlocks / (fs.blockSize / 512) ∧
      fs.groupsCount ≠ 0 ∧ fs.groupsCount ≤ 0xffffffff ∧ fs.descriptorBlock < fs.blockCount ∧
      inodeTableOk fs (disk.window (fs.descriptorBlock * fs.blockSize)) then
    some fs
  else none

/-- The block that holds the descriptor of a group. -/
def descriptorBlockOf (fs : Ext4Fs) (group : Nat) : Nat :=
  fs.descriptorBlock + group * fs.descriptorSize / fs.blockSize

/-- Where in that block the descriptor starts. -/
def descriptorOffset (fs : Ext4Fs) (group : Nat) : Nat := group * fs.descriptorSize % fs.blockSize

/-- The bitmap block that a descriptor names. -/
def descriptorBitmap (fs : Ext4Fs) (descriptor : Bytes) : Nat :=
  if fs.has64bit then descriptor.load32 0 ||| descriptor.load32 32 <<< 32 else descriptor.load32 0

/-- `group_bitmap`: the bitmap block of a group, its first block and its number of blocks. -/
def groupBitmap (fs : Ext4Fs) (group : Nat) : Attempt Bytes (Nat × Nat × Nat) := do
  check (group < fs.groupsCount ∧ descriptorOffset fs group + fs.descriptorSize ≤ fs.blockSize)
  let data ← readBlock fs (descriptorBlockOf fs group)
  let bitmap := descriptorBitmap fs (data.window (descriptorOffset fs group))
  let first := group * (fs.blockCount / fs.groupsCount)
  let count :=
    if group + 1 = fs.groupsCount then fs.blockCount - first else fs.blockCount / fs.groupsCount
  check (bitmap < fs.blockCount ∧ count ≠ 0)
  return (bitmap, first, count)

/-- `ext4_set_block_used`. -/
def ext4SetBlockUsed (fs : Ext4Fs) (block : Nat) (used : Bool) : Attempt Bytes Unit := do
  let group := block / (fs.blockCount / fs.groupsCount)
  check (group < fs.groupsCount)
  let info ← groupBitmap fs group
  check (info.2.1 ≤ block ∧ block - info.2.1 < info.2.2)
  let data ← readBlock fs info.1
  let bit := block - info.2.1
  check (bit / 8 < fs.blockSize)
  writeBlock fs info.1 (if used then Bitmap.set data bit else Bitmap.clear data bit)

/-- The search of `ext4_alloc_block` through the bits of one group. -/
def allocBits (fs : Ext4Fs) (data : Bytes) (first : Nat) :
    (remaining bit : Nat) → Attempt Bytes (Option Nat)
  | 0, _ => pure none
  | remaining + 1, bit =>
    if Bitmap.test data bit then allocBits fs data first remaining (bit + 1)
    else do
      let candidate := first + bit
      ext4SetBlockUsed fs candidate true
      if ← succeeds (writeBlock fs candidate Bytes.zero) then
        return some candidate
      else do
        let _ ← succeeds (ext4SetBlockUsed fs candidate false)
        fail

/-- The loop of `ext4_alloc_block` over the groups. -/
def allocGroups (fs : Ext4Fs) : (remaining group : Nat) → Attempt Bytes Nat
  | 0, _ => fail
  | remaining + 1, group => do
    let found ← answer do
      let info ← groupBitmap fs group
      let data ← readBlock fs info.1
      return (info, data)
    match found with
    | none => allocGroups fs remaining (group + 1)
    | some (info, data) =>
      match ← allocBits fs data info.2.1 info.2.2 0 with
      | some block => return block
      | none => allocGroups fs remaining (group + 1)

/-- `ext4_alloc_block`. -/
def ext4AllocBlock (fs : Ext4Fs) : Attempt Bytes Nat := do
  check (fs.blockCount / fs.groupsCount ≠ 0)
  allocGroups fs fs.groupsCount 0

end KernelBoot.Ext4
