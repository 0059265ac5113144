import KernelBoot.Ext4.Allocator

/-!
# ext4: reading a file

`read_inode`, `extent_data_block`, `inode_data_block` and `ext4_read_file`. They write nothing, so they
are functions of the disk.
-/

namespace KernelBoot.Ext4

open Lib

/-- What a block of a file is: its number on the disk, and whether it reads as zeros. -/
structure DataBlock where
  physical : Nat
  hole : Bool
  deriving Repr, DecidableEq

/-- `inode_size_value`. -/
def inodeSizeValue (inode : Bytes) : Nat := inode.load32 4 ||| inode.load32 108 <<< 32

/-- The entries of a node of an extent tree. -/
def nodeEntries (header : Bytes) : List Bytes :=
  (List.range (header.load16 2)).map fun i => header.window (12 + i * 12)

/-- The low 15 bits of the length of an extent. -/
def extentLength (extent : Bytes) : Nat := extent.load16 4 &&& 0x7fff

/-- The block in which an extent starts. -/
def extentStart (extent : Bytes) : Nat := extent.load16 6 <<< 32 ||| extent.load32 8

/-- The block of the node below an index. -/
def indexChild (index : Bytes) : Nat := index.load32 4 ||| index.load16 10 <<< 32

/-- Where the pointer to a block is: its field in the inode, and then the entries of index blocks. -/
def pointerPath (pointers logical : Nat) : Nat × List Nat :=
  if logical < 12 then (40 + logical * 4, [])
  else
    let index := logical - 12
    if index < pointers then (88, [index])
    else
      let index := index - pointers
      if index < pointers * pointers then (92, [index / pointers, index % pointers])
      else
        let index := index - pointers * pointers
        (96, [index / (pointers * pointers), index / pointers % pointers, index % pointers])

/-- The number of blocks that the pointers of an inode reach. -/
def pointerLimit (pointers : Nat) : Nat :=
  12 + pointers + pointers * pointers + pointers * pointers * pointers

variable (fs : Ext4Fs) (disk : Bytes)

/-- The buffer after a `read_block`. -/
def blockAt (block : Nat) : Option Bytes := (readBlock fs block disk).1

/-- `read_inode`. -/
def readInode (number : Nat) : Option Bytes := do
  let group := (number - 1) / fs.inodesPerGroup
  guard (number ≠ 0 ∧ group < fs.groupsCount ∧
    descriptorOffset fs group + fs.descriptorSize ≤ fs.blockSize)
  let data ← blockAt fs disk (descriptorBlockOf fs group)
  let descriptor := data.window (descriptorOffset fs group)
  let inodeTable := descriptor.load32 8 ||| if fs.has64bit then descriptor.load32 40 <<< 32 else 0
  let byteOffset := (number - 1) % fs.inodesPerGroup * fs.inodeSize
  guard (byteOffset % fs.blockSize + fs.inodeSize ≤ fs.blockSize)
  let data ← blockAt fs disk ((inodeTable + byteOffset / fs.blockSize) % 2 ^ 64)
  return data.window (byteOffset % fs.blockSize)

/-- `extent_data_block` on a node of `room` bytes. An extent starts below `2 ^ 48`, so the test for an
overflow of its blocks never fails. -/
def extentDataBlock (logical : Nat) : (depth room : Nat) → (header : Bytes) → Option DataBlock
  | 0, room, header => do
    guard (header.load16 0 = 0xf30a ∧ header.load16 6 = 0 ∧ header.load16 2 ≤ header.load16 4 ∧
      12 + header.load16 2 * 12 ≤ room)
    let extent ← (nodeEntries header).find? fun extent =>
      extent.load32 0 ≤ logical ∧ logical - extent.load32 0 < extentLength extent
    let physical := extentStart extent + (logical - extent.load32 0)
    let hole : Bool := extent.load16 4 &&& 0x8000 ≠ 0
    guard (hole ∨ physical < fs.blockCount)
    return ⟨physical, hole⟩
  | depth + 1, room, header => do
    guard (depth + 1 ≤ 5 ∧ header.load16 0 = 0xf30a ∧ header.load16 6 = depth + 1 ∧
      header.load16 2 ≤ header.load16 4 ∧ 12 + header.load16 2 * 12 ≤ room)
    let selected ← ((nodeEntries header).takeWhile fun index => index.load32 0 ≤ logical).getLast?
    let block ← blockAt fs disk (indexChild selected)
    extentDataBlock logical depth fs.blockSize block

/-- The pointer behind some entries of index blocks. -/
def followPointers : (entries : List Nat) → (pointer : Nat) → Option Nat
  | [], pointer => some pointer
  | entry :: entries, pointer => do
    let block ← blockAt fs disk pointer
    followPointers entries (block.load32 (entry * 4))

/-- `inode_data_block`. The depth of an extent tree is cut to a byte. -/
def inodeDataBlock (inode : Bytes) (logical : Nat) : Option DataBlock :=
  if inode.load32 32 &&& 0x80000 ≠ 0 then
    extentDataBlock fs disk logical (inode.load16 46 % 256) 60 (inode.window 40)
  else do
    let pointers := fs.blockSize / 4
    guard (logical < pointerLimit pointers)
    let path := pointerPath pointers logical
    let physical ← followPointers fs disk path.2 (inode.load32 path.1)
    guard (physical = 0 ∨ physical < fs.blockCount)
    return ⟨physical, physical = 0⟩

/-- What a round of `ext4_read_file` copies. -/
def chunkBytes (data : DataBlock) (inBlock chunk : Nat) : Option (List UInt8) :=
  if data.hole then some (List.replicate chunk 0)
  else (blockAt fs disk data.physical).map (·.octets inBlock chunk)

/-- The loop of `ext4_read_file`. A round copies a byte at least. -/
def readLoop (inode : Bytes) : (rounds logical inBlock remaining : Nat) → Option (List UInt8)
  | 0, _, _, _ => some []
  | rounds + 1, logical, inBlock, remaining =>
    if remaining = 0 then some []
    else do
      let data ← inodeDataBlock fs disk inode (logical % 2 ^ 32)
      let chunk := min (fs.blockSize - inBlock) remaining
      let bytes ← chunkBytes fs disk data inBlock chunk
      let rest ← readLoop inode rounds (logical + 1) 0 (remaining - chunk)
      return bytes ++ rest

/-- `ext4_read_file`: the bytes of the buffer. -/
def ext4ReadFile (number offset size : Nat) : Option (List UInt8) := do
  guard (size ≠ 0)
  let inode ← readInode fs disk number
  guard (offset ≤ inodeSizeValue inode ∧ size ≤ inodeSizeValue inode - offset)
  readLoop fs disk inode size (offset / fs.blockSize) (offset % fs.blockSize) size

end KernelBoot.Ext4
