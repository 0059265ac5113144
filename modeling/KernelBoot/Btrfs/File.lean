import KernelBoot.Btrfs.Deflate
import KernelBoot.Btrfs.Lzo
import KernelBoot.Btrfs.Tree
import KernelBoot.Btrfs.Zstd

/-!
# btrfs: reading files (`kernel/fs/btrfs/btrfs.c`)

`btrfs_read_extent_data` and `btrfs_read_file`, with the updates of the tree that the latter makes.
`kmalloc` is taken to succeed; where it does not, the call returns 0. What a compressed zstd block
decodes to is a parameter, as in the model of `zstd.c`.
-/

namespace KernelBoot.Btrfs

open Lib Lib.Attempt Drivers

section Updates

/-- A write of `bytes` bytes at a physical address. -/
def writeAt (place : Nat × Nat) (bytes : Nat) (buffer : Bytes) : Attempt Storage Unit :=
  storageWrite place.1 (place.2 / 512) (bytes / 512) buffer

/-- The second copy of `btrfs_write_node`: where it cannot be written, the first is put back. -/
def writeNodeMirror (fs : BtrfsFs) (place mirror : Nat × Nat) (original node : Bytes) :
    Attempt Storage Unit := do
  let originalMirror ← answer do
    check (mirror.2 % 512 = 0)
    readAt mirror fs.nodeSize
  match originalMirror with
  | some originalMirror =>
    if ← succeeds (writeAt mirror fs.nodeSize node) then pure ()
    else do
      let _ ← succeeds (writeAt place fs.nodeSize original)
      let _ ← succeeds (writeAt mirror fs.nodeSize originalMirror)
      fail
  | none =>
    let _ ← succeeds (writeAt place fs.nodeSize original)
    fail

/-- `btrfs_write_node`. -/
def btrfsWriteNode (fs : BtrfsFs) (bytenr : Nat) (node : Bytes) : Attempt Storage Unit := do
  let place ← ofOption (btrfsMap fs bytenr fs.nodeSize)
  check (fs.nodeSize ≤ 65536 ∧ place.2 % 512 = 0)
  let original ← readAt place fs.nodeSize
  let node := node.store32 0 (crc32c (node.window 32) (fs.nodeSize - 32))
  writeAt place fs.nodeSize node
  match btrfsMapAt fs bytenr fs.nodeSize true with
  | none => pure ()
  | some mirror =>
    if mirror = place then pure () else writeNodeMirror fs place mirror original node

/-- The leaf of `btrfs_update_inode_size` with the new size in it. -/
def resizedInode (fs : BtrfsFs) (inode size : Nat) (node : Bytes) : Option Bytes := do
  guard (nodeCount node ≤ (fs.nodeSize - 101) / 25)
  let i ← leafFind node ⟨inode, inodeItemType, 0⟩
  let dataOffset := itemOffset (leafItem node i)
  let dataSize := itemSize (leafItem node i)
  guard (dataOffset ≤ fs.nodeSize ∧ 24 ≤ dataSize ∧ dataSize ≤ fs.nodeSize - dataOffset)
  return node.store64 (dataOffset + 16) size

/-- `btrfs_update_inode_size`. -/
def btrfsUpdateInodeSize (fs : BtrfsFs) (inode size : Nat) :
    (levels bytenr : Nat) → Attempt Storage Unit
  | 0, _ => fail
  | levels + 1, bytenr => do
    check (fs.nodeSize ≤ 65536)
    let node ← btrfsReadNode fs bytenr
    if node 100 = 0 then
      let node ← ofOption (resizedInode fs inode size node)
      btrfsWriteNode fs bytenr node
    else
      check (nodeCount node ≠ 0 ∧ nodeCount node ≤ (fs.nodeSize - 101) / 33)
      firstOf (fun i => btrfsUpdateInodeSize fs inode size levels (childBytenr node i))
        (List.range (nodeCount node))

/-- Whether the data of item `i` may have `size` bytes without meeting the data of another item. -/
def itemFits (fs : BtrfsFs) (node : Bytes) (i size : Nat) : Prop :=
  ∀ j < nodeCount node, j ≠ i →
    itemOffset (leafItem node j) ≤ fs.nodeSize ∧
    itemSize (leafItem node j) ≤ fs.nodeSize - itemOffset (leafItem node j) ∧
    ¬(itemOffset (leafItem node i) < itemOffset (leafItem node j) + itemSize (leafItem node j) ∧
      itemOffset (leafItem node j) < itemOffset (leafItem node i) + size)

instance (fs : BtrfsFs) (node : Bytes) (i size : Nat) : Decidable (itemFits fs node i size) :=
  inferInstanceAs (Decidable (∀ _ < _, _))

/-- The leaf of `btrfs_grow_inline_item` with the longer item in it. -/
def grownItem (fs : BtrfsFs) (wanted : Key) (newSize : Nat) (node : Bytes) : Option Bytes := do
  guard (nodeCount node ≤ (fs.nodeSize - 101) / 25)
  let i ← leafFind node wanted
  let dataOffset := itemOffset (leafItem node i)
  let dataSize := itemSize (leafItem node i)
  guard (53 ≤ dataSize ∧ dataOffset ≤ fs.nodeSize ∧ dataSize ≤ fs.nodeSize - dataOffset ∧
    dataSize - 53 ≤ newSize ∧ newSize ≤ fs.nodeSize - dataOffset)
  guard (itemFits fs node i (53 + newSize))
  let node := node.splice (dataOffset + dataSize) (53 + newSize - dataSize) Bytes.zero
  let node := node.store32 (101 + i * 25 + 21) (53 + newSize)
  return node.store64 (dataOffset + 8) newSize

/-- The children that may hold a key, as `btrfs_grow_inline_item` tries them. -/
def childrenUpTo (node : Bytes) (wanted : Key) : List Nat :=
  (List.range (nodeCount node)).filter fun i => keyCompare (childItem node i) wanted ≠ .gt

/-- `btrfs_grow_inline_item`. -/
def btrfsGrowInlineItem (fs : BtrfsFs) (wanted : Key) (newSize : Nat) :
    (levels bytenr : Nat) → Attempt Storage Unit
  | 0, _ => fail
  | levels + 1, bytenr => do
    check (newSize ≤ 2 ^ 32 - 1 ∧ fs.nodeSize ≤ 65536)
    let node ← btrfsReadNode fs bytenr
    if node 100 = 0 then
      let node ← ofOption (grownItem fs wanted newSize node)
      btrfsWriteNode fs bytenr node
    else
      check (nodeCount node ≠ 0 ∧ nodeCount node ≤ (fs.nodeSize - 101) / 33)
      firstOf (fun i => btrfsGrowInlineItem fs wanted newSize levels (childBytenr node i))
        (childrenUpTo node wanted)

end Updates

section Data

/-- One copy of some data, checked against the checksum tree. -/
def readValidated (fs : BtrfsFs) (logical bytes : Nat) (mirror : Bool) : Attempt Storage Bytes := do
  let place ← ofOption (btrfsMapAt fs logical bytes mirror)
  check (place.2 % 512 = 0)
  let data ← readAt place bytes
  btrfsValidateData fs logical data bytes
  return data

/-- `btrfs_read_checked`: the first copy if it is valid, else the second. The second is not tried when
the first has no place. -/
def btrfsReadChecked (fs : BtrfsFs) (logical bytes : Nat) : Attempt Storage Bytes := do
  let place ← ofOption (btrfsMap fs logical bytes)
  check (place.2 % 512 = 0)
  match ← answer (readValidated fs logical bytes false) with
  | some data => return data
  | none => readValidated fs logical bytes true

/-- The loop of `btrfs_lzo_inflate`. A header never crosses a sector; the gap before it is zero. -/
def lzoSegments (compressed : List UInt8) (startOffset sectorSize capacity total : Nat) :
    (fuel position : Nat) → (output : List UInt8) → Option (List UInt8)
  | 0, _, _ => none
  | fuel + 1, position, output =>
    if position < total then
      let left := sectorSize - (startOffset + position) % sectorSize
      if left < 4 then do
        let gap := min left (total - position)
        guard (∀ byte ∈ (compressed.drop position).take gap, byte = 0)
        lzoSegments compressed startOffset sectorSize capacity total fuel (position + gap) output
      else do
        guard (position ≤ total - 4)
        let length := le32 (compressed.drop position)
        guard (length ≠ 0 ∧ length ≤ total - (position + 4) ∧ output.length ≤ capacity ∧
          sectorSize ≤ capacity - output.length)
        let segment ← btrfsLzo1xDecompress ((compressed.drop (position + 4)).take length) sectorSize
        guard (segment.length ≤ sectorSize ∧ segment.length ≤ capacity - output.length)
        lzoSegments compressed startOffset sectorSize capacity total fuel (position + 4 + length)
          (output ++ segment)
    else if position = total then some output
    else none

/-- `btrfs_lzo_inflate`. -/
def btrfsLzoInflate (startOffset sectorSize : Nat) (compressed : List UInt8) (capacity : Nat) :
    Option (List UInt8) := do
  let total := le32 compressed
  guard (4 ≤ compressed.length ∧ sectorSize ≠ 0 ∧ sectorSize ≤ 65536 ∧ compressed.length ≤ 65536)
  guard (4 ≤ total ∧ total ≤ compressed.length)
  lzoSegments compressed startOffset sectorSize capacity total (total + 1) 4 []

/-- The fields of a regular extent item. -/
structure ExtentFields where
  diskBytenr : Nat
  diskSize : Nat
  dataOffset : Nat
  dataSize : Nat

def ExtentFields.at (item : Bytes) : ExtentFields :=
  ⟨item.load64 21, item.load64 29, item.load64 37, item.load64 45⟩

/-- `file_offset <= UINT64_MAX - disk_bytenr - data_offset`. -/
def ExtentFields.inReach (extent : ExtentFields) (fileOffset : Nat) : Prop :=
  fileOffset ≤ sub64 (sub64 (2 ^ 64 - 1) extent.diskBytenr) extent.dataOffset

instance (extent : ExtentFields) (fileOffset : Nat) : Decidable (extent.inReach fileOffset) :=
  inferInstanceAs (Decidable (_ ≤ _))

/-- The compressed forms: the whole extent is read, checked and decompressed, and a part of the result
returned. `decompress` is given the place in its first sector where the data begins. -/
def readCompressed (fs : BtrfsFs) (extentType : BitVec 8) (extent : ExtentFields)
    (relative fileOffset size : Nat)
    (decompress : Nat → List UInt8 → Nat → Option (List UInt8)) : Attempt Storage (List UInt8) := do
  check (extentType = 1 ∧ extent.dataSize ≠ 0 ∧ extent.dataSize ≤ 65536 ∧ extent.diskSize ≠ 0 ∧
    extent.diskSize ≤ 65536 ∧ extent.dataOffset ≤ extent.diskSize ∧ relative ≤ extent.dataSize ∧
    size ≤ extent.dataSize - relative ∧ extent.inReach fileOffset)
  let logical := (extent.diskBytenr + extent.dataOffset) % 2 ^ 64
  let inSector := logical % fs.sectorSize
  let transfer := inSector + extent.diskSize
  let covered := (transfer + fs.sectorSize - 1) / fs.sectorSize * fs.sectorSize
  check (covered ≤ 65536)
  let data ← btrfsReadChecked fs (logical - inSector) covered
  let decoded ← ofOption (decompress inSector (data.octets inSector extent.diskSize) extent.dataSize)
  check (relative ≤ decoded.length ∧ size ≤ decoded.length - relative)
  return (decoded.drop relative).take size

/-- An uncompressed regular extent: the sectors of the range are read and checked. The source repeats
the body of `btrfs_read_checked` here. -/
def readPlain (fs : BtrfsFs) (extentType : BitVec 8) (extent : ExtentFields)
    (relative fileOffset size : Nat) : Attempt Storage (List UInt8) := do
  check (extentType = 1)
  check (relative ≤ extent.dataSize ∧ size ≤ extent.dataSize - relative ∧
    extent.dataOffset ≤ extent.diskSize ∧ relative ≤ extent.diskSize - extent.dataOffset ∧
    size ≤ extent.diskSize - extent.dataOffset - relative ∧ extent.inReach fileOffset)
  let logical := (extent.diskBytenr + extent.dataOffset + relative) % 2 ^ 64
  let inSector := logical % fs.sectorSize
  let transfer := (inSector + size) % 2 ^ 32
  let covered := (transfer + fs.sectorSize - 1) % 2 ^ 32 / fs.sectorSize * fs.sectorSize
  check (size ≤ transfer ∧ transfer ≤ covered ∧ covered ≤ 4096)
  let data ← btrfsReadChecked fs (logical - inSector) covered
  return data.octets inSector size

end Data

section Files

variable {σ : Type} (decodeCompressedBlock : (block output : List UInt8) → (capacity : Nat) → σ →
  Option (List UInt8 × σ)) (initial : σ)

/-- The inline branch of `btrfs_read_extent_data`, for the item as far as it was read. The bytes are
taken from byte 53 of the item on. -/
def readInline (fuel : Nat) (fs : BtrfsFs) (treeBytenr : Nat) (wanted : Key) (item : Bytes)
    (relative size : Nat) : Attempt Storage (List UInt8) := do
  let ramBytes := item.load64 8
  check (relative ≤ ramBytes ∧ relative ≤ 2 ^ 32 - 1 - 53 ∧ size ≤ ramBytes - relative ∧
    size ≤ sub64 (4096 - 53) relative)
  let item ← btrfsReadItem fuel fs treeBytenr wanted ((53 + relative + size) % 2 ^ 32)
  return item.octets (53 + relative) size

/-- The other branches of `btrfs_read_extent_data`, by the compression byte. -/
def readRegular (fs : BtrfsFs) (item : Bytes) (relative fileOffset size : Nat) :
    Attempt Storage (List UInt8) :=
  let extent := ExtentFields.at item
  if item 16 = 1 then do
    check (relative ≤ extent.diskSize - extent.dataOffset)
    readCompressed fs (item 20) extent relative fileOffset size fun _ => btrfsZlibInflate
  else if item 16 = 2 then
    readCompressed fs (item 20) extent relative fileOffset size fun inSector =>
      btrfsLzoInflate inSector fs.sectorSize
  else if item 16 = 3 then
    readCompressed fs (item 20) extent relative fileOffset size fun _ =>
      btrfsZstdDecompress decodeCompressedBlock initial
  else do
    check (item 16 = 0)
    readPlain fs (item 20) extent relative fileOffset size

/-- `btrfs_read_extent_data`. -/
def btrfsReadExtentData (fuel : Nat) (fs : BtrfsFs)
    (treeBytenr inode extentOffset fileOffset size : Nat) : Attempt Storage (List UInt8) := do
  check (size ≠ 0 ∧ fs.nodeSize ≤ 4096 ∧ extentOffset ≤ fileOffset)
  let item ← btrfsReadItem fuel fs treeBytenr ⟨inode, extentDataType, extentOffset⟩ 53
  check (item 17 = 0 ∧ item 18 = 0)
  if item 20 = 0 then
    readInline fuel fs treeBytenr ⟨inode, extentDataType, extentOffset⟩ item
      (fileOffset - extentOffset) size
  else
    readRegular decodeCompressedBlock initial fs item (fileOffset - extentOffset) fileOffset size

/-- The length of an extent by its item. -/
def extentLength (extent : Bytes) : Nat :=
  if extent 20 = 0 then extent.load64 8 else extent.load64 45

/-- The loop of `btrfs_read_file`. Every pass leaves fewer bytes to read, so `passes` starts from the
number of bytes. A search that fails is taken for a hole. -/
def readFileLoop (fuel : Nat) (fs : BtrfsFs) (treeBytenr inode : Nat) :
    (passes offset remaining : Nat) → Attempt Storage (List UInt8)
  | 0, _, remaining => do
    check (remaining = 0)
    return []
  | passes + 1, offset, remaining =>
    if remaining = 0 then pure []
    else do
      match ← answer (btrfsFindExtentStart fs treeBytenr inode offset) with
      | none =>
        let next ← answer (btrfsFindExtentAfter fs treeBytenr inode offset)
        let hole := next.elim remaining fun next => min (next - offset) remaining
        check (hole ≠ 0)
        let rest ← readFileLoop fuel fs treeBytenr inode passes (offset + hole) (remaining - hole)
        return List.replicate hole 0 ++ rest
      | some start =>
        let extent ← btrfsReadItem fuel fs treeBytenr ⟨inode, extentDataType, start⟩ 53
        let relative := offset - start
        if extentLength extent ≤ relative then
          let next ← btrfsFindExtentAfter fs treeBytenr inode offset
          let hole := min (next - offset) remaining
          let rest ← readFileLoop fuel fs treeBytenr inode passes (offset + hole) (remaining - hole)
          return List.replicate hole 0 ++ rest
        else
          let chunk := min (extentLength extent - relative) remaining
          let data ← btrfsReadExtentData decodeCompressedBlock initial fuel fs treeBytenr inode
            start offset chunk
          let rest ← readFileLoop fuel fs treeBytenr inode passes (offset + chunk) (remaining - chunk)
          return data ++ rest

/-- What `btrfs_read_file` does when the range goes past the end of the file. -/
def growForRead (fuel : Nat) (fs : BtrfsFs) (treeBytenr inode newEnd : Nat) :
    Attempt Storage Unit := do
  let firstExtent ← btrfsReadItem fuel fs treeBytenr ⟨inode, extentDataType, 0⟩ 53
  check (firstExtent 20 = 0)
  btrfsGrowInlineItem fs ⟨inode, extentDataType, 0⟩ newEnd 9 treeBytenr
  btrfsUpdateInodeSize fs inode newEnd 9 treeBytenr

/-- `btrfs_read_file`. -/
def btrfsReadFile (fuel : Nat) (fs : BtrfsFs) (treeBytenr inode offset size : Nat) :
    Attempt Storage (List UInt8) := do
  check (size ≠ 0)
  let (fileSize, mode) ← btrfsInodeStat fuel fs treeBytenr inode
  check (mode &&& 0o170000 = 0o100000 ∧ offset ≤ fileSize ∧ offset ≤ 2 ^ 64 - 1 - size)
  if fileSize < offset + size then growForRead fuel fs treeBytenr inode (offset + size)
  readFileLoop decodeCompressedBlock initial fuel fs treeBytenr inode size offset size

end Files

end KernelBoot.Btrfs
