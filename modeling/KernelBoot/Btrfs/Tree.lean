import KernelBoot.Btrfs.Volume

/-!
# btrfs: searches in the trees (`kernel/fs/btrfs/btrfs.c`)

Items by key, directory entries, data checksums and the extents of a file. Where the source recurses
with a `depth` up to 8, the model counts the `levels` that are left down from 9. `btrfs_read_item_full`
is a loop without a bound: a tree whose nodes point back at each other is searched for ever. Its model
takes the number of nodes it may visit as `fuel`.
-/

namespace KernelBoot.Btrfs

open Lib Lib.Attempt Drivers

/-- The key of an item, or of a child. -/
structure Key where
  objectid : Nat
  type : Nat
  offset : Nat
  deriving Repr, DecidableEq

def Key.at (key : Bytes) : Key := ⟨key.load64 0, (key 8).toNat, key.load64 9⟩

/-- `key_compare`. -/
def keyCompare (key : Bytes) (wanted : Key) : Ordering :=
  if key.load64 0 ≠ wanted.objectid then
    if key.load64 0 < wanted.objectid then .lt else .gt
  else if (key 8).toNat ≠ wanted.type then
    if (key 8).toNat < wanted.type then .lt else .gt
  else if key.load64 9 ≠ wanted.offset then
    if key.load64 9 < wanted.offset then .lt else .gt
  else .eq

def rootItemType : Nat := 132

def extentDataType : Nat := 108

def inodeItemType : Nat := 1

def dirItemType : Nat := 84

def fsTreeObjectid : Nat := 5

def csumTreeObjectid : Nat := 7

def extentCsumObjectid : Nat := 2 ^ 64 - 1 - 9

def extentCsumType : Nat := 128

section Items

/-- The number of items or children that a node claims to have. -/
def nodeCount (node : Bytes) : Nat := node.load32 96

def leafItem (node : Bytes) (i : Nat) : Bytes := node.window (101 + i * 25)

def itemOffset (item : Bytes) : Nat := item.load32 17

def itemSize (item : Bytes) : Nat := item.load32 21

def childItem (node : Bytes) (i : Nat) : Bytes := node.window (101 + i * 33)

def childBytenr (node : Bytes) (i : Nat) : Nat := (childItem node i).load64 17

/-- The first item of a leaf with a key. -/
def leafFind (node : Bytes) (wanted : Key) : Option Nat :=
  (List.range (nodeCount node)).find? fun i => keyCompare (leafItem node i) wanted = .eq

/-- The last child before the first whose key is too great. -/
def childFind (node : Bytes) (wanted : Key) : Option Nat :=
  ((List.range (nodeCount node)).takeWhile fun i =>
    keyCompare (childItem node i) wanted ≠ .gt).getLast?

/-- The loop of `btrfs_read_item_full`, over the node in its buffer: the item's bytes and their
number. -/
def readItemLoop (fs : BtrfsFs) (wanted : Key) (capacity : Nat) :
    (fuel : Nat) → (node : Bytes) → Attempt Storage (Bytes × Nat)
  | 0, _ => fail
  | fuel + 1, node =>
    if node 100 = 0 then do
      check (nodeCount node ≤ (fs.nodeSize - 101) / 25)
      let i ← ofOption (leafFind node wanted)
      let dataOffset := itemOffset (leafItem node i)
      let dataSize := itemSize (leafItem node i)
      check (dataOffset ≤ fs.nodeSize ∧ dataSize ≤ fs.nodeSize - dataOffset ∧ dataSize ≤ capacity)
      return (node.window dataOffset, dataSize)
    else do
      check (nodeCount node ≠ 0 ∧ nodeCount node ≤ (fs.nodeSize - 101) / 33)
      let selected ← ofOption (childFind node wanted)
      let node ← btrfsReadNode fs (childBytenr node selected)
      readItemLoop fs wanted capacity fuel node

/-- `btrfs_read_item_full`. -/
def btrfsReadItemFull (fuel : Nat) (fs : BtrfsFs) (treeBytenr : Nat) (wanted : Key)
    (capacity : Nat) : Attempt Storage (Bytes × Nat) := do
  check (capacity ≠ 0 ∧ fs.nodeSize ≤ 65536)
  let node ← btrfsReadNode fs treeBytenr
  readItemLoop fs wanted capacity fuel node

/-- `btrfs_read_item`. -/
def btrfsReadItem (fuel : Nat) (fs : BtrfsFs) (treeBytenr : Nat) (wanted : Key) (size : Nat) :
    Attempt Storage Bytes := do
  check (size ≠ 0)
  let (item, dataSize) ← btrfsReadItemFull fuel fs treeBytenr wanted 4096
  check (size ≤ dataSize)
  return item

/-- The root of a tree, from its root item. -/
def treeRoot (fuel : Nat) (fs : BtrfsFs) (objectid : Nat) : Attempt Storage Nat := do
  let rootItem ← btrfsReadItem fuel fs fs.rootBytenr ⟨objectid, rootItemType, objectid⟩ 184
  let root := rootItem.load64 176
  check (fs.sectorSize ≤ root ∧ root < fs.totalBytes ∧ root % fs.sectorSize = 0)
  return root

/-- `btrfs_resolve_filesystem_tree`. -/
def btrfsResolveFilesystemTree (fuel : Nat) (fs : BtrfsFs) : Attempt Storage BtrfsFs := do
  let root ← treeRoot fuel fs fsTreeObjectid
  let csumRoot ← treeRoot fuel fs csumTreeObjectid
  return { fs with fsRootBytenr := root, csumRootBytenr := csumRoot }

/-- `btrfs_inode_stat`: size and mode. -/
def btrfsInodeStat (fuel : Nat) (fs : BtrfsFs) (treeBytenr inode : Nat) :
    Attempt Storage (Nat × Nat) := do
  let item ← btrfsReadItem fuel fs treeBytenr ⟨inode, inodeItemType, 0⟩ 160
  return (item.load64 16, item.load32 96)

/-- The loop of `btrfs_lookup_dir` over the entries of one item. Each pass moves on by at least 30. -/
def lookupLoop (item : Bytes) (itemSize : Nat) (name : List UInt8) :
    (fuel position : Nat) → Option Nat
  | 0, _ => none
  | fuel + 1, position =>
    if position + 30 ≤ itemSize then
      let dataLength := item.load16 (position + 25)
      let nameLength := item.load16 (position + 27)
      let entrySize := 30 + dataLength + nameLength
      if itemSize - position < entrySize ∨ dataLength ≠ 0 then none
      else if nameLength = name.length ∧ item.octets (position + 30) name.length = name then
        if item.load64 position ≠ 0 then some (item.load64 position) else none
      else lookupLoop item itemSize name fuel (position + entrySize)
    else none

/-- `btrfs_lookup_dir`, for a name without its terminating 0. -/
def btrfsLookupDir (fuel : Nat) (fs : BtrfsFs) (treeBytenr directory : Nat) (name : List UInt8) :
    Attempt Storage Nat := do
  check (name.length ≠ 0 ∧ name.length < 256)
  let (item, size) ←
    btrfsReadItemFull fuel fs treeBytenr ⟨directory, dirItemType, nameHash name⟩ 4096
  ofOption (lookupLoop item size name (size + 1) 0)

end Items

section Checksums

/-- The checksum that one item of a leaf holds for a sector, if it is a checksum item and covers it. -/
def csumInItem (fs : BtrfsFs) (node : Bytes) (logical i : Nat) : Option Nat :=
  let item := leafItem node i
  let start := item.load64 9
  let index := (logical - start) / fs.sectorSize
  if item.load64 0 = extentCsumObjectid ∧ (item 8).toNat = extentCsumType ∧ start ≤ logical ∧
      logical - start ≤ (2 ^ 64 - 1) / 4 ∧ (logical - start) % fs.sectorSize = 0 ∧
      itemSize item % 4 = 0 ∧ itemOffset item ≤ fs.nodeSize ∧
      itemSize item ≤ fs.nodeSize - itemOffset item ∧ index < itemSize item / 4 then
    some (node.load32 (itemOffset item + index * 4))
  else none

/-- `btrfs_find_data_csum`. -/
def btrfsFindDataCsum (fs : BtrfsFs) (logical : Nat) :
    (levels bytenr : Nat) → Attempt Storage Nat
  | 0, _ => fail
  | levels + 1, bytenr => do
    check (fs.nodeSize ≤ 65536)
    let node ← btrfsReadNode fs bytenr
    if node 100 = 0 then
      check (nodeCount node ≤ (fs.nodeSize - 101) / 25)
      ofOption ((List.range (nodeCount node)).findSome? (csumInItem fs node logical))
    else
      check (nodeCount node ≠ 0 ∧ nodeCount node ≤ (fs.nodeSize - 101) / 33)
      firstOf (fun i => btrfsFindDataCsum fs logical levels (childBytenr node i))
        (List.range (nodeCount node))

/-- One sector of `btrfs_validate_data`. -/
def validateSector (fs : BtrfsFs) (logical : Nat) (data : Bytes) (i : Nat) :
    Attempt Storage Unit := do
  let offset := i * fs.sectorSize
  check (logical ≤ 2 ^ 64 - 1 - offset)
  let expected ← btrfsFindDataCsum fs (logical + offset) 9 fs.csumRootBytenr
  check (crc32c (data.window offset) fs.sectorSize = expected)

/-- `btrfs_validate_data`. -/
def btrfsValidateData (fs : BtrfsFs) (logical : Nat) (data : Bytes) (bytes : Nat) :
    Attempt Storage Unit := do
  check (bytes ≠ 0 ∧ logical % fs.sectorSize = 0 ∧ bytes % fs.sectorSize = 0)
  forAll (validateSector fs logical data) (List.range (bytes / fs.sectorSize))

end Checksums

section Extents

/-- Whether an item is the better answer: the last at or before `fileOffset`, or the first behind it. -/
def scanItem (node : Bytes) (inode fileOffset : Nat) (next : Bool) (best : Option Nat) (i : Nat) :
    Option Nat :=
  let item := leafItem node i
  let keyOffset := item.load64 9
  if item.load64 0 = inode ∧ (item 8).toNat = extentDataType ∧
      ((next = false ∧ keyOffset ≤ fileOffset ∧ (∀ b ∈ best, b < keyOffset)) ∨
        (next = true ∧ fileOffset < keyOffset ∧ (∀ b ∈ best, keyOffset < b))) then
    some keyOffset
  else best

/-- `btrfs_scan_extents`, with `found` and `result` as an option. -/
def btrfsScanExtents (fs : BtrfsFs) (inode fileOffset : Nat) (next : Bool) :
    (levels bytenr : Nat) → Option Nat → Attempt Storage (Option Nat)
  | 0, _, _ => fail
  | levels + 1, bytenr, best => do
    check (fs.nodeSize ≤ 65536)
    let node ← btrfsReadNode fs bytenr
    if node 100 = 0 then
      check (nodeCount node ≤ (fs.nodeSize - 101) / 25)
      return (List.range (nodeCount node)).foldl (scanItem node inode fileOffset next) best
    else
      check (nodeCount node ≠ 0 ∧ nodeCount node ≤ (fs.nodeSize - 101) / 33)
      foldAll (fun best i =>
          btrfsScanExtents fs inode fileOffset next levels (childBytenr node i) best) best
        (List.range (nodeCount node))

/-- `btrfs_find_extent_start`. -/
def btrfsFindExtentStart (fs : BtrfsFs) (treeBytenr inode fileOffset : Nat) :
    Attempt Storage Nat := do
  let found ← btrfsScanExtents fs inode fileOffset false 9 treeBytenr none
  ofOption found

/-- `btrfs_find_extent_after`. -/
def btrfsFindExtentAfter (fs : BtrfsFs) (treeBytenr inode fileOffset : Nat) :
    Attempt Storage Nat := do
  let found ← btrfsScanExtents fs inode fileOffset true 9 treeBytenr none
  ofOption found

end Extents

end KernelBoot.Btrfs
