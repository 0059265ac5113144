import KernelBoot.Drivers.Storage

/-!
# btrfs: mounting, chunks and tree nodes (`kernel/fs/btrfs/btrfs.c`)

`btrfs_mount` with the chunk table it builds, `btrfs_map_at` and `btrfs_read_node`. The commands run on
the storage devices; a mount answers with the `btrfs_fs_t` it fills in.
-/

namespace KernelBoot.Btrfs

open Lib Lib.Attempt Drivers

/-- `a - b` in 64 bits. -/
def sub64 (a b : Nat) : Nat := (a + 2 ^ 64 - b) % 2 ^ 64

/-- `btrfs_chunk_t`. -/
structure BtrfsChunk where
  logical : Nat
  length : Nat
  device : Nat
  mirrorDevice : Nat
  physical : Nat
  mirrorPhysical : Nat
  deriving Repr, DecidableEq

/-- `btrfs_fs_t`, without its lock; `devices` pairs a `devid` with a storage device. -/
structure BtrfsFs where
  device : Nat
  sectorSize : Nat
  nodeSize : Nat
  totalBytes : Nat
  rootBytenr : Nat
  chunkRootBytenr : Nat
  fsRootBytenr : Nat
  csumRootBytenr : Nat
  fsid : List UInt8
  primaryDevid : Nat
  devices : List (Nat × Nat)
  chunks : List BtrfsChunk
  deriving Repr, DecidableEq

section Checksum

/-- One bit of the remainder. -/
def crcBit (crc : Nat) : Nat := crc >>> 1 ^^^ (if crc &&& 1 = 1 then 0x82f63b78 else 0)

def crcByte (crc : Nat) (byte : BitVec 8) : Nat := crcBit^[8] (crc ^^^ byte.toNat)

def crcLoop (data : Bytes) : (remaining position crc : Nat) → Nat
  | 0, _, crc => crc
  | remaining + 1, position, crc =>
    crcLoop data remaining (position + 1) (crcByte crc (data position))

def crc32c (data : Bytes) (length : Nat) : Nat :=
  0xffffffff ^^^ crcLoop data length 0 0xffffffff

/-- `name_hash`, which starts from `~1`. -/
def nameHash (name : List UInt8) : Nat :=
  0xffffffff ^^^ crcLoop (fun i => (name.getD i 0).toBitVec) name.length 0 0xfffffffe

end Checksum

section Map

/-- The chunk that a range lies in. -/
def BtrfsChunk.holds (chunk : BtrfsChunk) (logical bytes : Nat) : Prop :=
  chunk.logical ≤ logical ∧ logical - chunk.logical < chunk.length ∧
    bytes ≤ chunk.length - (logical - chunk.logical)

instance (chunk : BtrfsChunk) (logical bytes : Nat) : Decidable (chunk.holds logical bytes) :=
  inferInstanceAs (Decidable (_ ∧ _))

/-- Where the range is: on the mirror if it is asked for and there is one. -/
def BtrfsChunk.place (chunk : BtrfsChunk) (mirror : Bool) (logical : Nat) : Nat × Nat :=
  if mirror = true ∧ chunk.mirrorPhysical ≠ 0 then
    (chunk.mirrorDevice, chunk.mirrorPhysical + (logical - chunk.logical))
  else (chunk.device, chunk.physical + (logical - chunk.logical))

/-- `btrfs_map_at`: the device and the physical address. -/
def btrfsMapAt (fs : BtrfsFs) (logical bytes : Nat) (mirror : Bool) : Option (Nat × Nat) := do
  guard (bytes ≠ 0)
  let chunk ← fs.chunks.find? fun chunk => chunk.holds logical bytes
  guard ((chunk.place mirror logical).2 < 2 ^ 64)
  return chunk.place mirror logical

/-- `btrfs_map`. -/
def btrfsMap (fs : BtrfsFs) (logical bytes : Nat) : Option (Nat × Nat) :=
  btrfsMapAt fs logical bytes false

end Map

section Node

/-- The checks on a node that was read: its checksum, `fsid`, address and level. -/
def nodeValid (fs : BtrfsFs) (bytenr : Nat) (node : Bytes) : Prop :=
  crc32c (node.window 32) (fs.nodeSize - 32) = node.load32 0 ∧ node.octets 32 16 = fs.fsid ∧
    node.load64 48 = bytenr ∧ (node 100).toNat ≤ 8

instance (fs : BtrfsFs) (bytenr : Nat) (node : Bytes) : Decidable (nodeValid fs bytenr node) :=
  inferInstanceAs (Decidable (_ ∧ _))

/-- A read of `bytes` bytes at a physical address. -/
def readAt (place : Nat × Nat) (bytes : Nat) : Attempt Storage Bytes :=
  storageRead place.1 (place.2 / 512) (bytes / 512)

/-- The second copy of a node. -/
def readNodeMirror (fs : BtrfsFs) (bytenr : Nat) : Attempt Storage Bytes := do
  let place ← ofOption (btrfsMapAt fs bytenr fs.nodeSize true)
  check (place.2 % 512 = 0)
  let node ← readAt place fs.nodeSize
  check (nodeValid fs bytenr node)
  return node.store32 0 0

/-- `btrfs_read_node`: the first copy if it is valid, else the second; the checksum field of the answer
is cleared. -/
def btrfsReadNode (fs : BtrfsFs) (bytenr : Nat) : Attempt Storage Bytes := do
  check (bytenr % fs.sectorSize = 0 ∧ bytenr ≤ fs.totalBytes - fs.nodeSize ∧ fs.nodeSize / 512 ≠ 0)
  let place ← ofOption (btrfsMap fs bytenr fs.nodeSize)
  match ← answer (readAt place fs.nodeSize) with
  | none => readNodeMirror fs bytenr
  | some node =>
    if nodeValid fs bytenr node then return node.store32 0 0
    else readNodeMirror fs bytenr

end Node

section Chunks

/-- `btrfs_register_device`, for at most `BTRFS_MAX_DEVICES` devices. -/
def btrfsRegisterDevice (fs : BtrfsFs) (devid device : Nat) : Option BtrfsFs :=
  match fs.devices.find? fun known => known.1 = devid with
  | some known => if known.2 = device then some fs else none
  | none =>
    if fs.devices.length < 8 then some { fs with devices := fs.devices ++ [(devid, device)] }
    else none

/-- The checksum of a superblock. -/
def superblockValid (sb : Bytes) : Prop := crc32c (sb.window 32) (4096 - 32) = sb.load32 0

instance (sb : Bytes) : Decidable (superblockValid sb) := inferInstanceAs (Decidable (_ = _))

/-- A device that `btrfs_resolve_device` takes for `devid`. -/
def deviceHas (fs : BtrfsFs) (devid candidate : Nat) : Attempt Storage Nat := do
  let storage ← storageDeviceAt candidate
  check (candidate ≠ fs.device ∧ storage.blockSize = 512 ∧ 136 ≤ storage.blockCount)
  let sb ← storageRead candidate 128 8
  check (sb.load64 0x40 = 0x4d5f53665248425f ∧ sb.load64 0x100 = devid ∧
    sb.octets 0x20 16 = fs.fsid ∧ superblockValid sb)
  return candidate

/-- `btrfs_resolve_device`, with the device table after it. -/
def btrfsResolveDevice (fs : BtrfsFs) (devid : Nat) : Attempt Storage (BtrfsFs × Nat) := do
  match fs.devices.find? fun known => known.1 = devid with
  | some known => return (fs, known.2)
  | none =>
    let count ← look fun s => s.devices.length
    let candidate ← firstOf (deviceHas fs devid) (List.range count)
    let fs ← ofOption (btrfsRegisterDevice fs devid candidate)
    return (fs, candidate)

/-- A range of a chunk that lies on a device, whose size is computed in 64 bits. -/
def onDevice (device : StorageDevice) (physical length : Nat) : Prop :=
  length ≤ device.blockCount * 512 % 2 ^ 64 ∧
    physical ≤ device.blockCount * 512 % 2 ^ 64 - length

instance (device : StorageDevice) (physical length : Nat) :
    Decidable (onDevice device physical length) :=
  inferInstanceAs (Decidable (_ ∧ _))

/-- The stripes that `btrfs_chunk_first_stripe` reads from a chunk item. -/
structure BtrfsStripes where
  devid : Nat
  mirrorDevid : Nat
  physical : Nat
  mirrorPhysical : Nat

/-- The device of the second copy, if there is one. -/
def resolveMirror (fs : BtrfsFs) (stripes : BtrfsStripes) : Attempt Storage (BtrfsFs × Nat) :=
  if stripes.mirrorPhysical ≠ 0 then btrfsResolveDevice fs stripes.mirrorDevid else pure (fs, 0)

/-- The second copy, if there is one, lies on its device. -/
def checkMirror (mirrorDevice : Nat) (stripes : BtrfsStripes) (length : Nat) :
    Attempt Storage Unit :=
  if stripes.mirrorPhysical ≠ 0 then do
    let mirror ← storageDeviceAt mirrorDevice
    check (onDevice mirror stripes.mirrorPhysical length)
  else pure ()

/-- The table with one chunk more, unless it is there already, overlaps another or the table is full
(`BTRFS_MAX_SYSTEM_CHUNKS`). -/
def insertChunk (fs : BtrfsFs) (chunk : BtrfsChunk) : Option BtrfsFs :=
  if fs.chunks.any fun known => known.logical = chunk.logical ∧ known.length = chunk.length ∧
      known.device = chunk.device ∧ known.physical = chunk.physical ∧
      known.mirrorPhysical = chunk.mirrorPhysical then
    some fs
  else if (∀ existing ∈ fs.chunks, ¬(chunk.logical < existing.logical + existing.length ∧
      existing.logical < chunk.logical + chunk.length)) ∧ fs.chunks.length < 64 then
    some { fs with chunks := fs.chunks ++ [chunk] }
  else none

/-- `btrfs_add_chunk`. -/
def btrfsAddChunk (fs : BtrfsFs) (logical length : Nat) (stripes : BtrfsStripes) :
    Attempt Storage BtrfsFs := do
  let (fs, device) ← btrfsResolveDevice fs stripes.devid
  let (fs, mirrorDevice) ← resolveMirror fs stripes
  let primary ← storageDeviceAt device
  check (length ≠ 0 ∧ length ≤ fs.totalBytes ∧ logical ≤ fs.totalBytes - length ∧
    onDevice primary stripes.physical length)
  checkMirror mirrorDevice stripes length
  ofOption (insertChunk fs
    ⟨logical, length, device, mirrorDevice, stripes.physical, stripes.mirrorPhysical⟩)

/-- The profiles with more than two copies, with striping or with parity: bits 3, 6 to 10. -/
def unsupportedProfiles : Nat := 8 ||| 64 ||| 128 ||| 256 ||| 512 ||| 1024

/-- `btrfs_chunk_first_stripe`. -/
def btrfsChunkFirstStripe (chunk : Bytes) (stripes : Nat) : Option BtrfsStripes := do
  let flags := chunk.load64 24
  guard (stripes ≠ 0 ∧ flags &&& unsupportedProfiles = 0)
  guard (1 < stripes → flags &&& (2 ||| 16) ≠ 0)
  guard (stripes ≤ 2)
  let devid := if chunk.load64 48 = 0 then 1 else chunk.load64 48
  let mirrorDevid := if 1 < stripes then chunk.load64 80 else 0
  return {
    devid
    mirrorDevid := if mirrorDevid = 0 then devid else mirrorDevid
    physical := chunk.load64 56
    mirrorPhysical := if 1 < stripes then chunk.load64 88 else 0 }

/-- One item of a leaf of the chunk tree. -/
def collectItem (node : Bytes) (fs : BtrfsFs) (i : Nat) : Attempt Storage BtrfsFs := do
  let item := node.window (101 + i * 25)
  if item.load64 0 ≠ 1 ∨ item 8 ≠ 0x21 then return fs
  else
    let offset := item.load32 17
    let size := item.load32 21
    check (80 ≤ size ∧ offset ≤ fs.nodeSize ∧ size ≤ fs.nodeSize - offset)
    let chunk := node.window offset
    let stripes ← ofOption (btrfsChunkFirstStripe chunk (chunk.load16 44))
    check (48 + chunk.load16 44 * 32 ≤ size)
    btrfsAddChunk fs (item.load64 9) (chunk.load64 0) stripes

/-- `btrfs_collect_chunks`; `levels` counts down from 9, where the source counts `depth` up to 8. -/
def btrfsCollectChunks : (levels : Nat) → BtrfsFs → (bytenr : Nat) → Attempt Storage BtrfsFs
  | 0, _, _ => fail
  | levels + 1, fs, bytenr => do
    check (fs.nodeSize ≤ 65536)
    let node ← btrfsReadNode fs bytenr
    let count := node.load32 96
    if node 100 = 0 then
      check (count ≤ (fs.nodeSize - 101) / 25)
      foldAll (collectItem node) fs (List.range count)
    else
      check (count ≠ 0 ∧ count ≤ (fs.nodeSize - 101) / 33)
      foldAll (fun fs i => btrfsCollectChunks levels fs (node.load64 (118 + i * 33))) fs
        (List.range count)

/-- The loop of `btrfs_mount` over the chunk array of the superblock. -/
def systemChunks (sb : Bytes) (arraySize : Nat) :
    (fuel : Nat) → BtrfsFs → (position : Nat) → Attempt Storage (BtrfsFs × Nat)
  | 0, fs, position => pure (fs, position)
  | fuel + 1, fs, position =>
    if position + 17 + 44 + 32 ≤ arraySize then do
      let key := sb.window (0x2c0 + position)
      let numStripes := key.load16 (17 + 44)
      check (key.load64 0 = 1 ∧ key 8 = 0x21 ∧ key.load64 17 ≠ 0 ∧ numStripes ≠ 0 ∧
        fs.chunks.length < 64 ∧ key.load64 9 ≤ sub64 fs.totalBytes (key.load64 17))
      check (position + 17 + 44 + numStripes * 32 ≤ arraySize)
      let stripes ← ofOption (btrfsChunkFirstStripe (key.window 17) numStripes)
      let fs ← btrfsAddChunk fs (key.load64 9) (key.load64 17) stripes
      systemChunks sb arraySize fuel fs (position + 17 + 44 + numStripes * 32)
    else pure (fs, position)

end Chunks

section Mount

/-- One copy of the superblock, at a byte address. -/
def readSuperblock (device : Nat) (mirror : Nat) : Attempt Storage Bytes := do
  let storage ← storageDeviceAt device
  check (8 ≤ storage.blockCount ∧ mirror / 512 ≤ storage.blockCount - 8)
  let sb ← storageRead device (mirror / 512) 8
  check (sb.load64 0x40 = 0x4d5f53665248425f ∧ sb.load16 0xc0 = 0 ∧ superblockValid sb)
  return sb

/-- The checks of `btrfs_mount` on the sizes and the tree roots. -/
def geometryOk (sb : Bytes) (deviceBlocks : Nat) : Prop :=
  let sectorSize := sb.load32 0x90
  let nodeSize := sb.load32 0x94
  let totalBytes := sb.load64 0x70
  let root := sb.load64 0x50
  let chunkRoot := sb.load64 0x58
  512 ≤ sectorSize ∧ sectorSize ≤ 4096 ∧ sectorSize &&& (sectorSize - 1) = 0 ∧
    sectorSize ≤ nodeSize ∧ nodeSize ≤ 65536 ∧ nodeSize &&& (nodeSize - 1) = 0 ∧
    nodeSize ≤ totalBytes ∧ sectorSize ≤ root ∧ sectorSize ≤ chunkRoot ∧
    root < totalBytes ∧ chunkRoot < totalBytes ∧ deviceBlocks ≤ (2 ^ 64 - 1) / 512 ∧
    totalBytes ≤ deviceBlocks * 512 ∧ root % sectorSize = 0 ∧ chunkRoot % sectorSize = 0

instance (sb : Bytes) (deviceBlocks : Nat) : Decidable (geometryOk sb deviceBlocks) :=
  inferInstanceAs (Decidable (_ ∧ _))

/-- What `btrfs_mount` fills in before it reads the chunks. -/
def emptyFs (sb : Bytes) (device : Nat) : BtrfsFs where
  device := device
  sectorSize := sb.load32 0x90
  nodeSize := sb.load32 0x94
  totalBytes := sb.load64 0x70
  rootBytenr := sb.load64 0x50
  chunkRootBytenr := sb.load64 0x58
  fsRootBytenr := 0
  csumRootBytenr := 0
  fsid := sb.octets 0x20 16
  primaryDevid := if sb.load64 0x100 = 0 then 1 else sb.load64 0x100
  devices := []
  chunks := []

/-- `btrfs_mount`. -/
def btrfsMount (device : Nat) : Attempt Storage BtrfsFs := do
  let storage ← storageDeviceAt device
  check (storage.blockSize = 512)
  let sb ← firstOf (readSuperblock device) [65536, 67108864, 274877906944]
  check (geometryOk sb storage.blockCount)
  let fs ← ofOption (btrfsRegisterDevice (emptyFs sb device) (emptyFs sb device).primaryDevid device)
  let arraySize := sb.load32 0xa0
  check (arraySize ≤ 2048 ∧ 0x2c0 + arraySize ≤ 4096)
  let (fs, position) ← systemChunks sb arraySize arraySize fs 0
  check (position = arraySize ∧ fs.chunks ≠ [])
  btrfsCollectChunks 9 fs fs.chunkRootBytenr

end Mount

end KernelBoot.Btrfs
