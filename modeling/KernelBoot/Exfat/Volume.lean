import KernelBoot.Drivers.Storage

/-!
# exFAT volumes (`kernel/fs/exfat/exfat.c`)

`exfat_mount` with the checks on the boot regions, and where the entries of the file allocation table
and the clusters are. Numbers of sectors are computed in 64 bits.
-/

namespace KernelBoot.Exfat

open Lib Lib.Attempt Drivers

/-- `exfat_fs_t`, without its lock and `mounted`. -/
structure ExfatFs where
  device : Nat
  fatStart : Nat
  fatSectors : Nat
  heapStart : Nat
  clusterCount : Nat
  rootCluster : Nat
  sectorsPerCluster : Nat
  volumeSectors : Nat
  deriving DecidableEq

/-- `cluster_valid`. -/
def ExfatFs.clusterValid (fs : ExfatFs) (cluster : Nat) : Prop :=
  2 ≤ cluster ∧ fs.clusterCount ≤ 2 ^ 32 - 1 - 2 ∧ cluster < fs.clusterCount + 2

instance (fs : ExfatFs) (cluster : Nat) : Decidable (fs.clusterValid cluster) :=
  inferInstanceAs (Decidable (_ ∧ _))

def bootStep (checksum : Nat) (byte : UInt8) : Nat :=
  ((checksum >>> 1 ||| checksum <<< 31 % 2 ^ 32) + byte.toNat) % 2 ^ 32

/-- `boot_checksum`: eleven sectors are summed, and the twelfth repeats the sum. -/
def bootChecksum (device start : Nat) : Attempt Storage Nat := do
  let checksum ← foldAll (fun checksum number => do
    let sector ← storageRead device (start + number) 1
    return (sector.octets 0 512).foldl bootStep checksum) 0 (List.range 11)
  let sector ← storageRead device (start + 11) 1
  check (∀ i : Nat, i < 128 → sector.load32 (4 * i) = checksum)
  return checksum

/-- `validate_boot_regions`: a sum of 0 counts as a failure. -/
def validateBootRegions (device : Nat) : Attempt Storage Unit := do
  let checksum ← bootChecksum device 0
  check (checksum ≠ 0)
  let checksum ← bootChecksum device 12
  check (checksum ≠ 0)

/-- The numbers of the boot sector. -/
def volumeOf (device : Nat) (boot : Bytes) : ExfatFs :=
  ⟨device, boot.load32 80, boot.load32 84, boot.load32 88, boot.load32 92, boot.load32 96,
    2 ^ (boot 109).toNat, boot.load64 72⟩

/-- The checks of `exfat_mount` on these numbers. -/
def geometryOk (fs : ExfatFs) (blockCount : Nat) : Prop :=
  fs.sectorsPerCluster * 512 ≤ 4096 ∧ fs.volumeSectors ≠ 0 ∧ fs.volumeSectors ≤ blockCount ∧
    24 ≤ fs.fatStart ∧ fs.fatSectors ≠ 0 ∧ fs.fatStart < fs.heapStart ∧
    fs.fatStart + fs.fatSectors ≤ fs.volumeSectors ∧ fs.heapStart < fs.volumeSectors ∧
    fs.clusterCount ≠ 0 ∧ fs.clusterCount + 2 ≤ fs.fatSectors * 512 / 4 ∧
    fs.heapStart + fs.clusterCount * fs.sectorsPerCluster ≤ fs.volumeSectors ∧
    fs.clusterValid fs.rootCluster

instance (fs : ExfatFs) (blockCount : Nat) : Decidable (geometryOk fs blockCount) :=
  inferInstanceAs (Decidable (_ ∧ _))

/-- `exfat_mount`. -/
def exfatMount (device : Nat) : Attempt Storage ExfatFs := do
  let storage ← storageDeviceAt device
  check (storage.blockSize = 512)
  let boot ← storageRead device 0 1
  check (boot 510 = 0x55 ∧ boot 511 = 0xaa ∧ boot 0 = 0xeb ∧ boot 2 = 0x90 ∧
    boot.octets 3 8 = [0x45, 0x58, 0x46, 0x41, 0x54, 0x20, 0x20, 0x20])
  validateBootRegions device
  check (boot 108 = 9 ∧ boot 109 ≤ 3)
  check (geometryOk (volumeOf device boot) storage.blockCount)
  return volumeOf device boot

/-- The sector of an entry of the table, for `fat_next` and `exfat_write_fat`. -/
def ExfatFs.fatSector (fs : ExfatFs) (cluster : Nat) : Nat :=
  (fs.fatStart + cluster * 4 % 2 ^ 64 / 512) % 2 ^ 64

/-- The first sector of a cluster, for `exfat_read_cluster`, `exfat_zero_cluster` and the files. -/
def ExfatFs.clusterSector (fs : ExfatFs) (cluster : Nat) : Nat :=
  (fs.heapStart + (cluster - 2) * fs.sectorsPerCluster % 2 ^ 64) % 2 ^ 64

end KernelBoot.Exfat
