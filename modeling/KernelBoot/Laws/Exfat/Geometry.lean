import KernelBoot.Exfat.Volume

/-!
# The layout of an exFAT volume

Of a mounted volume both the file allocation table and the cluster heap lie on the device, and no
number of a sector wraps around. But `exfat_mount` asks only that the heap starts behind the first
sector of the table: they are apart exactly if it starts behind the last (`safe_iff`).
-/

namespace KernelBoot.Exfat

open Lib Lib.Attempt Drivers

variable {fs : ExfatFs} {s : Storage} {storage : StorageDevice} {device : Nat}

/-- The sectors of the table. -/
def ExfatFs.fat (fs : ExfatFs) : Set Nat := Set.Ico fs.fatStart (fs.fatStart + fs.fatSectors)

/-- The sectors of the clusters. -/
def ExfatFs.heap (fs : ExfatFs) : Set Nat :=
  {sector | ∃ cluster, fs.clusterValid cluster ∧
    ∃ i < fs.sectorsPerCluster, sector = fs.clusterSector cluster + i}

/-- The table and the heap are apart and on the device, and their sectors are computed without
wrapping around. -/
structure Safe (fs : ExfatFs) (blockCount : Nat) : Prop where
  apart : Disjoint fs.fat fs.heap
  fat_lt : ∀ sector ∈ fs.fat, sector < blockCount
  heap_lt : ∀ sector ∈ fs.heap, sector < blockCount
  fatSector : ∀ cluster, fs.clusterValid cluster →
    fs.fatSector cluster = fs.fatStart + cluster * 4 / 512 ∧ fs.fatSector cluster ∈ fs.fat
  clusterSector : ∀ cluster, fs.clusterValid cluster →
    fs.clusterSector cluster = fs.heapStart + (cluster - 2) * fs.sectorsPerCluster

theorem volumeOf_of_mount (hmount : (exfatMount device s).1 = some fs)
    (hdevice : s.devices[device]? = some storage) : ∃ boot, (storageRead device 0 1 s).1 = some boot ∧
      fs = volumeOf device boot ∧ geometryOk fs storage.blockCount := by
  have hat : storageDeviceAt device s = (some storage, s) := by
    rw [storageDeviceAt, look_bind_apply, hdevice]
    rfl
  rw [exfatMount, bind_of_some hat] at hmount
  obtain ⟨-, hread⟩ := check_bind_fst.mp hmount
  obtain ⟨boot, hboot, hrest⟩ := (storageRead_readOnly device 0 1).bind_fst.mp hread
  refine ⟨boot, hboot, Yields.check_bind (Q := fun fs => fs = volumeOf device boot ∧
    geometryOk fs storage.blockCount) (fun _ => ?_) s fs _ (Prod.ext hrest rfl)⟩
  exact .then_ fun _ => .check_bind fun _ => .check_bind fun hok => .pure ⟨rfl, hok⟩

/-- On a mounted volume the layout is safe exactly if the boot sector has the heap behind the table. -/
theorem safe_iff (hmount : (exfatMount device s).1 = some fs)
    (hdevice : s.devices[device]? = some storage) :
    Safe fs storage.blockCount ↔
      ∀ boot ∈ (storageRead device 0 1 s).1, boot.load32 80 + boot.load32 84 ≤ boot.load32 88 := by
  obtain ⟨boot, hboot, hfs, -, -, hvolume, -, -, hlow, hfat, -, hcount, hentries, hheap, -, hmax, -⟩ :=
    volumeOf_of_mount hmount hdevice
  have hbehind : (∀ boot ∈ (storageRead device 0 1 s).1, boot.load32 80 + boot.load32 84 ≤ boot.load32 88) ↔
      fs.fatStart + fs.fatSectors ≤ fs.heapStart := by
    rw [hboot, hfs]
    exact ⟨fun h => h boot rfl, fun h _ hother => Option.some.inj hother ▸ h⟩
  have hlt : fs.volumeSectors < 2 ^ 64 := hfs ▸ Bytes.load64_lt
  have hspc : 0 < fs.sectorsPerCluster := hfs ▸ Nat.two_pow_pos _
  rw [hbehind]
  have hcluster : ∀ cluster, fs.clusterValid cluster →
      fs.clusterSector cluster = fs.heapStart + (cluster - 2) * fs.sectorsPerCluster ∧
      fs.clusterSector cluster + fs.sectorsPerCluster ≤ fs.volumeSectors := by
    rintro cluster ⟨htwo, -, hhigh⟩
    have hmul := Nat.mul_le_mul_right fs.sectorsPerCluster (show cluster - 2 + 1 ≤ fs.clusterCount by omega)
    rw [Nat.add_mul, Nat.one_mul] at hmul
    rw [ExfatFs.clusterSector, Nat.mod_eq_of_lt (a := _ * _) (by omega), Nat.mod_eq_of_lt (by omega)]
    exact ⟨rfl, by omega⟩
  constructor
  · intro hsafe
    by_contra hnot
    -- the first sector of the heap is one of the table
    have htwo : fs.clusterValid 2 := ⟨le_rfl, hmax, by omega⟩
    have hfirst : fs.heapStart = fs.clusterSector 2 + 0 := by simp [(hcluster 2 htwo).1]
    exact Set.disjoint_left.mp hsafe.apart ⟨hlow.le, by omega⟩ ⟨2, htwo, 0, hspc, hfirst⟩
  · intro hbehind
    refine ⟨Set.disjoint_left.mpr ?_, ?_, ?_, ?_, fun cluster hvalid => (hcluster cluster hvalid).1⟩
    · rintro sector ⟨-, hsector⟩ ⟨cluster, hvalid, i, -, rfl⟩
      rw [(hcluster cluster hvalid).1] at hsector
      omega
    · rintro sector ⟨-, hsector⟩
      omega
    · rintro _ ⟨cluster, hvalid, i, hi, rfl⟩
      have := (hcluster cluster hvalid).2
      omega
    · rintro cluster ⟨htwo, -, hhigh⟩
      have hsector : fs.fatSector cluster = fs.fatStart + cluster * 4 / 512 := by
        rw [ExfatFs.fatSector]
        omega
      rw [hsector]
      exact ⟨rfl, by omega, by omega⟩

/-- A volume of 64 sectors: the table in sectors 24 and 25, eight clusters and the checksums. -/
def sampleVolume (heapStart checksum : Nat) : Storage where
  devices := [⟨512, 64, Bytes.ofFields [⟨0, 11, 0x20202054414658459000eb⟩, ⟨72, 8, 64⟩, ⟨80, 4, 24⟩,
    ⟨84, 4, 2⟩, ⟨88, 4, heapStart⟩, ⟨92, 4, 8⟩, ⟨96, 4, 2⟩, ⟨108, 1, 9⟩, ⟨510, 2, 0xaa55⟩,
    ⟨5632, 512, checksum * ((2 ^ 4096 - 1) / (2 ^ 32 - 1))⟩, ⟨6144, 1, 1⟩,
    ⟨11776, 512, 2 * ((2 ^ 4096 - 1) / (2 ^ 32 - 1))⟩], fun _ => true, fun _ => true⟩]
  writes := 0

theorem safe_sample :
    (exfatMount 0 (sampleVolume 26 0xb473fc7f)).1 = some ⟨0, 24, 2, 26, 8, 2, 1, 64⟩ ∧
      Safe ⟨0, 24, 2, 26, 8, 2, 1, 64⟩ 64 := by
  have hmount : (exfatMount 0 (sampleVolume 26 0xb473fc7f)).1 = some ⟨0, 24, 2, 26, 8, 2, 1, 64⟩ := by
    decide +kernel
  exact ⟨hmount, (safe_iff hmount rfl).mpr (by decide +kernel)⟩

/-- Sector 25 is both the second of the table and the first of cluster 2. -/
theorem heap_over_table :
    (exfatMount 0 (sampleVolume 25 0xb273fc7f)).1 = some ⟨0, 24, 2, 25, 8, 2, 1, 64⟩ ∧
      ¬Safe ⟨0, 24, 2, 25, 8, 2, 1, 64⟩ 64 := by
  refine ⟨by decide +kernel, fun h => ?_⟩
  exact Set.disjoint_left.mp h.apart (show 25 ∈ ExfatFs.fat _ from ⟨by decide, by decide⟩)
    ⟨2, by decide, 0, by decide, by decide⟩

end KernelBoot.Exfat
