import KernelBoot.Laws.Btrfs.Extent

/-!
# The chunk table of a mounted volume

`btrfs_mount` reads chunks from the superblock and from the chunk tree and adds them one at a time.
`Tabled` is what holds all along: the devices of the table are there, and each chunk was checked
against the ones before it and against the devices of its copies. So what `btrfs_map_at` answers lies
on the device that it names.
-/

namespace KernelBoot.Btrfs

open Lib Lib.Attempt Drivers
open List hiding Disjoint

variable {fs : BtrfsFs} {s : Storage}

/-- The bytes are on a device, and their addresses fit in 64 bits. -/
def Lies (s : Storage) (device physical bytes : Nat) : Prop :=
  ∃ storage, s.devices[device]? = some storage ∧
    physical + bytes ≤ storage.blockCount * storage.blockSize ∧ physical + bytes < 2 ^ 64

/-- A device with the sectors that btrfs reads. -/
def Usable (s : Storage) (device : Nat) : Prop :=
  ∃ storage, s.devices[device]? = some storage ∧ storage.blockSize = 512

/-- The logical addresses of a chunk. -/
def BtrfsChunk.range (chunk : BtrfsChunk) : Set Nat := Set.Ico chunk.logical (chunk.logical + chunk.length)

/-- The sizes in a file system record. -/
def BtrfsFs.sizes (fs : BtrfsFs) : Nat × Nat := (fs.sectorSize, fs.nodeSize)

/-- A record that `btrfs_mount` is filling in. -/
structure Tabled (s : Storage) (sizes : Nat × Nat) (fs : BtrfsFs) : Prop where
  sizes_eq : fs.sizes = sizes
  total : fs.totalBytes < 2 ^ 64
  devices : ∀ known ∈ fs.devices, Usable s known.2
  disjoint : fs.chunks.Pairwise fun a b => Disjoint a.range b.range
  logical : ∀ chunk ∈ fs.chunks, chunk.logical + chunk.length ≤ fs.totalBytes
  primary : ∀ chunk ∈ fs.chunks, Lies s chunk.device chunk.physical chunk.length
  mirror : ∀ chunk ∈ fs.chunks, chunk.mirrorPhysical ≠ 0 →
    Lies s chunk.mirrorDevice chunk.mirrorPhysical chunk.length

variable {z : Nat × Nat}

theorem storageDeviceAt_finds (index : Nat) :
    Finds s (fun device => s.devices[index]? = some device) (storageDeviceAt index) :=
  .bind (P := fun device => s.devices[index]? = device) ⟨rfl, fun _ h => Option.some.inj h⟩
    fun _ h => .ofOption fun _ h' => h.trans h'

theorem deviceHas_finds (fs : BtrfsFs) (devid candidate : Nat) :
    Finds s (Usable s) (deviceHas fs devid candidate) :=
  .bind (storageDeviceAt_finds candidate) fun storage hstorage => .check_bind fun hcheck =>
    .then_ (storageRead_readOnly _ _ _) fun _ => .check_bind fun _ =>
      .pure ⟨storage, hstorage, hcheck.2.1⟩

theorem Tabled.register {devid device : Nat} {fs' : BtrfsFs} (h : Tabled s z fs)
    (hdevice : Usable s device) (heq : btrfsRegisterDevice fs devid device = some fs') :
    Tabled s z fs' := by
  rw [btrfsRegisterDevice] at heq
  split at heq
  · split_ifs at heq
    obtain rfl := Option.some.inj heq
    exact h
  · split_ifs at heq
    obtain rfl := Option.some.inj heq
    exact { h with devices := forall_mem_append.mpr ⟨h.devices, forall_mem_singleton.mpr hdevice⟩ }

theorem Tabled.resolve (devid : Nat) (h : Tabled s z fs) :
    Finds s (fun found : BtrfsFs × Nat => Tabled s z found.1 ∧ Usable s found.2)
      (btrfsResolveDevice fs devid) := by
  rw [btrfsResolveDevice]
  split
  next known hfind => exact .pure ⟨h, h.devices known (mem_of_find?_eq_some hfind)⟩
  next =>
    exact .then_ (.look _) fun _ => .bind (.firstOf (deviceHas_finds fs devid) _) fun candidate hdevice =>
      .bind (.ofOption fun _ heq => h.register hdevice heq) fun _ h => .pure ⟨h, hdevice⟩

theorem Tabled.resolveMirror (stripes : BtrfsStripes) (h : Tabled s z fs) :
    Finds s (fun found : BtrfsFs × Nat => Tabled s z found.1 ∧
      (stripes.mirrorPhysical ≠ 0 → Usable s found.2)) (resolveMirror fs stripes) :=
  .ite (fun _ => ⟨(h.resolve _).1, fun _ hfound => ((h.resolve _).2 _ hfound).imp_right fun hd _ => hd⟩)
    fun hzero => .pure ⟨h, fun hne => absurd hne hzero⟩

/-- The size of a device may not fit in 64 bits; then less of it is used. -/
theorem lies_of_onDevice {storage : StorageDevice} {device physical length : Nat}
    (hstorage : s.devices[device]? = some storage) (husable : Usable s device)
    (h : onDevice storage physical length) : Lies s device physical length := by
  obtain ⟨other, hother, hsize⟩ := husable
  obtain rfl : storage = other := Option.some.inj (hstorage.symm.trans hother)
  obtain ⟨hlength, hphysical⟩ := h
  have hmod := Nat.mod_le (storage.blockCount * 512) (2 ^ 64)
  have hlt := Nat.mod_lt (storage.blockCount * 512) (Nat.two_pow_pos 64)
  exact ⟨storage, hstorage, by rw [hsize]; omega, by omega⟩

theorem checkMirror_finds {mirrorDevice length : Nat} {stripes : BtrfsStripes}
    (husable : stripes.mirrorPhysical ≠ 0 → Usable s mirrorDevice) :
    Finds s (fun _ => stripes.mirrorPhysical ≠ 0 → Lies s mirrorDevice stripes.mirrorPhysical length)
      (checkMirror mirrorDevice stripes length) :=
  .ite (fun hne => .bind (storageDeviceAt_finds _) fun mirror hmirror =>
      ⟨ReadOnly.check _ s, fun _ hchecked _ => lies_of_onDevice hmirror (husable hne) <| by
        by_contra hno
        rw [check_of_false hno] at hchecked
        cases hchecked⟩)
    fun hzero => .pure fun hne => absurd hne hzero

theorem Tabled.insert {chunk : BtrfsChunk} {fs' : BtrfsFs} (h : Tabled s z fs)
    (hlogical : chunk.logical + chunk.length ≤ fs.totalBytes)
    (hprimary : Lies s chunk.device chunk.physical chunk.length)
    (hmirror : chunk.mirrorPhysical ≠ 0 → Lies s chunk.mirrorDevice chunk.mirrorPhysical chunk.length)
    (heq : insertChunk fs chunk = some fs') : Tabled s z fs' := by
  rw [insertChunk] at heq
  split_ifs at heq with _ hapart
  · obtain rfl := Option.some.inj heq
    exact h
  · obtain rfl := Option.some.inj heq
    refine { h with
      disjoint := pairwise_append.mpr ⟨h.disjoint, pairwise_singleton _ _, fun a ha b hb => ?_⟩
      logical := forall_mem_append.mpr ⟨h.logical, forall_mem_singleton.mpr hlogical⟩
      primary := forall_mem_append.mpr ⟨h.primary, forall_mem_singleton.mpr hprimary⟩
      mirror := forall_mem_append.mpr ⟨h.mirror, forall_mem_singleton.mpr hmirror⟩ }
    have hno := hapart.1 a ha
    rw [mem_singleton.mp hb, BtrfsChunk.range, BtrfsChunk.range, Set.Ico_disjoint_Ico]
    omega

theorem Tabled.addChunk (logical length : Nat) (stripes : BtrfsStripes) (h : Tabled s z fs) :
    Finds s (Tabled s z) (btrfsAddChunk fs logical length stripes) := by
  refine .bind (h.resolve _) ?_
  rintro ⟨fs, device⟩ ⟨h, hdevice⟩
  refine .bind (h.resolveMirror _) ?_
  rintro ⟨fs, mirrorDevice⟩ ⟨h, hmirror⟩
  refine .bind (storageDeviceAt_finds _) fun primary hprimary => .check_bind fun hcheck =>
    .bind (checkMirror_finds hmirror) fun _ hmirror => .ofOption fun _ heq => ?_
  obtain ⟨-, hlength, hlogical, hon⟩ := hcheck
  have hend : logical + length ≤ fs.totalBytes := Nat.add_le_of_le_sub hlength hlogical
  exact h.insert hend (lies_of_onDevice hprimary hdevice hon) hmirror heq

theorem Tabled.collectItem (node : Bytes) (fs : BtrfsFs) (i : Nat) (h : Tabled s z fs) :
    Finds s (Tabled s z) (collectItem node fs i) :=
  .ite (fun _ => .pure h) fun _ => .check_bind fun _ => .then_ (.ofOption _) fun _ =>
    .check_bind fun _ => h.addChunk _ _ _

theorem Tabled.collectChunks : ∀ (levels : Nat) (fs : BtrfsFs) (bytenr : Nat), Tabled s z fs →
    Finds s (Tabled s z) (btrfsCollectChunks levels fs bytenr)
  | 0, _, _, _ => .fail
  | levels + 1, _, _, h => .check_bind fun _ => .then_ (btrfsReadNode_readOnly _) fun node => .ite
    (fun _ => .check_bind fun _ => .foldAll (fun fs i h => Tabled.collectItem node fs i h) _ h)
    fun _ => .check_bind fun _ => .foldAll (fun fs _ h => Tabled.collectChunks levels fs _ h) _ h

theorem Tabled.systemChunks (sb : Bytes) (arraySize : Nat) :
    ∀ (fuel : Nat) (fs : BtrfsFs) (position : Nat), Tabled s z fs →
      Finds s (fun found : BtrfsFs × Nat => Tabled s z found.1) (systemChunks sb arraySize fuel fs position)
  | 0, _, _, h => .pure h
  | fuel + 1, _, _, h => .ite
    (fun _ => .check_bind fun _ => .check_bind fun _ => .then_ (.ofOption _) fun _ =>
      .bind (h.addChunk _ _ _) fun fs h => Tabled.systemChunks sb arraySize fuel fs _ h)
    fun _ => .pure h

theorem readSuperblock_readOnly (device mirror : Nat) : ReadOnly (readSuperblock device mirror) :=
  .bind (storageDeviceAt_readOnly _) fun _ => .check_bind <| .bind (storageRead_readOnly _ _ _) fun _ =>
    .check_bind <| .pure _

/-- What a mount leaves: the sizes that its checks let through, and the chunk table. -/
theorem btrfsMount_finds (device : Nat) : Finds s (fun fs => ∃ sb blocks,
    geometryOk sb blocks ∧ Tabled s (sb.load32 0x90, sb.load32 0x94) fs) (btrfsMount device) := by
  refine .bind (storageDeviceAt_finds device) fun storage hstorage => .check_bind fun hsize =>
    .then_ (.firstOf (readSuperblock_readOnly device) _) fun sb => .check_bind fun hgeometry => ?_
  have hempty : Tabled s (sb.load32 0x90, sb.load32 0x94) (emptyFs sb device) :=
    ⟨rfl, Bytes.load64_lt, forall_mem_nil _, .nil, forall_mem_nil _, forall_mem_nil _, forall_mem_nil _⟩
  refine .bind (.ofOption fun _ heq => hempty.register ⟨storage, hstorage, hsize⟩ heq) fun fs h =>
    .check_bind fun _ => ?_
  refine .bind (Tabled.systemChunks sb _ _ fs 0 h) ?_
  rintro ⟨fs, position⟩ h
  refine .check_bind fun _ => ?_
  obtain ⟨hkeeps, hfound⟩ := Tabled.collectChunks 9 fs fs.chunkRootBytenr h
  exact ⟨hkeeps, fun _ ha => ⟨sb, _, hgeometry, hfound _ ha⟩⟩

/-- What `btrfs_map_at` answers lies on the device that it names. -/
theorem Tabled.mapAt (h : Tabled s z fs) {logical bytes : Nat} {mirror : Bool} {place : Nat × Nat}
    (hmap : btrfsMapAt fs logical bytes mirror = some place) : Lies s place.1 place.2 bytes := by
  simp only [btrfsMapAt, guard, Option.bind_eq_bind, Option.bind_eq_some_iff] at hmap
  obtain ⟨-, -, chunk, hfind, -, -, hplace⟩ := hmap
  obtain rfl := Option.some.inj hplace
  have hmem := mem_of_find?_eq_some hfind
  have hholds := find?_some hfind
  obtain ⟨hlow, hin, hbytes⟩ := of_decide_eq_true hholds
  -- the part of a chunk from `logical` on lies where the chunk does
  have hpart : ∀ {device physical}, Lies s device physical chunk.length →
      Lies s device (physical + (logical - chunk.logical)) bytes := by
    rintro device physical ⟨storage, hstorage, hend, hlt⟩
    exact ⟨storage, hstorage, by omega, by omega⟩
  rw [BtrfsChunk.place]
  split
  next hmirror => exact hpart (h.mirror chunk hmem hmirror.2)
  next => exact hpart (h.primary chunk hmem)

/-- The chunks of a mounted volume are disjoint, and every mapped range lies on its device. -/
theorem btrfsMount_chunks {device : Nat} (h : (btrfsMount device s).1 = some fs) :
    (fs.chunks.Pairwise fun a b => Disjoint a.range b.range) ∧
      (∀ chunk ∈ fs.chunks, chunk.logical + chunk.length < 2 ^ 64) ∧
      ∀ logical bytes mirror place, btrfsMapAt fs logical bytes mirror = some place →
        Lies s place.1 place.2 bytes := by
  obtain ⟨sb, blocks, -, htabled⟩ := (btrfsMount_finds device).2 fs h
  exact ⟨htabled.disjoint, fun chunk hchunk => (htabled.logical chunk hchunk).trans_lt htabled.total,
    fun _ _ _ _ => htabled.mapAt⟩

theorem btrfsMount_chunks_sample :
    ∃ fs, (btrfsMount 0 sampleStorage).1 = some fs ∧ btrfsMapAt fs 70656 1024 true = some (0, 70656) ∧
      Lies sampleStorage 0 70656 1024 := by
  have hmount : (btrfsMount 0 sampleStorage).1 =
      some { sampleFs with fsRootBytenr := 0, csumRootBytenr := 0 } := by decide +kernel
  have hmap : btrfsMapAt { sampleFs with fsRootBytenr := 0, csumRootBytenr := 0 } 70656 1024 true =
      some (0, 70656) := by decide
  exact ⟨_, hmount, hmap, (btrfsMount_chunks hmount).2.2 _ _ _ _ hmap⟩

end KernelBoot.Btrfs
