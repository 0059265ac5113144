import KernelBoot.Btrfs.File

/-!
# What reading a btrfs file writes

The searches and `btrfs_read_extent_data` leave the storage as it is. `btrfs_read_file` does not: a
range that goes past the end of the file grows the inline item and the inode first.
`growReaches` says when that comes to a write, in terms of the storage before the call, and
`reads_only_iff` that nothing else is ever written.
-/

namespace KernelBoot.Btrfs

open Lib Lib.Attempt Drivers Option

variable {fs : BtrfsFs}

section Searches

theorem readAt_readOnly (place : Nat × Nat) (bytes : Nat) : ReadOnly (readAt place bytes) :=
  storageRead_readOnly _ _ _

theorem readNodeMirror_readOnly (bytenr : Nat) : ReadOnly (readNodeMirror fs bytenr) :=
  .bind (.ofOption _) fun place => .check_bind <| .bind (readAt_readOnly place _) fun _ =>
    .check_bind <| .pure _

theorem btrfsReadNode_readOnly (bytenr : Nat) : ReadOnly (btrfsReadNode fs bytenr) := by
  apply ReadOnly.check_bind
  apply ReadOnly.bind (.ofOption _)
  intro place
  apply ReadOnly.bind (readAt_readOnly place _).answer
  intro node
  cases node with
  | none => exact readNodeMirror_readOnly bytenr
  | some node => exact .ite (.pure _) (readNodeMirror_readOnly bytenr)

theorem readItemLoop_readOnly (wanted : Key) (capacity : Nat) :
    ∀ fuel node, ReadOnly (readItemLoop fs wanted capacity fuel node)
  | 0, _ => .fail
  | fuel + 1, _ => by
    apply ReadOnly.ite
    · exact .check_bind <| .bind (.ofOption _) fun _ => .check_bind <| .pure _
    · exact .check_bind <| .bind (.ofOption _) fun _ =>
        .bind (btrfsReadNode_readOnly _) fun node => readItemLoop_readOnly wanted capacity fuel node

variable (fuel treeBytenr : Nat) (wanted : Key)

theorem btrfsReadItemFull_readOnly (capacity : Nat) :
    ReadOnly (btrfsReadItemFull fuel fs treeBytenr wanted capacity) :=
  .check_bind <| .bind (btrfsReadNode_readOnly _) fun node =>
    readItemLoop_readOnly wanted capacity fuel node

theorem btrfsReadItem_readOnly (size : Nat) :
    ReadOnly (btrfsReadItem fuel fs treeBytenr wanted size) :=
  .check_bind <| .bind (btrfsReadItemFull_readOnly fuel treeBytenr wanted 4096) fun _ =>
    .check_bind <| .pure _

theorem btrfsInodeStat_readOnly (inode : Nat) :
    ReadOnly (btrfsInodeStat fuel fs treeBytenr inode) :=
  .bind (btrfsReadItem_readOnly fuel treeBytenr _ 160) fun _ => .pure _

theorem btrfsLookupDir_readOnly (directory : Nat) (name : List UInt8) :
    ReadOnly (btrfsLookupDir fuel fs treeBytenr directory name) :=
  .check_bind <| .bind (btrfsReadItemFull_readOnly fuel treeBytenr _ 4096) fun _ =>
    .ofOption _

theorem btrfsFindDataCsum_readOnly (logical : Nat) :
    ∀ levels bytenr, ReadOnly (btrfsFindDataCsum fs logical levels bytenr)
  | 0, _ => .fail
  | levels + 1, bytenr => by
    apply ReadOnly.check_bind
    apply ReadOnly.bind (btrfsReadNode_readOnly bytenr)
    intro node
    apply ReadOnly.ite
    · exact .check_bind <| .ofOption _
    · exact .check_bind <| .firstOf (fun i => btrfsFindDataCsum_readOnly logical levels _) _

theorem validateSector_readOnly (logical : Nat) (data : Bytes) (i : Nat) :
    ReadOnly (validateSector fs logical data i) :=
  .check_bind <| .bind (btrfsFindDataCsum_readOnly _ _ _) fun _ => .check _

theorem btrfsValidateData_readOnly (logical : Nat) (data : Bytes) (bytes : Nat) :
    ReadOnly (btrfsValidateData fs logical data bytes) :=
  .check_bind <| .forAll (fun _ => validateSector_readOnly _ _ _) _

theorem btrfsScanExtents_readOnly (inode fileOffset : Nat) (next : Bool) :
    ∀ levels bytenr best, ReadOnly (btrfsScanExtents fs inode fileOffset next levels bytenr best)
  | 0, _, _ => .fail
  | levels + 1, bytenr, best => by
    apply ReadOnly.check_bind
    apply ReadOnly.bind (btrfsReadNode_readOnly bytenr)
    intro node
    apply ReadOnly.ite
    · exact .check_bind <| .pure _
    · exact .check_bind <|
        .foldAll (fun best i => btrfsScanExtents_readOnly inode fileOffset next levels _ best) _ _

theorem btrfsFindExtentStart_readOnly (inode fileOffset : Nat) :
    ReadOnly (btrfsFindExtentStart fs treeBytenr inode fileOffset) :=
  .bind (btrfsScanExtents_readOnly _ _ _ _ _ _) fun _ => .ofOption _

theorem btrfsFindExtentAfter_readOnly (inode fileOffset : Nat) :
    ReadOnly (btrfsFindExtentAfter fs treeBytenr inode fileOffset) :=
  .bind (btrfsScanExtents_readOnly _ _ _ _ _ _) fun _ => .ofOption _

end Searches

section Data

theorem readValidated_readOnly (logical bytes : Nat) (mirror : Bool) :
    ReadOnly (readValidated fs logical bytes mirror) :=
  .bind (.ofOption _) fun place => .check_bind <| .bind (readAt_readOnly place _) fun data =>
    .bind (btrfsValidateData_readOnly logical data bytes) fun _ => .pure _

theorem btrfsReadChecked_readOnly (logical bytes : Nat) :
    ReadOnly (btrfsReadChecked fs logical bytes) := by
  apply ReadOnly.bind (.ofOption _)
  intro _
  apply ReadOnly.check_bind
  apply ReadOnly.bind (readValidated_readOnly logical bytes false).answer
  intro data
  cases data with
  | none => exact readValidated_readOnly logical bytes true
  | some data => exact .pure data

theorem readCompressed_readOnly (extentType : BitVec 8) (extent : ExtentFields)
    (relative fileOffset size : Nat) (decompress : Nat → List UInt8 → Nat → Option (List UInt8)) :
    ReadOnly (readCompressed fs extentType extent relative fileOffset size decompress) :=
  .check_bind <| .check_bind <| .bind (btrfsReadChecked_readOnly _ _) fun _ =>
    .bind (.ofOption _) fun _ => .check_bind <| .pure _

theorem readPlain_readOnly (extentType : BitVec 8) (extent : ExtentFields)
    (relative fileOffset size : Nat) :
    ReadOnly (readPlain fs extentType extent relative fileOffset size) :=
  .check_bind <| .check_bind <| .check_bind <| .bind (btrfsReadChecked_readOnly _ _) fun _ => .pure _

variable {σ : Type} {decodeCompressedBlock : (block output : List UInt8) → (capacity : Nat) → σ →
  Option (List UInt8 × σ)} {initial : σ} (fuel treeBytenr inode : Nat)

theorem readInline_readOnly (wanted : Key) (item : Bytes) (relative size : Nat) :
    ReadOnly (readInline fuel fs treeBytenr wanted item relative size) :=
  .check_bind <| .bind (btrfsReadItem_readOnly _ _ _ _) fun _ => .pure _

theorem readRegular_readOnly (item : Bytes) (relative fileOffset size : Nat) :
    ReadOnly (readRegular decodeCompressedBlock initial fs item relative fileOffset size) := by
  apply ReadOnly.ite
  · exact .check_bind <| readCompressed_readOnly _ _ _ _ _ _
  apply ReadOnly.ite (readCompressed_readOnly _ _ _ _ _ _)
  apply ReadOnly.ite (readCompressed_readOnly _ _ _ _ _ _)
  exact .check_bind <| readPlain_readOnly _ _ _ _ _

theorem btrfsReadExtentData_readOnly (extentOffset fileOffset size : Nat) :
    ReadOnly (btrfsReadExtentData decodeCompressedBlock initial fuel fs treeBytenr inode extentOffset
      fileOffset size) :=
  .check_bind <| .bind (btrfsReadItem_readOnly _ _ _ _) fun _ => .check_bind <|
    .ite (readInline_readOnly _ _ _ _ _ _) (readRegular_readOnly _ _ _ _)

theorem readFileLoop_readOnly : ∀ passes offset remaining,
    ReadOnly (readFileLoop decodeCompressedBlock initial fuel fs treeBytenr inode passes offset
      remaining)
  | 0, _, _ => .check_bind <| .pure _
  | passes + 1, offset, remaining => by
    apply ReadOnly.ite (.pure _)
    apply ReadOnly.bind (btrfsFindExtentStart_readOnly _ _ _).answer
    intro start
    cases start with
    | none =>
      exact .bind (btrfsFindExtentAfter_readOnly _ _ _).answer fun _ => .check_bind <|
        .bind (readFileLoop_readOnly passes _ _) fun _ => .pure _
    | some start =>
      apply ReadOnly.bind (btrfsReadItem_readOnly _ _ _ _)
      intro extent
      apply ReadOnly.ite
      · exact .bind (btrfsFindExtentAfter_readOnly _ _ _) fun _ =>
          .bind (readFileLoop_readOnly passes _ _) fun _ => .pure _
      · exact .bind (btrfsReadExtentData_readOnly _ _ _ _ _ _) fun _ =>
          .bind (readFileLoop_readOnly passes _ _) fun _ => .pure _

end Data

section Growth

variable {s : Storage}

/-- Whether `btrfs_write_node` comes to its first write. -/
def nodeWritable (fs : BtrfsFs) (bytenr : Nat) (s : Storage) : Prop :=
  ∃ place ∈ btrfsMap fs bytenr fs.nodeSize, fs.nodeSize ≤ 65536 ∧ place.2 % 512 = 0 ∧
    (readAt place fs.nodeSize s).1.isSome

/-- Whether `btrfs_grow_inline_item` comes to a write: it gets from the node at `bytenr` to a leaf with
the item, the longer item fits there, and the leaf can be written. -/
def growReaches (fs : BtrfsFs) (wanted : Key) (newSize : Nat) (s : Storage) :
    (levels bytenr : Nat) → Prop
  | 0, _ => False
  | levels + 1, bytenr =>
    (newSize ≤ 2 ^ 32 - 1 ∧ fs.nodeSize ≤ 65536) ∧
      ∃ node ∈ (btrfsReadNode fs bytenr s).1,
        if node 100 = 0 then (grownItem fs wanted newSize node).isSome ∧ nodeWritable fs bytenr s
        else (nodeCount node ≠ 0 ∧ nodeCount node ≤ (fs.nodeSize - 101) / 33) ∧
          ∃ i ∈ childrenUpTo node wanted,
            growReaches fs wanted newSize s levels (childBytenr node i)

theorem storageWrite_keeps_lt (n index lba count : Nat) (buffer : Bytes) :
    Keeps (fun t : Storage => n < t.writes) (storageWrite index lba count buffer) := by
  intro t ht
  rw [storageWrite_writes]
  exact Nat.lt_succ_of_lt ht

theorem writeNodeMirror_keeps_lt (n : Nat) (place mirror : Nat × Nat) (original node : Bytes) :
    Keeps (fun t : Storage => n < t.writes) (writeNodeMirror fs place mirror original node) := by
  have hwrite : ∀ place buffer, Keeps (fun t : Storage => n < t.writes)
      (succeeds (writeAt place fs.nodeSize buffer)) :=
    fun _ _ => (storageWrite_keeps_lt _ _ _ _ _).succeeds
  apply Keeps.bind
  · exact (ReadOnly.bind (.check _) fun _ => readAt_readOnly _ _).answer.keeps
  · intro originalMirror
    cases originalMirror with
    | none => exact .bind (hwrite _ _) fun _ => .fail
    | some originalMirror =>
      apply Keeps.bind (hwrite _ _)
      intro done
      exact .ite (.pure _) (.bind (hwrite _ _) fun _ => .bind (hwrite _ _) fun _ => .fail)

/-- `btrfs_write_node` writes, or does nothing. -/
theorem btrfsWriteNode_marks (bytenr : Nat) (node : Bytes) :
    Marks (fun t : Storage => s.writes < t.writes) s (nodeWritable fs bytenr s)
      (btrfsWriteNode fs bytenr node) := by
  apply Marks.congr (R := ∃ place ∈ btrfsMap fs bytenr fs.nodeSize, (fs.nodeSize ≤ 65536 ∧
    place.2 % 512 = 0) ∧ ∃ _ ∈ (readAt place fs.nodeSize s).1, True)
  · refine .ofOption_bind fun place => .check_bind fun _ =>
      .readOnly_bind (readAt_readOnly place fs.nodeSize) fun original _ => ?_
    -- the first write counts, and what comes after it does not take it back
    refine .bind_keeps ⟨fun h => absurd trivial h, fun _ => ?_⟩ fun _ => ?_
    · rw [writeAt, storageWrite_writes]
      exact Nat.lt_succ_self _
    · cases btrfsMapAt fs bytenr fs.nodeSize true with
      | none => exact .pure _
      | some mirror => exact .ite (.pure _) (writeNodeMirror_keeps_lt s.writes place mirror original _)
  · simp only [nodeWritable, and_true, isSome_iff_exists, mem_def, and_assoc]

theorem btrfsWriteNode_keeps_lt (n bytenr : Nat) (node : Bytes) :
    Keeps (fun t : Storage => n < t.writes) (btrfsWriteNode fs bytenr node) := by
  intro t ht
  by_cases h : nodeWritable fs bytenr t
  · exact Nat.lt_trans ht ((btrfsWriteNode_marks bytenr node).marks h)
  · rwa [(btrfsWriteNode_marks bytenr node).fails h]

theorem btrfsGrowInlineItem_keeps_lt (n : Nat) (wanted : Key) (newSize : Nat) :
    ∀ levels bytenr, Keeps (fun t : Storage => n < t.writes)
      (btrfsGrowInlineItem fs wanted newSize levels bytenr)
  | 0, _ => .fail
  | levels + 1, bytenr => by
    refine Keeps.bind (.check _) fun _ => ?_
    refine Keeps.bind (btrfsReadNode_readOnly bytenr).keeps fun node => ?_
    apply Keeps.ite
    · exact .bind (.ofOption _) fun _ => btrfsWriteNode_keeps_lt _ _ _
    · exact .bind (.check _) fun _ =>
        .firstOf (fun i => btrfsGrowInlineItem_keeps_lt n wanted newSize levels _) _

theorem btrfsUpdateInodeSize_keeps_lt (n inode size : Nat) :
    ∀ levels bytenr, Keeps (fun t : Storage => n < t.writes)
      (btrfsUpdateInodeSize fs inode size levels bytenr)
  | 0, _ => .fail
  | levels + 1, bytenr => by
    refine Keeps.bind (.check _) fun _ => ?_
    refine Keeps.bind (btrfsReadNode_readOnly bytenr).keeps fun node => ?_
    apply Keeps.ite
    · exact .bind (.ofOption _) fun _ => btrfsWriteNode_keeps_lt _ _ _
    · exact .bind (.check _) fun _ =>
        .firstOf (fun i => btrfsUpdateInodeSize_keeps_lt n inode size levels _) _

/-- `btrfs_grow_inline_item` writes, or does nothing. The induction is on the levels left. -/
theorem btrfsGrowInlineItem_marks (wanted : Key) (newSize : Nat) : ∀ levels bytenr,
    Marks (fun t : Storage => s.writes < t.writes) s (growReaches fs wanted newSize s levels bytenr)
      (btrfsGrowInlineItem fs wanted newSize levels bytenr)
  | 0, _ => ⟨fun _ => rfl, fun h => h.elim⟩
  | levels + 1, bytenr => by
    rw [growReaches, btrfsGrowInlineItem]
    refine .check_bind fun _ => .readOnly_bind (btrfsReadNode_readOnly bytenr) fun node _ => ?_
    split_ifs with hleaf
    · exact (Marks.ofOption_bind fun grown => btrfsWriteNode_marks bytenr grown).congr
        (by simp [isSome_iff_exists])
    · exact .check_bind fun _ => .firstOf (fun i => btrfsGrowInlineItem_marks wanted newSize levels _)
        (fun i => btrfsGrowInlineItem_keeps_lt s.writes wanted newSize levels _) _

end Growth

section Contract

variable {σ : Type} {decodeCompressedBlock : (block output : List UInt8) → (capacity : Nat) → σ →
  Option (List UInt8 × σ)} {initial : σ}

/-- Whether reading a range of a file comes to a write: the range goes past the end of a regular file,
the item of its first extent is there and inline, and its growth comes to a write. -/
def readWrites (fuel : Nat) (fs : BtrfsFs) (treeBytenr inode offset size : Nat) (s : Storage) : Prop :=
  size ≠ 0 ∧ ∃ stat ∈ (btrfsInodeStat fuel fs treeBytenr inode s).1,
    (stat.2 &&& 0o170000 = 0o100000 ∧ offset ≤ stat.1 ∧ offset ≤ 2 ^ 64 - 1 - size) ∧
    stat.1 < offset + size ∧
    ∃ first ∈ (btrfsReadItem fuel fs treeBytenr ⟨inode, extentDataType, 0⟩ 53 s).1,
      first 20 = 0 ∧
      growReaches fs ⟨inode, extentDataType, 0⟩ (offset + size) s 9 treeBytenr

variable {fuel treeBytenr inode offset size : Nat} {s : Storage}

/-- Growing for a read writes if the item can grow, and else does nothing. -/
theorem growForRead_marks (fs : BtrfsFs) (fuel treeBytenr inode newEnd : Nat) (s : Storage) :
    Marks (fun t : Storage => s.writes < t.writes) s
      (∃ first ∈ (btrfsReadItem fuel fs treeBytenr ⟨inode, extentDataType, 0⟩ 53 s).1,
        first 20 = 0 ∧ growReaches fs ⟨inode, extentDataType, 0⟩ newEnd s 9 treeBytenr)
      (growForRead fuel fs treeBytenr inode newEnd) :=
  .readOnly_bind (btrfsReadItem_readOnly _ _ _ _) fun _ _ => .check_bind fun _ =>
    .bind_keeps (btrfsGrowInlineItem_marks _ _ _ _) fun _ => btrfsUpdateInodeSize_keeps_lt _ _ _ _ _

/-- Reading a file writes when `readWrites` says so, and else leaves the storage as it is. -/
theorem btrfsReadFile_storage :
    (¬readWrites fuel fs treeBytenr inode offset size s →
        (btrfsReadFile decodeCompressedBlock initial fuel fs treeBytenr inode offset size s).2 = s) ∧
      (readWrites fuel fs treeBytenr inode offset size s → s.writes <
        (btrfsReadFile decodeCompressedBlock initial fuel fs treeBytenr inode offset size s).2.writes) := by
  have hstat : ReadOnly (btrfsInodeStat fuel fs treeBytenr inode) := btrfsInodeStat_readOnly _ _ _
  rw [btrfsReadFile, readWrites]
  by_cases hsize : size ≠ 0
  · rw [bind_of_some (check_of_true hsize s)]
    cases hread : (btrfsInodeStat fuel fs treeBytenr inode s).1 with
    | none =>
      rw [bind_of_none (Prod.ext hread (hstat s))]
      exact ⟨fun _ => rfl, fun h => nomatch h.2⟩
    | some stat =>
      rw [bind_of_some (hstat.eq_some_iff.mpr hread)]
      simp only [hsize, ne_eq, not_false_eq_true, true_and, mem_def, some.injEq,
        exists_eq_left']
      by_cases hfile : stat.2 &&& 0o170000 = 0o100000 ∧ offset ≤ stat.1 ∧ offset ≤ 2 ^ 64 - 1 - size
      · rw [bind_of_some (check_of_true hfile s)]
        have hloop : ReadOnly (readFileLoop decodeCompressedBlock initial fuel fs treeBytenr inode size
            offset size) := readFileLoop_readOnly _ _ _ _ _ _
        split_ifs with hpast
        · have hgrow := (growForRead_marks fs fuel treeBytenr inode (offset + size) s).bind_keeps
            fun _ => hloop.keeps
          exact ⟨fun h => congrArg Prod.snd (hgrow.fails fun hreach => h ⟨hfile, hpast, hreach⟩),
            fun h => hgrow.marks h.2.2⟩
        · exact ⟨fun _ => hloop s, fun h => absurd h.2.1 hpast⟩
      · rw [bind_of_none (check_of_false hfile s)]
        exact ⟨fun _ => rfl, fun h => absurd h.1 hfile⟩
  · rw [bind_of_none (check_of_false hsize s)]
    exact ⟨fun _ => rfl, fun h => absurd h.1 hsize⟩

/-- What reading is meant to leave alone, for one range of one file and all other questions. -/
structure ReadsOnly (decodeCompressedBlock : (block output : List UInt8) → (capacity : Nat) → σ →
    Option (List UInt8 × σ)) (initial : σ) (fuel : Nat) (fs : BtrfsFs)
    (treeBytenr inode offset size : Nat) (s : Storage) : Prop where
  item : ∀ wanted size, (btrfsReadItem fuel fs treeBytenr wanted size s).2 = s
  lookup : ∀ directory name, (btrfsLookupDir fuel fs treeBytenr directory name s).2 = s
  extent : ∀ extentOffset fileOffset size, (btrfsReadExtentData decodeCompressedBlock initial fuel fs
    treeBytenr inode extentOffset fileOffset size s).2 = s
  file : (btrfsReadFile decodeCompressedBlock initial fuel fs treeBytenr inode offset size s).2 = s

/-- Reading leaves the storage alone, unless the range goes past the end of the file and its first
extent can grow. -/
theorem reads_only_iff :
    ReadsOnly decodeCompressedBlock initial fuel fs treeBytenr inode offset size s ↔
      ¬readWrites fuel fs treeBytenr inode offset size s := by
  constructor
  · intro h hwrites
    have hlt : s.writes < (btrfsReadFile decodeCompressedBlock initial fuel fs treeBytenr inode offset
        size s).2.writes := btrfsReadFile_storage.2 hwrites
    rw [h.file] at hlt
    exact Nat.lt_irrefl _ hlt
  · intro h
    exact ⟨fun wanted size => btrfsReadItem_readOnly fuel treeBytenr wanted size s,
      fun directory name => btrfsLookupDir_readOnly fuel treeBytenr directory name s,
      fun _ _ _ => btrfsReadExtentData_readOnly _ _ _ _ _ _ s, btrfsReadFile_storage.1 h⟩

/-- A volume with sectors of 512 and nodes of 1024 bytes: superblock, chunk tree and root tree. -/
def sampleRoots : List Bytes.Field :=
  [⟨65536, 4, 0xb8c013f5⟩, ⟨65600, 8, 0x4d5f53665248425f⟩, ⟨65616, 8, 70656⟩, ⟨65624, 8, 69632⟩,
    ⟨65648, 8, 77824⟩, ⟨65680, 4, 512⟩, ⟨65684, 4, 1024⟩, ⟨65696, 4, 93⟩, ⟨65792, 8, 1⟩,
    ⟨66240, 8, 1⟩, ⟨66248, 1, 33⟩, ⟨66249, 8, 69632⟩, ⟨66257, 8, 8192⟩, ⟨66301, 2, 1⟩,
    ⟨66305, 8, 1⟩, ⟨66313, 8, 69632⟩, ⟨69632, 4, 0x8004fc18⟩, ⟨69680, 8, 69632⟩,
    ⟨70656, 4, 0xf5865666⟩, ⟨70704, 8, 70656⟩, ⟨70752, 4, 2⟩, ⟨70757, 8, 5⟩, ⟨70765, 1, 132⟩,
    ⟨70766, 8, 5⟩, ⟨70774, 4, 200⟩, ⟨70778, 4, 184⟩, ⟨71032, 8, 71680⟩, ⟨70782, 8, 7⟩,
    ⟨70790, 1, 132⟩, ⟨70791, 8, 7⟩, ⟨70799, 4, 400⟩, ⟨70803, 4, 184⟩, ⟨71232, 8, 72704⟩]

/-- Its file tree at 71680, its checksum tree at 72704 and its data. Inode 256 is a file of the four
bytes `abcd` in an inline extent. Inode 257 is a file of the four bytes `aaaa` in an inline extent that
is compressed with zlib. Inode 258 is a file of 1024 bytes, with one extent of 512 at 73728 and a hole
behind it. -/
def sampleFiles : List Bytes.Field :=
  [⟨71680, 4, 0x9af458c2⟩, ⟨71728, 8, 71680⟩, ⟨71776, 4, 6⟩, ⟨71781, 8, 256⟩, ⟨71789, 1, 1⟩,
    ⟨71798, 4, 260⟩, ⟨71802, 4, 160⟩, ⟨71956, 8, 4⟩, ⟨72036, 4, 33188⟩, ⟨71806, 8, 256⟩,
    ⟨71814, 1, 108⟩, ⟨71823, 4, 420⟩, ⟨71827, 4, 57⟩, ⟨72108, 8, 4⟩, ⟨72153, 4, 0x64636261⟩,
    ⟨71831, 8, 257⟩, ⟨71839, 1, 1⟩, ⟨71848, 4, 500⟩, ⟨71852, 4, 160⟩, ⟨72196, 8, 4⟩,
    ⟨72276, 4, 33188⟩, ⟨71856, 8, 257⟩, ⟨71864, 1, 108⟩, ⟨71873, 4, 660⟩, ⟨71877, 4, 65⟩,
    ⟨72348, 8, 4⟩, ⟨72356, 1, 1⟩, ⟨72393, 12, 0x8501ce0300044c4c4c4bda78⟩, ⟨71881, 8, 258⟩,
    ⟨71889, 1, 1⟩, ⟨71898, 4, 730⟩, ⟨71902, 4, 160⟩, ⟨72426, 8, 1024⟩, ⟨72506, 4, 33188⟩,
    ⟨71906, 8, 258⟩, ⟨71914, 1, 108⟩, ⟨71923, 4, 890⟩, ⟨71927, 4, 53⟩, ⟨72578, 8, 512⟩,
    ⟨72590, 1, 1⟩, ⟨72591, 8, 73728⟩, ⟨72599, 8, 512⟩, ⟨72615, 8, 512⟩, ⟨72704, 4, 0x57809a4c⟩,
    ⟨72752, 8, 72704⟩, ⟨72800, 4, 1⟩, ⟨72805, 8, 0xfffffffffffffff6⟩, ⟨72813, 1, 128⟩,
    ⟨72814, 8, 73728⟩, ⟨72822, 4, 200⟩, ⟨72826, 4, 4⟩, ⟨72904, 4, 0x275cb3b8⟩,
    ⟨73728, 4, 0x61746164⟩]

def sampleStorage : Storage where
  devices := [⟨512, 152, Bytes.ofFields (sampleRoots ++ sampleFiles), fun _ => true, fun _ => true⟩]
  writes := 0

/-- The mounted volume. -/
def sampleFs : BtrfsFs where
  device := 0
  sectorSize := 512
  nodeSize := 1024
  totalBytes := 77824
  rootBytenr := 70656
  chunkRootBytenr := 69632
  fsRootBytenr := 71680
  csumRootBytenr := 72704
  fsid := List.replicate 16 0
  primaryDevid := 1
  devices := [(1, 0)]
  chunks := [⟨69632, 8192, 0, 0, 69632, 0⟩]

theorem sample_mounted :
    ((do
        let fs ← btrfsMount 0
        btrfsResolveFilesystemTree 9 fs) sampleStorage).1 = some sampleFs := by
  decide +kernel

theorem sample_readWrites : readWrites 9 sampleFs 71680 256 0 8 sampleStorage := by
  have hstat : (btrfsInodeStat 9 sampleFs 71680 256 sampleStorage).1 = some (4, 0o100644) := by
    decide +kernel
  have hitem : (btrfsReadItem 9 sampleFs 71680 ⟨256, extentDataType, 0⟩ 53 sampleStorage).1.map
      (fun item => item 20) = some 0 := by decide +kernel
  have hnode : (btrfsReadNode sampleFs 71680 sampleStorage).1.map (fun node =>
      (node 100, (grownItem sampleFs ⟨256, extentDataType, 0⟩ 8 node).isSome)) = some (0, true) := by
    decide +kernel
  obtain ⟨first, hfirst, hinline⟩ := map_eq_some_iff.mp hitem
  obtain ⟨node, hread, hgrown⟩ := map_eq_some_iff.mp hnode
  rw [Prod.mk.injEq] at hgrown
  have hwritable : nodeWritable sampleFs 71680 sampleStorage :=
    ⟨(0, 71680), by decide, by decide, by decide, by decide⟩
  refine ⟨by decide, _, hstat, by decide, by decide, first, hfirst, hinline, by decide, node, hread, ?_⟩
  rw [if_pos hgrown.1]
  exact ⟨hgrown.2, hwritable⟩

/-- Reading eight bytes of inode 256, which has four, writes. -/
theorem read_past_end_writes :
    ((do
        let fs ← btrfsMount 0
        btrfsResolveFilesystemTree 9 fs) sampleStorage).1 = some sampleFs ∧
      0 < (btrfsReadFile (fun _ _ _ _ => none) () 9 sampleFs 71680 256 0 8
        sampleStorage).2.writes ∧
      ¬ReadsOnly (fun _ _ _ _ => none) () 9 sampleFs 71680 256 0 8 sampleStorage := by
  have hwrites : 0 < (btrfsReadFile (fun _ _ _ _ => none) () 9 sampleFs 71680 256 0 8
      sampleStorage).2.writes := btrfsReadFile_storage.2 sample_readWrites
  refine ⟨sample_mounted, hwrites, fun h => ?_⟩
  rw [h.file] at hwrites
  exact Nat.lt_irrefl _ hwrites

end Contract

end KernelBoot.Btrfs
