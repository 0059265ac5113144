import KernelBoot.Laws.Process.UserImage

/-!
# Permissions and contents of a loaded image

Read off the history of each page. The page table forgets the permissions that an earlier segment
asked for, the record of the image does not: the two agree exactly if on every page the last segment
that asks for writing or executing asks for all that was asked for before. The bytes are those of the
file whenever the segments do not overlap.
-/

namespace KernelBoot.Process

open Lib Mm List ElfProgram

variable {program : ElfProgram} {address : Nat} (frame : Word)

/-- The segment, rounded out to whole pages, contains the page `v`. -/
def Covers (program : ElfProgram) (v : Nat) : Prop :=
  v % 0x1000 = 0 ∧ program.first / 0x1000 ≤ v / 0x1000 ∧
    v / 0x1000 < (program.memoryEnd + 0xfff) / 0x1000

instance (program : ElfProgram) (v : Nat) : Decidable (Covers program v) :=
  inferInstanceAs (Decidable (_ ∧ _))

/-- What the checks of a segment leave. -/
structure Accepted (program : ElfProgram) : Prop where
  file : program.fileEnd ≤ program.memoryEnd
  low : 2 ^ 39 ≤ program.first
  high : program.memoryEnd < 2 ^ 48
  sum : (program.virtualAddress + program.memorySize).toNat = program.memoryEnd

theorem accepted_of_check {imageSize : Word} (h : segmentAccepted imageSize program = true) :
    Accepted program := by
  simp only [segmentAccepted, Bool.and_eq_true, Bool.not_eq_true', decide_eq_false_iff_not,
    BitVec.le_def, ge_iff_le, BitVec.lt_def, BitVec.toNat_add] at h
  obtain ⟨⟨⟨⟨⟨⟨-, hfile⟩, hlow⟩, hwrap⟩, hhigh⟩, -⟩, -⟩ := h
  have h39 : (2 ^ 39 : Word).toNat = 2 ^ 39 := by decide
  have h48 : (2 ^ 48 : Word).toNat = 2 ^ 48 := by decide
  have := program.virtualAddress.isLt
  have := program.memorySize.isLt
  refine ⟨?_, ?_, ?_, ?_⟩
  · rw [fileEnd, memoryEnd]
    omega
  · rw [first]
    omega
  · rw [memoryEnd, first]
    omega
  · rw [BitVec.toNat_add, memoryEnd, first]
    omega

theorem mem_segmentPages (h : Accepted program) (v : Nat) :
    v ∈ segmentPages program ↔ Covers program v := by
  have hdown : (pageDown program.virtualAddress).toNat = program.first / 0x1000 * 0x1000 :=
    toNat_pageDown _
  have hup : (pageUp (program.virtualAddress + program.memorySize)).toNat =
      (program.memoryEnd + 0xfff) / 0x1000 * 0x1000 := by
    have hsum := h.sum
    have hhigh := h.high
    refine (toNat_pageDown _).trans ?_
    have hadd : (program.virtualAddress + program.memorySize + 0x1000 - 1).toNat =
        program.memoryEnd + 0xfff := by
      rw [BitVec.toNat_sub, BitVec.toNat_add, hsum]
      change (2 ^ 64 - 1 + (program.memoryEnd + 0x1000) % 2 ^ 64) % 2 ^ 64 = _
      omega
    rw [hadd]
  rw [segmentPages, hdown, hup, mem_map, Covers]
  have hfile := h.file
  have hfirst : program.first ≤ program.memoryEnd := Nat.le_add_right _ _
  constructor
  · rintro ⟨turn, hturn, rfl⟩
    rw [mem_range] at hturn
    omega
  · rintro ⟨haligned, hlow, hhigh⟩
    refine ⟨v / 0x1000 - program.first / 0x1000, mem_range.mpr ?_, ?_⟩
    · omega
    · omega

/-- The segments to be loaded that cover a page, in their order. -/
def coveringSegments (image : Bytes) (v : Nat) : List ElfProgram :=
  (Elf.programs image).filter fun program => program.isLoad && decide (Covers program v)

variable {image : Bytes} {imageSize : Word} {s₀ s' : SpaceState} {loaded : UserImage}

theorem LoadedSegments.history {b : Bool} {l : Loading}
    (h : LoadedSegments image imageSize s₀ (Elf.programs image) b l) (v : Nat) :
    historyOf (Elf.programs image) v = coveringSegments image v := by
  refine filter_congr fun program hprogram => ?_
  cases hload : program.isLoad with
  | false => rfl
  | true =>
    have haccepted := accepted_of_check (h.accepted program hprogram hload)
    rw [Bool.true_and, Bool.true_and, decide_eq_decide, mem_segmentPages haccepted]

/-! ## Permissions -/

theorem requested_segmentFlags (program : ElfProgram) :
    requestedEntry frame (segmentFlags program) =
      ⟨frame, program.isWritable, program.isExecutable⟩ := by
  simp only [segmentFlags]
  cases program.isWritable <;> cases program.isExecutable <;> rfl

/-- The record says of each permission whether some segment asked for it. -/
theorem requested_recordedFlags (history : List ElfProgram) :
    requestedEntry frame (recordedFlags history) =
      ⟨frame, history.any isWritable, history.any isExecutable⟩ := by
  have hor : ∀ x y m : Word, ((x ||| y) &&& m != 0) = ((x &&& m != 0) || (y &&& m != 0)) := by
    intro x y m
    rw [BitVec.and_or_distrib_right, Bool.eq_iff_iff, Bool.or_eq_true, bne_iff_ne, bne_iff_ne,
      bne_iff_ne, Ne, ← not_and_or]
    exact not_congr BitVec.or_eq_zero_iff
  induction history using List.reverseRecOn with
  | nil => rfl
  | append_singleton history program ih =>
    have hlast := requested_segmentFlags frame program
    simp only [requestedEntry, PageEntry.mk.injEq, true_and] at ih hlast ⊢
    simp only [recordedFlags_concat, hor, ih, hlast, any_append, any_cons, any_nil,
      Bool.or_false, and_self]

/-- The last segment that asks for writing or executing. -/
def lastFlagged (history : List ElfProgram) : Option ElfProgram :=
  (history.filter fun program => decide (isFlagged program)).getLast?

theorem liveFlags_eq (history : List ElfProgram) :
    liveFlags history = ((lastFlagged history).map segmentFlags).getD addressSpaceUser := by
  induction history using List.reverseRecOn with
  | nil => rfl
  | append_singleton history program ih =>
    rw [liveFlags_concat, lastFlagged, filter_append]
    by_cases h : isFlagged program
    · have hone : [program].filter (fun program => decide (isFlagged program)) = [program] :=
        filter_cons_of_pos (decide_eq_true h)
      rw [if_pos h, hone, getLast?_concat, Option.map_some, Option.getD_some]
    · have hnone : [program].filter (fun program => decide (isFlagged program)) = [] :=
        filter_cons_of_neg (by rwa [decide_eq_true_eq])
      rw [if_neg h, hnone, append_nil, ih, lastFlagged]

/-- The last segment that asks for a permission asks for all that any of them asks for. -/
def LastGrantsAll (history : List ElfProgram) : Prop :=
  ∀ last, lastFlagged history = some last → ∀ program ∈ history,
    (program.isWritable = true → last.isWritable = true) ∧
    (program.isExecutable = true → last.isExecutable = true)

theorem lastFlagged_mem {history : List ElfProgram} {last : ElfProgram}
    (h : lastFlagged history = some last) : last ∈ history :=
  mem_of_mem_filter (mem_of_getLast? h)

theorem lastFlagged_eq_none {history : List ElfProgram} (h : lastFlagged history = none)
    (hprogram : program ∈ history) : program.isWritable = false ∧ program.isExecutable = false := by
  have hnil := filter_eq_nil_iff.mp (getLast?_eq_none_iff.mp h) program hprogram
  rw [decide_eq_true_eq, isFlagged_iff, not_or] at hnil
  exact ⟨Bool.eq_false_iff.mpr hnil.1, Bool.eq_false_iff.mpr hnil.2⟩

theorem eq_any_iff {flag : ElfProgram → Bool} {history : List ElfProgram} {last : ElfProgram}
    (hlast : last ∈ history) :
    flag last = history.any flag ↔ ∀ program ∈ history, flag program = true → flag last = true := by
  rw [Bool.eq_iff_iff, any_eq_true]
  exact ⟨fun h program hprogram hflag => h.mpr ⟨program, hprogram, hflag⟩, fun h =>
    ⟨fun hflag => ⟨last, hlast, hflag⟩, fun ⟨program, hprogram, hflag⟩ => h program hprogram hflag⟩⟩

theorem live_eq_recorded_iff (history : List ElfProgram) :
    requestedEntry frame (liveFlags history) = requestedEntry frame (recordedFlags history) ↔
      LastGrantsAll history := by
  rw [requested_recordedFlags, liveFlags_eq]
  cases hlast : lastFlagged history with
  | none =>
    refine iff_of_true ?_ fun last h => absurd (hlast.symm.trans h) (Option.some_ne_none last).symm
    have hwritable : history.any isWritable = false :=
      any_eq_false.mpr fun program hprogram =>
        Bool.eq_false_iff.mp (lastFlagged_eq_none hlast hprogram).1
    have hexecutable : history.any isExecutable = false :=
      any_eq_false.mpr fun program hprogram =>
        Bool.eq_false_iff.mp (lastFlagged_eq_none hlast hprogram).2
    rw [hwritable, hexecutable]
    rfl
  | some last =>
    have hmem := lastFlagged_mem hlast
    rw [Option.map_some, Option.getD_some, requested_segmentFlags]
    simp only [PageEntry.mk.injEq, true_and, eq_any_iff hmem, LastGrantsAll, hlast,
      Option.some.injEq, forall_eq']
    exact forall₂_and.symm

theorem lastGrantsAll_of_single {history : List ElfProgram} (h : history.length ≤ 1) :
    LastGrantsAll history := by
  intro last hlast program hprogram
  have hmem := lastFlagged_mem hlast
  have hsame : program = last := by
    obtain ⟨a, rfl⟩ := length_eq_one_iff.mp (Nat.le_antisymm h (length_pos_of_mem hmem))
    rw [mem_singleton.mp hmem, mem_singleton.mp hprogram]
  rw [hsame]
  exact ⟨id, id⟩

/-- The page has the permissions of the segments that cover it, in the page table and in the record. -/
structure Permitted (image : Bytes) (page : LoadedPage) (entry : PageEntry) : Prop where
  writable : entry.writable = true ↔
    ∃ program ∈ coveringSegments image page.virtualPage, program.isWritable = true
  executable : entry.executable = true ↔
    ∃ program ∈ coveringSegments image page.virtualPage, program.isExecutable = true
  recorded : requestedEntry page.frame page.flags = entry

/-- Of every image that is accepted: the pages have the permissions of the segments that cover them,
and the record of the image says the same as the page table, exactly if on every page the last segment
that asks for a permission asks for all of them. -/
theorem userImageLoad_permitted_iff (h₀ : SpaceInv s₀) (hr₀ : Records s₀)
    (h : userImageLoad s₀ image imageSize = (some loaded, s')) :
    (∀ page ∈ loaded.pages, ∃ entry, s'.pageMap.pages page.virtualPage = some entry ∧
      Permitted image page entry) ↔
    ∀ v, LastGrantsAll (coveringSegments image v) := by
  rcases userImageLoad_spec h₀ hr₀ image imageSize with ⟨_, heq, -⟩ | ⟨_, _, heq, -, hloaded⟩
  · cases heq.symm.trans h
  cases heq.symm.trans h
  have hlive := hloaded.pages.live
  have hrecorded := hloaded.pages.recorded
  have hpages := hloaded.pages.pages
  simp only [hloaded.history] at hlive hrecorded hpages
  have hpage : ∀ page ∈ loaded.pages, (∃ entry, s'.pageMap.pages page.virtualPage = some entry ∧
      Permitted image page entry) ↔ LastGrantsAll (coveringSegments image page.virtualPage) := by
    intro page hpage
    rw [← live_eq_recorded_iff page.frame, hlive page hpage]
    constructor
    · rintro ⟨entry, hentry, hpermitted⟩
      rw [Option.some_inj.mp hentry, ← hpermitted.recorded, hrecorded page hpage]
    · refine fun hsame => ⟨_, rfl, ?_, ?_, ?_⟩
      · rw [hsame, requested_recordedFlags, any_eq_true]
      · rw [hsame, requested_recordedFlags, any_eq_true]
      · rw [hsame, hrecorded page hpage]
  constructor
  · intro hall v
    by_cases hempty : coveringSegments image v = []
    · intro last hlast
      rw [hempty] at hlast
      cases hlast
    · obtain ⟨page, hmem, rfl⟩ := mem_map.mp ((hpages v).mpr hempty)
      exact (hpage page hmem).mp (hall page hmem)
  · exact fun hall page hmem => (hpage page hmem).mpr (hall page.virtualPage)

/-! ## Contents -/

/-- The address lies in the segment. -/
def InMemory (program : ElfProgram) (address : Nat) : Prop :=
  program.first ≤ address ∧ address < program.memoryEnd

/-- No address lies in two of the segments to be loaded. -/
def SegmentsApart (image : Bytes) : Prop :=
  ((Elf.programs image).filter ElfProgram.isLoad).Pairwise fun a b =>
    ∀ address, ¬(InMemory a address ∧ InMemory b address)

theorem loadedByte_of_apart {history : List ElfProgram}
    (hapart : history.Pairwise fun a b => ¬(InFile a address ∧ InFile b address))
    (hprogram : program ∈ history) (hin : InFile program address) :
    loadedByte image history address = image (program.offset.toNat + (address - program.first)) := by
  induction history using List.reverseRecOn with
  | nil => cases hprogram
  | append_singleton history last ih =>
    rw [pairwise_append] at hapart
    rw [loadedByte_concat]
    rcases mem_append.mp hprogram with hmem | hmem
    · rw [if_neg fun hlast => hapart.2.2 program hmem last mem_cons_self ⟨hin, hlast⟩]
      exact ih hapart.1 hmem
    · rw [mem_singleton.mp hmem] at hin ⊢
      rw [if_pos hin]

theorem loadedByte_of_none {history : List ElfProgram}
    (h : ∀ program ∈ history, ¬InFile program address) : loadedByte image history address = 0 := by
  induction history using List.reverseRecOn with
  | nil => rfl
  | append_singleton history last ih =>
    rw [forall_mem_append] at h
    rw [loadedByte_concat, if_neg (h.2 last mem_cons_self)]
    exact ih h.1

/-- The byte at an address of the image: the file's where a segment has it, and zero elsewhere. -/
structure IsImageByte (image : Bytes) (address : Nat) (byte : BitVec 8) : Prop where
  file : ∀ program ∈ Elf.programs image, program.isLoad = true → InFile program address →
    byte = image (program.offset.toNat + (address - program.first))
  zero : (∀ program ∈ Elf.programs image, program.isLoad = true → ¬InFile program address) → byte = 0

theorem Accepted.covers (h : Accepted program) (hin : InFile program address) :
    Covers program (address / 0x1000 * 0x1000) := by
  obtain ⟨hfirst, hend⟩ := hin
  have hfile := h.file
  exact ⟨by omega, by omega, by omega⟩

theorem LoadedSegments.imageByte {b : Bool} {l : Loading}
    (h : LoadedSegments image imageSize s₀ (Elf.programs image) b l) (hapart : SegmentsApart image)
    (address : Nat) :
    IsImageByte image address
      (loadedByte image (coveringSegments image (address / 0x1000 * 0x1000)) address) := by
  have hcovering : (coveringSegments image (address / 0x1000 * 0x1000)).Sublist
      ((Elf.programs image).filter isLoad) :=
    monotone_filter_right _ fun program h => (Bool.and_eq_true_iff.mp h).1
  refine ⟨fun program hprogram hload hin => ?_, fun hnone => ?_⟩
  · have haccepted := accepted_of_check (h.accepted program hprogram hload)
    refine loadedByte_of_apart ((hapart.sublist hcovering).imp_of_mem ?_) ?_ hin
    · intro a c ha hc hdisjoint hboth
      have hmemory : ∀ q ∈ coveringSegments image (address / 0x1000 * 0x1000),
          InFile q address → InMemory q address := by
        intro q hq hfile
        obtain ⟨hq, hqload⟩ := mem_filter.mp (hcovering.subset hq)
        exact ⟨hfile.1, Nat.lt_of_lt_of_le hfile.2 (accepted_of_check (h.accepted q hq hqload)).file⟩
      exact hdisjoint address ⟨hmemory a ha hboth.1, hmemory c hc hboth.2⟩
    · refine mem_filter.mpr ⟨hprogram, ?_⟩
      rw [hload, decide_eq_true (haccepted.covers hin)]
      rfl
  · refine loadedByte_of_none fun program hprogram => ?_
    obtain ⟨hmem, hload⟩ := mem_filter.mp (hcovering.subset hprogram)
    exact hnone program hmem hload

theorem inMemory_of_holdsEntry {entry : Word} (h : holdsEntry entry program = true) :
    program.isExecutable = true ∧ InMemory program entry.toNat := by
  simp only [holdsEntry, Bool.and_eq_true, decide_eq_true_eq, ge_iff_le, BitVec.le_def,
    BitVec.lt_def] at h
  obtain ⟨⟨hle, hlt⟩, hexecutable⟩ := h
  rw [BitVec.toNat_sub_of_le (BitVec.le_def.mpr hle)] at hlt
  refine ⟨hexecutable, hle, ?_⟩
  rw [memoryEnd, first]
  omega

/-- Into every new space: an image that is accepted lies there byte for byte, if its segments do not
overlap, with its entry in an executable one; one that is refused leaves the map of the space and the
allocated frames as they were. -/
theorem userImageLoad_contents {p : Physical} (hp : FrameInv p) {pdpt : Page} {space : AddressSpace}
    (hcreate : addressSpaceCreate pdpt ⟨p, space⟩ = (true, s₀)) (image : Bytes) (imageSize : Word) :
    (∀ loaded s', userImageLoad s₀ image imageSize = (some loaded, s') →
      (SegmentsApart image → ∀ address entry,
        s'.pageMap.pages (address / 0x1000 * 0x1000) = some entry →
        IsImageByte image address ((s'.physical.memory entry.frame).bytes (address % 0x1000))) ∧
      ∃ program ∈ Elf.programs image, program.isLoad = true ∧ program.isExecutable = true ∧
        InMemory program loaded.entry.toNat) ∧
    ∀ s', userImageLoad s₀ image imageSize = (none, s') →
      s'.pageMap = s₀.pageMap ∧ ∀ a, Held s'.physical a ↔ Held s₀.physical a := by
  have hnew := created_of_create hp hcreate
  obtain ⟨h₀, hr₀⟩ := hnew.sound
  rcases userImageLoad_spec h₀ hr₀ image imageSize with
    ⟨s', heq, hsame⟩ | ⟨loaded, s', heq, hentry, hloaded⟩
  · refine ⟨fun loaded s' h => ?_, fun s' h => ?_⟩
    · cases heq.symm.trans h
    · cases heq.symm.trans h
      exact ⟨hsame.pageMap, hsame.held⟩
  refine ⟨fun _ _ h => ?_, fun _ h => ?_⟩
  · cases heq.symm.trans h
    refine ⟨fun hapart address entry hmapped => ?_, ?_⟩
    · have hv : pageAccepted (address / 0x1000 * 0x1000) = true := by
        by_contra hrefused
        rw [pageMap_refused _ (Bool.eq_false_iff.mpr hrefused)] at hmapped
        cases hmapped
      -- a mapped page of a new space is one of the image
      have hmem : address / 0x1000 * 0x1000 ∈ loaded.pages.map LoadedPage.virtualPage := by
        by_contra hnot
        rw [← gainedPages_fst] at hnot
        have hpage := hloaded.pages.gained.page_eq hv hnot
        rw [pageMap_pages _ hv, hpage, SpaceState.page,
          hnew.empty _ _ (UserSlot.of_last (pathOf_inTree hv) rfl)] at hmapped
        cases hmapped
      obtain ⟨page, hpage, hkey⟩ := mem_map.mp hmem
      have hlive := hloaded.pages.live page hpage
      have hcontents := hloaded.pages.contents page hpage (address % 0x1000)
        (Nat.mod_lt _ (by decide))
      simp only at hlive hcontents
      rw [hkey] at hlive hcontents
      have hframe : entry.frame = page.frame := by
        cases hmapped.symm.trans hlive
        rfl
      have haddress : address / 0x1000 * 0x1000 + address % 0x1000 = address :=
        Nat.div_add_mod' address 0x1000
      rw [hframe, hcontents, hloaded.history, haddress]
      exact hloaded.imageByte hapart address
    · obtain ⟨program, hprogram, hholds⟩ := any_eq_true.mp hloaded.entry.symm
      rw [Bool.and_eq_true] at hholds
      obtain ⟨hexecutable, hin⟩ := inMemory_of_holdsEntry hholds.2
      rw [hentry]
      exact ⟨program, hprogram, hholds.1, hexecutable, hin⟩
  · cases heq.symm.trans h

/-! ## Two small images -/

/-- The header of a file with its entry at the lowest user address and two program headers behind
it. -/
def sampleHeader : List Bytes.Field :=
  [⟨0, 4, 0x464c457f⟩, ⟨4, 1, 2⟩, ⟨5, 1, 1⟩, ⟨16, 2, 2⟩, ⟨18, 2, 62⟩, ⟨24, 8, 2 ^ 39⟩, ⟨32, 8, 64⟩,
    ⟨52, 2, 64⟩, ⟨54, 2, 56⟩, ⟨56, 2, 2⟩]

/-- A segment of sixteen bytes, all of them in the file. -/
def sampleSegment (start flags address : Nat) : List Bytes.Field :=
  [⟨start, 4, 1⟩, ⟨start + 4, 4, flags⟩, ⟨start + 8, 8, 176⟩, ⟨start + 16, 8, address⟩,
    ⟨start + 32, 8, 16⟩, ⟨start + 40, 8, 16⟩]

/-- Code at the lowest user address and data at another. -/
def sampleImage (data : Nat) : Bytes :=
  .ofFields (sampleHeader ++ sampleSegment 64 1 (2 ^ 39) ++ sampleSegment 120 2 data)

/-- A program header of the sample. -/
def sampleProgram (flags address : Nat) : ElfProgram where
  type := 1
  flags := BitVec.ofNat 32 flags
  offset := 176
  virtualAddress := BitVec.ofNat 64 address
  fileSize := 16
  memorySize := 16
  alignment := 0

/-- Code and data share a page. -/
def sharedImage : Bytes := sampleImage (2 ^ 39 + 0x800)

/-- Data has a page of its own. -/
def separateImage : Bytes := sampleImage (2 ^ 39 + 0x1000)

theorem sharedImage_programs : Elf.programs sharedImage =
    [sampleProgram 1 (2 ^ 39), sampleProgram 2 (2 ^ 39 + 0x800)] := by decide +kernel

theorem separateImage_programs : Elf.programs separateImage =
    [sampleProgram 1 (2 ^ 39), sampleProgram 2 (2 ^ 39 + 0x1000)] := by decide +kernel

theorem loads_of_isSome (image : Bytes) (h : (userImageLoad roomySpace image 192).1.isSome = true) :
    ∃ loaded s', userImageLoad roomySpace image 192 = (some loaded, s') := by
  obtain ⟨loaded, hloaded⟩ := Option.isSome_iff_exists.mp h
  exact ⟨loaded, _, Prod.ext hloaded rfl⟩

/-- Data behind code in one page takes the permission to execute away, and the record keeps it. -/
theorem sharedImage_not_permitted : ∃ loaded s',
    userImageLoad roomySpace sharedImage 192 = (some loaded, s') ∧ ∃ page ∈ loaded.pages, ∃ entry,
      s'.pageMap.pages page.virtualPage = some entry ∧ ¬Permitted sharedImage page entry := by
  have hpages : (userImageLoad roomySpace sharedImage 192).1.map (fun loaded =>
      loaded.pages.map fun page => (page.virtualPage, page.flags)) = some [(2 ^ 39, 14)] := by
    decide +kernel
  have hlive : ((userImageLoad roomySpace sharedImage 192).2.pageMap.pages (2 ^ 39)).map
      PageEntry.executable = some false := by decide +kernel
  generalize userImageLoad roomySpace sharedImage 192 = result at hpages hlive ⊢
  obtain ⟨answer, s'⟩ := result
  obtain ⟨loaded, rfl, hone⟩ := Option.map_eq_some_iff.mp hpages
  obtain ⟨entry, hentry, hexecutable⟩ := Option.map_eq_some_iff.mp hlive
  obtain ⟨page, hpage, hrecord⟩ := mem_map.mp (hone ▸ mem_singleton_self _)
  obtain ⟨hvirtual, hflags⟩ := Prod.mk.inj hrecord
  refine ⟨loaded, s', rfl, page, hpage, entry, hvirtual ▸ hentry, fun hpermitted => ?_⟩
  have hrecorded := congrArg PageEntry.executable hpermitted.recorded
  rw [hexecutable, hflags] at hrecorded
  change ((14 : Word) &&& addressSpaceExecutable != 0) = false at hrecorded
  exact absurd hrecorded (by decide)

/-- With a page for each, the permissions are those of the segments. -/
theorem separateImage_permitted : ∃ loaded s',
    userImageLoad roomySpace separateImage 192 = (some loaded, s') ∧ ∀ page ∈ loaded.pages, ∃ entry,
      s'.pageMap.pages page.virtualPage = some entry ∧ Permitted separateImage page entry := by
  have hsound : Sound roomySpace := (created_of_create roomyPhysical_inv roomySpace_created).sound
  obtain ⟨loaded, s', hload⟩ := loads_of_isSome separateImage (by decide +kernel)
  refine ⟨loaded, s', hload, (userImageLoad_permitted_iff hsound.inv hsound.records hload).mpr ?_⟩
  refine fun v => lastGrantsAll_of_single ?_
  have hone : ¬(Covers (sampleProgram 1 (2 ^ 39)) v ∧ Covers (sampleProgram 2 (2 ^ 39 + 0x1000)) v) := by
    rintro ⟨⟨-, -, hcode⟩, -, hdata, -⟩
    have hend : (sampleProgram 1 (2 ^ 39)).memoryEnd = 2 ^ 39 + 16 := by decide
    have hfirst : (sampleProgram 2 (2 ^ 39 + 0x1000)).first = 2 ^ 39 + 0x1000 := by decide
    omega
  rw [coveringSegments, separateImage_programs, filter_cons, filter_cons, filter_nil]
  split_ifs with hcode hdata
  · rw [Bool.and_eq_true, decide_eq_true_eq] at hcode hdata
    exact absurd ⟨hcode.2, hdata.2⟩ hone
  all_goals simp

theorem sharedImage_contents : ∃ loaded s',
    userImageLoad roomySpace sharedImage 192 = (some loaded, s') ∧ ∀ address entry,
      s'.pageMap.pages (address / 0x1000 * 0x1000) = some entry →
      IsImageByte sharedImage address ((s'.physical.memory entry.frame).bytes (address % 0x1000)) := by
  obtain ⟨loaded, s', hload⟩ := loads_of_isSome sharedImage (by decide +kernel)
  refine ⟨loaded, s', hload, ((userImageLoad_contents roomyPhysical_inv roomySpace_created sharedImage
    192).1 loaded s' hload).1 ?_⟩
  have hcode : (sampleProgram 1 (2 ^ 39)).memoryEnd = 2 ^ 39 + 16 := by decide
  have hdata : (sampleProgram 2 (2 ^ 39 + 0x800)).first = 2 ^ 39 + 0x800 := by decide
  rw [SegmentsApart, sharedImage_programs]
  refine pairwise_pair.mpr fun address hboth => ?_
  have := hboth.1.2
  have := hboth.2.1
  omega

end KernelBoot.Process
