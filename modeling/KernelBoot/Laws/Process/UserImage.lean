import KernelBoot.Laws.Mm.PageMap
import KernelBoot.Process.UserImage

/-!
# Loading a user image

What the loader does to a page depends only on the segments that were loaded into it, in their order:
the recorded flags collect those of all of them, the flags in the page table are those of the last one
that asked for more than reading, and each byte comes from the last one that has it in its file part.
`LoadedImage` says so of every page at every moment; a failed load ends with the pages given back.
-/

namespace KernelBoot.Process

open Lib Lib.Attempt Mm List Function

variable {frame : Word} {page : LoadedPage} {index : Nat}
variable {memory : Word → Page} {state : SpaceState}

/-! ## What a page is made of -/

/-- The address lies in the part of the segment that the file has. -/
def InFile (program : ElfProgram) (address : Nat) : Prop :=
  program.first ≤ address ∧ address < program.fileEnd

instance (program : ElfProgram) (address : Nat) : Decidable (InFile program address) :=
  inferInstanceAs (Decidable (_ ∧ _))

/-- `page_flags` of a page after these segments. -/
def recordedFlags (history : List ElfProgram) : Word :=
  history.foldl (fun flags program => flags ||| segmentFlags program) 0

/-- The flags in the page table after these segments. -/
def liveFlags (history : List ElfProgram) : Word :=
  history.foldl (fun flags program => if isFlagged program then segmentFlags program else flags)
    addressSpaceUser

/-- The byte at an address after these segments. -/
def loadedByte (image : Bytes) (history : List ElfProgram) (address : Nat) : BitVec 8 :=
  history.foldl (fun byte program =>
    if InFile program address then image (program.offset.toNat + (address - program.first))
    else byte) 0

section Concat

variable (history : List ElfProgram) (program : ElfProgram)

theorem recordedFlags_concat :
    recordedFlags (history ++ [program]) = recordedFlags history ||| segmentFlags program :=
  foldl_concat _ _ _ _

theorem liveFlags_concat : liveFlags (history ++ [program]) =
    if isFlagged program then segmentFlags program else liveFlags history :=
  foldl_concat _ _ _ _

theorem loadedByte_concat (image : Bytes) (address : Nat) :
    loadedByte image (history ++ [program]) address =
      if InFile program address then image (program.offset.toNat + (address - program.first))
      else loadedByte image history address :=
  foldl_concat _ _ _ _

end Concat

theorem isFlagged_iff (program : ElfProgram) :
    isFlagged program ↔ program.isWritable = true ∨ program.isExecutable = true := by
  rw [isFlagged, ElfProgram.isWritable, ElfProgram.isExecutable, bne_iff_ne, bne_iff_ne,
    BitVec.and_or_distrib_left, Ne, ← not_and_or]
  exact not_congr BitVec.or_eq_zero_iff

theorem segmentFlags_of_not_flagged {program : ElfProgram} (h : ¬isFlagged program) :
    segmentFlags program = addressSpaceUser := by
  rw [isFlagged_iff, not_or] at h
  simp only [segmentFlags]
  rw [if_neg h.1, if_neg h.2]

theorem segmentFlags_user (program : ElfProgram) : (segmentFlags program &&& addressSpaceUser) ≠ 0 := by
  simp only [segmentFlags]
  split <;> split <;> decide

/-! ## The bytes of one copy -/

theorem copyFile_other {image : Bytes} {program : ElfProgram} {v : Nat} {a : Word} (h : a ≠ frame) :
    copyFile image program v frame memory a = memory a := by
  rw [copyFile]
  split
  · exact writeFrame_other h
  · rfl

theorem copyFile_bytes {image : Bytes} {program : ElfProgram} {v : Nat} {i : Nat} (hi : i < 0x1000) :
    (copyFile image program v frame memory frame).bytes i =
      if InFile program (v + i) then image (program.offset.toNat + (v + i - program.first))
      else (memory frame).bytes i := by
  rw [copyFile]
  by_cases hin : InFile program (v + i)
  · obtain ⟨hfirst, hend⟩ := id hin
    rw [if_pos hin, if_pos (by omega), writeFrame_bytes hi, Bytes.splice_of_mem (by omega),
      Bytes.window_apply]
    congr 1
    omega
  · have hout : v + i < program.first ∨ program.fileEnd ≤ v + i := by
      rw [InFile] at hin
      omega
    rw [if_neg hin]
    split
    · rw [writeFrame_bytes hi, Bytes.splice_of_not_mem (by omega)]
    · rfl

/-! ## The invariant -/

/-- The pages of the image as a gain of the space. -/
def gainedPages (pages : List LoadedPage) : List (Nat × Word) :=
  pages.map fun page => (page.virtualPage, page.frame)

/-- The history of the pages with one more segment in one of them. -/
def extend (history : Nat → List ElfProgram) (program : ElfProgram) (v : Nat) :
    Nat → List ElfProgram :=
  Function.update history v (history v ++ [program])

theorem extend_ne_nil {history : Nat → List ElfProgram} {program : ElfProgram} {v w : Nat} :
    extend history program v w ≠ [] ↔ w = v ∨ history w ≠ [] := by
  by_cases heq : w = v
  · simp [extend, heq]
  · simp [extend, heq]

/-- Every page of the image has the flags that `history` gives and the bytes that `written` gives. -/
structure LoadedImage (image : Bytes) (s₀ : SpaceState) (history written : Nat → List ElfProgram)
    (l : Loading) : Prop where
  gained : Gained s₀ l.state (gainedPages l.pages)
  pages : ∀ v, v ∈ l.pages.map LoadedPage.virtualPage ↔ history v ≠ []
  recorded : ∀ page ∈ l.pages, page.flags = recordedFlags (history page.virtualPage)
  live : ∀ page ∈ l.pages, l.state.pageMap.pages page.virtualPage =
    some (requestedEntry page.frame (liveFlags (history page.virtualPage)))
  contents : ∀ page ∈ l.pages, ∀ i < 0x1000, (l.state.physical.memory page.frame).bytes i =
    loadedByte image (written page.virtualPage) (page.virtualPage + i)

/-- The pages can be given back. -/
def Releasable (s₀ : SpaceState) (l : Loading) : Prop := Gained s₀ l.state (gainedPages l.pages)

variable {image : Bytes} {s₀ : SpaceState} {history written : Nat → List ElfProgram} {l : Loading}
  {program : ElfProgram} {v : Nat}

theorem mem_gainedPages {pages : List LoadedPage} (h : page ∈ pages) :
    (page.virtualPage, page.frame) ∈ gainedPages pages :=
  mem_map_of_mem (f := fun page => (page.virtualPage, page.frame)) h

theorem gainedPages_fst (pages : List LoadedPage) :
    (gainedPages pages).map Prod.fst = pages.map LoadedPage.virtualPage := by
  rw [gainedPages, map_map]
  rfl

theorem gainedPages_snd (pages : List LoadedPage) :
    (gainedPages pages).map Prod.snd = pages.map LoadedPage.frame := by
  rw [gainedPages, map_map]
  rfl

section

variable (h : LoadedImage image s₀ history written l)

include h

theorem LoadedImage.accepted (hpage : page ∈ l.pages) :
    pageAccepted page.virtualPage = true :=
  h.gained.accepted _ (mem_gainedPages hpage)

theorem LoadedImage.virtualPages :
    (l.pages.map LoadedPage.virtualPage).Nodup :=
  gainedPages_fst l.pages ▸ h.gained.distinct

theorem LoadedImage.frame_ne {other : LoadedPage}
    (hpage : page ∈ l.pages) (hother : other ∈ l.pages) (hne : other.virtualPage ≠ page.virtualPage) :
    other.frame ≠ page.frame := by
  intro heq
  have hframes : (l.pages.map LoadedPage.frame).Nodup := gainedPages_snd l.pages ▸ h.gained.frames
  exact hne (congrArg _ (inj_on_of_nodup_map hframes hother hpage heq))

end

/-! ## One page -/

/-- The file's bytes are copied into one of the pages. -/
theorem LoadedImage.copy (h : LoadedImage image s₀ history written l) (hpage : page ∈ l.pages)
    (program : ElfProgram) : LoadedImage image s₀ history (extend written program page.virtualPage)
      ⟨l.state.withContents (copyFile image program page.virtualPage page.frame
        l.state.physical.memory), l.pages⟩ := by
  obtain ⟨hgained, hmap⟩ := h.gained.fill (mem_gainedPages hpage) fun a ha => copyFile_other ha
  refine ⟨hgained, h.pages, h.recorded, fun q hq => ?_, fun q hq i hi => ?_⟩
  · rw [← h.live q hq, pageMap_pages _ (h.accepted hq), pageMap_pages _ (h.accepted hq),
      hmap _ (h.accepted hq)]
  · by_cases heq : q.virtualPage = page.virtualPage
    · have hsame : q = page := inj_on_of_nodup_map h.virtualPages hq hpage heq
      subst hsame
      rw [extend, Function.update_self, loadedByte_concat, ← h.contents q hq i hi]
      exact copyFile_bytes hi
    · rw [extend, update_of_ne heq, ← h.contents q hq i hi]
      exact congrArg (fun page => Page.bytes page i) (copyFile_other (h.frame_ne hpage hq heq))

theorem findIdx?_key {α : Type} {key : α → Nat} {list : List α}
    (h : list.findIdx? (fun a => key a == v) = some index) :
    ∃ a, list[index]? = some a ∧ key a = v := by
  obtain ⟨hlt, hkey, -⟩ := findIdx?_eq_some_iff_getElem.mp h
  exact ⟨_, getElem?_eq_getElem hlt, beq_iff_eq.mp hkey⟩

/-- With distinct keys, changing the element at an index is changing the one with its key. -/
theorem modify_eq_map {α : Type} {key : α → Nat} (f : α → α) {list : List α}
    (hnodup : (list.map key).Nodup) (h : list.findIdx? (fun a => key a == v) = some index) :
    list.modify index f = list.map fun a => if key a = v then f a else a := by
  obtain ⟨b, hb, hkey⟩ := findIdx?_key h
  refine ext_getElem? fun i => ?_
  rw [getElem?_modify, getElem?_map]
  cases ha : list[i]? with
  | none => rfl
  | some a =>
    have hat : index = i ↔ key a = v := by
      constructor
      · rintro rfl
        exact Option.some.inj (hb.symm.trans ha) ▸ hkey
      · intro heq
        have hlt : index < (list.map key).length := by
          rw [length_map]
          exact (List.getElem?_eq_some_iff.mp hb).1
        refine (getElem?_inj hlt hnodup).mp ?_
        rw [getElem?_map, getElem?_map, hb, ha, Option.map_some, Option.map_some, hkey, heq]
    simp only [Option.map_eq_map, Option.map_some, hat]

/-- The flags of a page that an earlier segment brought are collected. -/
def addFlags (program : ElfProgram) (v : Nat) (page : LoadedPage) : LoadedPage :=
  if page.virtualPage = v then { page with flags := page.flags ||| segmentFlags program } else page

theorem addFlags_virtualPage (program : ElfProgram) (v : Nat) (page : LoadedPage) :
    (addFlags program v page).virtualPage = page.virtualPage := by
  rw [addFlags]
  split <;> rfl

theorem addFlags_frame (program : ElfProgram) (v : Nat) (page : LoadedPage) :
    (addFlags program v page).frame = page.frame := by
  rw [addFlags]
  split <;> rfl

theorem gainedPages_addFlags (program : ElfProgram) (v : Nat) (pages : List LoadedPage) :
    gainedPages (pages.map (addFlags program v)) = gainedPages pages := by
  rw [gainedPages, map_map]
  refine map_congr_left fun page _ => ?_
  rw [comp_apply, addFlags_virtualPage, addFlags_frame]

/-- The page table of a space whose page `v` was given the permissions of one more segment. -/
def Shared (l : Loading) (history : Nat → List ElfProgram) (program : ElfProgram) (v : Nat)
    (state : SpaceState) : Prop :=
  ∀ page ∈ l.pages, state.pageMap.pages page.virtualPage =
    some (requestedEntry page.frame (liveFlags (extend history program v page.virtualPage)))

theorem LoadedImage.share (h : LoadedImage image s₀ history written l)
    (hv : v ∈ l.pages.map LoadedPage.virtualPage) (hgained : Gained s₀ state (gainedPages l.pages))
    (hshared : Shared l history program v state)
    (hmemory : ∀ page ∈ l.pages, state.physical.memory page.frame = l.state.physical.memory page.frame) :
    LoadedImage image s₀ (extend history program v) written
      ⟨state, l.pages.map (addFlags program v)⟩ := by
  refine ⟨?_, fun w => ?_, ?_, ?_, ?_⟩
  · rw [gainedPages_addFlags]
    exact hgained
  · have hpages : (l.pages.map (addFlags program v)).map LoadedPage.virtualPage =
        l.pages.map LoadedPage.virtualPage := by
      rw [map_map]
      exact map_congr_left fun page _ => addFlags_virtualPage program v page
    rw [hpages, h.pages w, extend_ne_nil]
    exact ⟨.inr, fun hor => hor.elim (fun heq => heq ▸ (h.pages v).mp hv) id⟩
  · refine forall_mem_map.mpr fun page hpage => ?_
    rw [addFlags_virtualPage, addFlags, extend]
    split
    next heq => rw [heq, Function.update_self, recordedFlags_concat, h.recorded page hpage, heq]
    next heq => rw [update_of_ne heq, h.recorded page hpage]
  · refine forall_mem_map.mpr fun page hpage => ?_
    rw [addFlags_virtualPage, addFlags_frame]
    exact hshared page hpage
  · refine forall_mem_map.mpr fun page hpage i hi => ?_
    rw [addFlags_virtualPage, addFlags_frame, ← h.contents page hpage i hi]
    exact congrArg (fun page => Page.bytes page i) (hmemory page hpage)

/-- A page is added. -/
theorem LoadedImage.add (h : LoadedImage image s₀ history history l) (hv : history v = [])
    (hback : BackedPage l.state state v frame (segmentFlags program)) :
    LoadedImage image s₀ (extend history program v) history
      ⟨state.setPage frame fun _ => 0, l.pages ++ [⟨frame, v, segmentFlags program⟩]⟩ := by
  have hzeroed := hback.setPage fun _ => 0
  have hother : ∀ page ∈ l.pages, page.virtualPage ≠ v := by
    rintro page hpage rfl
    exact (h.pages _).mp (mem_map_of_mem hpage) hv
  have hva := hback.accepted.1
  have hrecorded : recordedFlags [program] = segmentFlags program := BitVec.zero_or
  have hlive : liveFlags [program] = segmentFlags program := by
    change (if isFlagged program then segmentFlags program else addressSpaceUser) = _
    split
    · rfl
    next hnot => exact (segmentFlags_of_not_flagged hnot).symm
  refine ⟨?_, fun w => ?_, ?_, ?_, ?_⟩
  · have hgained := h.gained.push hzeroed
    rwa [gainedPages, ← map_singleton (f := fun page : LoadedPage => (page.virtualPage, page.frame))
      (a := ⟨frame, v, segmentFlags program⟩), ← map_append] at hgained
  · rw [map_append, mem_append, map_singleton, mem_singleton, extend_ne_nil, h.pages w, or_comm]
  · refine forall_mem_append.mpr ⟨fun page hpage => ?_, forall_mem_singleton.mpr ?_⟩
    · rw [extend, update_of_ne (hother page hpage)]
      exact h.recorded page hpage
    · rw [extend, Function.update_self, hv, nil_append, hrecorded]
  · refine forall_mem_append.mpr ⟨fun page hpage => ?_, forall_mem_singleton.mpr ?_⟩
    · rw [extend, update_of_ne (hother page hpage), ← h.live page hpage,
        pageMap_pages _ (h.accepted hpage), pageMap_pages _ (h.accepted hpage)]
      refine congrArg _ ((hzeroed.pages _ _ (pathOf_inTree (h.accepted hpage)) rfl).trans ?_)
      refine if_neg fun hat => hother page hpage ?_
      exact pathOf_injective (h.accepted hpage) hva hat.1 hat.2
    · rw [pageMap_pages _ hva, extend, Function.update_self, hv, nil_append, hlive,
        ← hback.accepted.decode]
      exact congrArg (Option.map decodeEntry)
        ((hzeroed.pages _ _ (pathOf_inTree hva) rfl).trans (if_pos ⟨rfl, rfl⟩))
  · refine forall_mem_append.mpr ⟨fun page hpage i hi => ?_, forall_mem_singleton.mpr ?_⟩
    · obtain ⟨hheld, howned⟩ := h.gained.frame_outside (mem_gainedPages hpage)
      rw [← h.contents page hpage i hi]
      exact congrArg (fun page => Page.bytes page i) (hzeroed.memory _ hheld howned)
    · intro i _
      have hzero : (state.setPage frame fun _ => 0).physical.memory frame = fun _ => 0 :=
        Function.update_self _ _ _
      have hbyte : Page.bytes (fun _ => 0) i = 0 := by
        rw [Page.bytes, show (0 : Word).toNat = 0 from rfl, Nat.zero_shiftRight]
        rfl
      rw [hv, hzero, hbyte, loadedByte, foldl_nil]

/-! ## The commands -/

/-- What a command that finds or makes the page of `v` leaves: the frame it answers with is the page's. -/
def PagePlaced (image : Bytes) (s₀ : SpaceState) (history : Nat → List ElfProgram) (program : ElfProgram)
    (v : Nat) (frame : Word) (l : Loading) : Prop :=
  LoadedImage image s₀ (extend history program v) history l ∧
    ∃ page ∈ l.pages, page.virtualPage = v ∧ page.frame = frame

/-- The permissions of a page of the image are updated, unless the command fails and changes
nothing. -/
theorem grantFlags_spec (h : LoadedImage image s₀ history history l) (program : ElfProgram)
    (hv : v ∈ l.pages.map LoadedPage.virtualPage) :
    grantFlags program v l = (none, l) ∨
    ∃ state, grantFlags program v l = (some (), { l with state }) ∧
      Gained s₀ state (gainedPages l.pages) ∧ Shared l history program v state ∧
      ∀ page ∈ l.pages, state.physical.memory page.frame = l.state.physical.memory page.frame := by
  rw [grantFlags]
  by_cases hflagged : isFlagged program
  · rw [if_pos hflagged, updateFlags]
    rcases updatePageFlags_spec h.gained.inv v (segmentFlags program) with
      ⟨heq, -⟩ | ⟨state, e, heq, hva, -, he, hstep, -, -, htables⟩
    · rw [heq]
      exact .inl rfl
    rw [heq]
    obtain ⟨page, hpage, rfl⟩ := mem_map.mp hv
    have hentry := h.live page hpage
    rw [pageMap_pages _ hva, he, Option.map_some, Option.some_inj] at hentry
    have hdecode : decodeEntry (updatedEntry e (segmentFlags program)) =
        requestedEntry page.frame (segmentFlags program) := by
      rw [decode_updatedEntry, hentry]
      rfl
    refine .inr ⟨state, rfl, ?_, fun q hq => ?_, fun q hq => ?_⟩
    · refine h.gained.reflag (mem_gainedPages hpage) hstep ?_ htables
      rw [hdecode]
      rfl
    · rw [hstep.pageMap hva, PageMap.set_pages, extend]
      split
      next heq' =>
        have hsame : q = page := inj_on_of_nodup_map h.virtualPages hq hpage heq'
        rw [hsame, Function.update_self, liveFlags_concat, if_pos hflagged, Option.map_some, hdecode]
      next hne => rw [update_of_ne hne, h.live q hq]
    · obtain ⟨hheld, howned⟩ := h.gained.frame_outside (mem_gainedPages hq)
      exact hstep.step.memory _ hheld howned
  · rw [if_neg hflagged]
    refine .inr ⟨l.state, rfl, h.gained, fun q hq => ?_, fun _ _ => rfl⟩
    rw [h.live q hq, extend]
    by_cases heq : q.virtualPage = v
    · rw [heq, Function.update_self, liveFlags_concat, if_neg hflagged]
    · rw [update_of_ne heq]

theorem sharePage_spec : Triple
    (fun l => LoadedImage image s₀ history history l ∧ loadedPageIndex l.pages v = some index)
    (sharePage program v index) (PagePlaced image s₀ history program v) (Releasable s₀) := by
  rintro l ⟨h, hindex⟩
  obtain ⟨page, hpage, hkey⟩ := findIdx?_key hindex
  have hmem : page ∈ l.pages := mem_of_getElem? hpage
  have hv : v ∈ l.pages.map LoadedPage.virtualPage := hkey ▸ mem_map_of_mem hmem
  rcases grantFlags_spec h program hv with heq | ⟨state, heq, hgained, hshared, hmemory⟩
  · exact Triple.at_none (bind_of_none heq) h.gained
  have hmodify : l.pages.modify index (fun page =>
      { page with flags := page.flags ||| segmentFlags program }) =
      l.pages.map (addFlags program v) := modify_eq_map _ h.virtualPages hindex
  refine Triple.at_some (a := page.frame) (t := ⟨state, l.pages.map (addFlags program v)⟩)
    ((bind_of_some heq).trans ?_) ⟨h.share hv hgained hshared hmemory, addFlags program v page,
      mem_map_of_mem hmem, ?_, addFlags_frame program v page⟩
  · rw [change_bind_apply, hmodify, look_bind_apply, getElem?_map, hpage, Option.map_some,
      Option.map_some, addFlags_frame]
    rfl
  · rw [addFlags_virtualPage, hkey]

theorem backPage_outcome (h : Releasable s₀ l) (v : Nat) (program : ElfProgram) :
    (∃ l', backPage v (segmentFlags program) l = (none, l') ∧ Releasable s₀ l') ∨
    ∃ frame state, backPage v (segmentFlags program) l = (some frame, { l with state }) ∧
      BackedPage l.state state v frame (segmentFlags program) := by
  rw [backPage]
  rcases backPage_spec h.inv v (segmentFlags_user program) with
    ⟨state, heq, hrestored⟩ | ⟨frame, state, heq, hback⟩
  · rw [heq]
    exact .inl ⟨_, rfl, h.restored hrestored⟩
  · rw [heq]
    exact .inr ⟨frame, state, rfl, hback⟩

theorem addPage_spec (hv : history v = []) : Triple (LoadedImage image s₀ history history)
    (addPage program v) (PagePlaced image s₀ history program v) (Releasable s₀) := by
  refine Triple.look_bind fun count => Triple.check_bind (fun l h => h.1.gained) fun _ => ?_
  rintro l ⟨h, -⟩
  rcases backPage_outcome h.gained v program with ⟨l', heq, hrelease⟩ | ⟨frame, state, heq, hback⟩
  · exact Triple.at_none (bind_of_none heq) hrelease
  · refine Triple.at_some ((bind_of_some heq).trans rfl) ⟨h.add hv hback, ?_⟩
    exact ⟨_, mem_append_right _ mem_cons_self, rfl, rfl⟩

theorem loadPage_spec (history : Nat → List ElfProgram) (v : Nat) :
    Triple (LoadedImage image s₀ history history) (loadPage image program v)
      (fun _ => LoadedImage image s₀ (extend history program v) (extend history program v))
      (Releasable s₀) := by
  refine Triple.look_bind fun index => ?_
  have hcopy : ∀ frame, Triple (PagePlaced image s₀ history program v frame)
      (change fun l =>
        ⟨l.state.withContents (copyFile image program v frame l.state.physical.memory), l.pages⟩)
      (fun _ => LoadedImage image s₀ (extend history program v) (extend history program v))
      (Releasable s₀) := by
    refine fun frame => Triple.change ?_
    rintro l ⟨h, page, hpage, rfl, rfl⟩
    exact h.copy hpage program
  cases index with
  | some index => exact Triple.bind sharePage_spec hcopy
  | none =>
    rintro l ⟨h, hindex⟩
    have hv : history v = [] := by
      by_contra hne
      obtain ⟨page, hpage, hkey⟩ := mem_map.mp ((h.pages v).mpr hne)
      have hnone := findIdx?_eq_none_iff.mp hindex page hpage
      rw [beq_eq_false_iff_ne] at hnone
      exact hnone hkey
    exact Triple.bind (addPage_spec hv) hcopy l h

/-! ## The loops -/

/-- The segments of a list that were loaded into a page, in their order. -/
def historyOf (programs : List ElfProgram) (v : Nat) : List ElfProgram :=
  programs.filter fun program => program.isLoad && decide (v ∈ segmentPages program)

theorem segmentPages_nodup (program : ElfProgram) : (segmentPages program).Nodup := by
  refine List.Nodup.map (fun a b h => ?_) nodup_range
  omega

/-- The history while the pages of a segment are loaded. -/
def extendAll (history : Nat → List ElfProgram) (program : ElfProgram) (done : List Nat) :
    Nat → List ElfProgram :=
  fun v => if v ∈ done then history v ++ [program] else history v

theorem extendAll_concat {done : List Nat} (hv : v ∉ done) :
    extendAll history program (done ++ [v]) = extend (extendAll history program done) program v := by
  funext w
  simp only [extendAll, extend, mem_append, mem_singleton]
  by_cases heq : w = v
  · subst heq
    rw [if_pos (.inr rfl), Function.update_self, if_neg hv]
  · rw [update_of_ne heq]
    simp only [heq, or_false, extendAll]

theorem loadPages_spec (history : Nat → List ElfProgram) {pages : List Nat} (hnodup : pages.Nodup) :
    Triple (LoadedImage image s₀ history history) (forAll (loadPage image program) pages)
      (fun _ => LoadedImage image s₀ (extendAll history program pages)
        (extendAll history program pages)) (Releasable s₀) := by
  refine Triple.forAll (I := fun done => LoadedImage image s₀ (extendAll history program done)
    (extendAll history program done)) fun done v rest hpages => ?_
  have hv : v ∉ done := by
    rw [hpages] at hnodup
    exact fun hmem => (nodup_append.mp hnodup).2.2 v hmem v mem_cons_self rfl
  rw [extendAll_concat hv]
  exact loadPage_spec _ v

theorem historyOf_concat (programs : List ElfProgram) (program : ElfProgram) :
    historyOf (programs ++ [program]) = if program.isLoad then
      extendAll (historyOf programs) program (segmentPages program) else historyOf programs := by
  funext v
  rw [historyOf, filter_append, ← historyOf]
  cases hload : program.isLoad with
  | false => simp [hload]
  | true =>
    rw [if_pos rfl, extendAll]
    by_cases hv : v ∈ segmentPages program
    · rw [if_pos hv, filter_cons_of_pos (by rw [hload, decide_eq_true hv]; rfl), filter_nil]
    · rw [if_neg hv, filter_cons_of_neg (by rw [hload, decide_eq_false hv]; exact Bool.false_ne_true),
        filter_nil, append_nil]

/-- The state between two segments. -/
structure LoadedSegments (image : Bytes) (imageSize : Word) (s₀ : SpaceState)
    (programs : List ElfProgram) (entryLoaded : Bool) (l : Loading) : Prop where
  pages : LoadedImage image s₀ (historyOf programs) (historyOf programs) l
  entry : entryLoaded = programs.any fun program =>
    program.isLoad && holdsEntry (Elf.header image).entry program
  accepted : ∀ program ∈ programs, program.isLoad = true → segmentAccepted imageSize program = true

theorem loadSegment_spec {imageSize : Word} (programs : List ElfProgram) (entryLoaded : Bool)
    (program : ElfProgram) :
    Triple (LoadedSegments image imageSize s₀ programs entryLoaded)
      (loadSegment image imageSize entryLoaded program)
      (LoadedSegments image imageSize s₀ (programs ++ [program])) (Releasable s₀) := by
  rw [loadSegment]
  by_cases hload : program.isLoad = true
  · rw [if_pos hload]
    refine Triple.check_bind (fun l h => h.pages.gained) fun haccepted => ?_
    have hkept : ∀ l, LoadedSegments image imageSize s₀ programs entryLoaded l → ∀ l',
        LoadedImage image s₀ (historyOf (programs ++ [program])) (historyOf (programs ++ [program])) l' →
        LoadedSegments image imageSize s₀ (programs ++ [program])
          (entryLoaded || holdsEntry (Elf.header image).entry program) l' := by
      refine fun l h l' h' => ⟨h', ?_, ?_⟩
      · rw [any_append, ← h.entry, any_cons, any_nil, Bool.or_false, hload, Bool.true_and]
      · exact forall_mem_append.mpr ⟨h.accepted, forall_mem_singleton.mpr fun _ => haccepted⟩
    intro l h
    rw [historyOf_concat, if_pos hload] at hkept
    exact Triple.bind (loadPages_spec (historyOf programs) (segmentPages_nodup program))
      (fun _ => Triple.pure fun l' h' => hkept l h l' h') l h.pages
  · rw [if_neg hload]
    refine Triple.pure fun l h => ⟨?_, ?_, ?_⟩
    · rw [historyOf_concat, if_neg hload]
      exact h.pages
    · rw [any_append, ← h.entry, any_cons, any_nil, Bool.eq_false_iff.mpr hload,
        Bool.false_and, Bool.or_false, Bool.or_false]
    · exact forall_mem_append.mpr
        ⟨h.accepted, forall_mem_singleton.mpr fun h' => absurd h' hload⟩

theorem loadSegments_spec (imageSize : Word) :
    Triple (LoadedSegments image imageSize s₀ [] false) (loadSegments image imageSize)
      (fun _ => LoadedSegments image imageSize s₀ (Elf.programs image) true) (Releasable s₀) := by
  refine Triple.bind (Triple.foldAll (fun done program _ entryLoaded _ =>
    loadSegment_spec done entryLoaded program) false) fun entryLoaded => ?_
  intro l h
  by_cases hentry : entryLoaded = true
  · refine Triple.at_some (check_of_true hentry l) ?_
    exact hentry ▸ h
  · exact Triple.at_none (check_of_false hentry l) h.pages.gained

theorem loadedSegments_nil (hs : SpaceInv s₀) (imageSize : Word) :
    LoadedSegments image imageSize s₀ [] false ⟨s₀, []⟩ := by
  refine ⟨⟨Gained.refl hs, fun v => ?_, forall_mem_nil _, forall_mem_nil _, forall_mem_nil _⟩, rfl,
    forall_mem_nil _⟩
  exact iff_of_false not_mem_nil (not_not_intro rfl)

/-! ## The whole load -/

theorem releasePages_gained (h₀ : SpaceInv s₀) {pages : List LoadedPage} {s : SpaceState}
    (h : Gained s₀ s (gainedPages pages)) : Gained s₀ (releasePages pages s) [] := by
  induction pages generalizing s with
  | nil => exact h
  | cons page rest ih => exact ih (Gained.pop h₀ h)

/-- A load succeeds with the pages of all its segments, or leaves the space and the frames as they
were. -/
theorem userImageLoad_spec (h₀ : SpaceInv s₀) (hr₀ : Records s₀) (image : Bytes) (imageSize : Word) :
    (∃ s', userImageLoad s₀ image imageSize = (none, s') ∧ Unchanged s₀ s') ∨
    ∃ loaded s', userImageLoad s₀ image imageSize = (some loaded, s') ∧
      loaded.entry = (Elf.header image).entry ∧
      LoadedSegments image imageSize s₀ (Elf.programs image) true ⟨s', loaded.pages⟩ := by
  rw [userImageLoad]
  split
  · exact .inl ⟨s₀, rfl, Unchanged.refl h₀ hr₀⟩
  · obtain ⟨hsome, hnone⟩ := loadSegments_spec imageSize _ (loadedSegments_nil h₀ imageSize)
    cases hload : loadSegments image imageSize ⟨s₀, []⟩ with
    | mk answer l =>
      cases answer with
      | none =>
        have hgained : Gained s₀ l.state (gainedPages l.pages) := hnone l hload
        exact .inl ⟨_, rfl, (releasePages_gained h₀ hgained).unchanged h₀ hr₀⟩
      | some u =>
        have hloaded := hsome u l hload
        simp only
        split
        · exact .inr ⟨_, _, rfl, rfl, hloaded⟩
        next hempty =>
          refine .inl ⟨l.state, rfl, ?_⟩
          have hpages : l.pages = [] := length_eq_zero_iff.mp (not_not.mp hempty)
          have hgained := hloaded.pages.gained
          rw [hpages] at hgained
          exact Gained.unchanged h₀ hr₀ hgained

end KernelBoot.Process
