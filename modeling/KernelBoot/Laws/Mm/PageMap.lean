import KernelBoot.Laws.Mm.FrameRun
import KernelBoot.Laws.Mm.Supply
import KernelBoot.Lib.Refinement
import KernelBoot.Mm.AddressSpaceSystem

/-!
# A space is a map of pages

What a space is for: a map from pages to a frame and two permissions, together with the pages that
were mapped anonymously. `PageMap.Step` says what each call does to such a map for each answer; where
frames or tables may run out, a call may also refuse. The page tables refine it: read through
`SpaceState.pageMap`, every call is a step of the map with the same answer, and the kernel's checks
of user memory are questions about the map.
-/

namespace KernelBoot.Mm

open Lib List

variable {gone : List AnonymousFrame}
variable {va : Nat} {s s' s₀ : SpaceState} {v : Option Word} {news : List AnonymousFrame}

/-! ## The specification -/

structure PageMap where
  pages : Nat → Option PageEntry
  recorded : Multiset Nat

open PageMap

/-- The map of a new space. -/
def PageMap.empty : PageMap := ⟨fun _ => none, 0⟩

def PageMap.set (m : PageMap) (page : Nat) (entry : Option PageEntry) : PageMap :=
  { m with pages := Function.update m.pages page entry }

theorem PageMap.set_pages (m : PageMap) (page : Nat) (entry : Option PageEntry) (va : Nat) :
    (m.set page entry).pages va = if va = page then entry else m.pages va :=
  Function.update_apply m.pages page entry va

/-- Map the pages of a range, each to its frame, and record them. -/
def PageMap.add (m : PageMap) (range : List Nat) (frame : Nat → Word) (flags : Word) : PageMap where
  pages page := if page ∈ range then some (requestedEntry (frame page) flags) else m.pages page
  recorded := m.recorded + ↑range

/-- Unmap the pages of a range and drop their records. -/
def PageMap.drop (m : PageMap) (range : List Nat) : PageMap where
  pages page := if page ∈ range then none else m.pages page
  recorded := m.recorded - ↑range

/-- Change the permissions of the pages of a range. -/
def PageMap.protect (m : PageMap) (range : List Nat) (flags : Word) : PageMap :=
  { m with pages := fun page =>
      if page ∈ range then (m.pages page).map fun entry => requestedEntry entry.frame flags
      else m.pages page }

/-- The map after a call that answered `true` or `false`. A recorded page may have been unmapped
singly; then unmapping its range stops there. -/
inductive PageMap.Step : PageMap → SpaceCall → Bool → PageMap → Prop
  | mapped {m va pa flags} (accepted : MapAccepted va pa flags) (fresh : m.pages va = none) :
    Step m (.mapPage va pa flags) true (m.set va (some (requestedEntry pa flags)))
  | notMapped {m va pa flags} : Step m (.mapPage va pa flags) false m
  | unmapped {m va} (there : m.pages va ≠ none) : Step m (.unmapPage va) true (m.set va none)
  | notUnmapped {m va} (absent : m.pages va = none) : Step m (.unmapPage va) false m
  | updated {m va flags entry} (accepted : flagsAccepted pageFlags flags = true)
      (there : m.pages va = some entry) :
    Step m (.updatePageFlags va flags) true (m.set va (some (requestedEntry entry.frame flags)))
  | notUpdated {m va flags} (absent : flagsAccepted pageFlags flags = true → m.pages va = none) :
    Step m (.updatePageFlags va flags) false m
  | mappedRange {m va pages flags} (frame : Nat → Word) (accepted : userRangeAccepted va pages = true)
      (permitted : flagsAccepted rangeFlags flags = true)
      (fresh : ∀ page ∈ rangePages va pages, m.pages page = none) :
    Step m (.mapAnonymous va pages flags) true (m.add (rangePages va pages) frame flags)
  | notMappedRange {m va pages flags} : Step m (.mapAnonymous va pages flags) false m
  | droppedRange {m va pages} (accepted : rangeAccepted va pages = true)
      (recorded : ∀ page ∈ rangePages va pages, page ∈ m.recorded)
      (there : ∀ page ∈ rangePages va pages, m.pages page ≠ none) :
    Step m (.unmapAnonymous va pages) true (m.drop (rangePages va pages))
  | droppedPart {m va pages} (k : Nat) (accepted : rangeAccepted va pages = true)
      (recorded : ∀ page ∈ rangePages va pages, page ∈ m.recorded) (short : k < pages)
      (there : ∀ page ∈ rangePages va k, m.pages page ≠ none)
      (absent : m.pages (va + k * pageSize) = none) :
    Step m (.unmapAnonymous va pages) false (m.drop (rangePages va k))
  | notDroppedRange {m va pages}
      (refused : rangeAccepted va pages = true →
        ¬ ∀ page ∈ rangePages va pages, page ∈ m.recorded) :
    Step m (.unmapAnonymous va pages) false m
  | protectedRange {m va pages flags} (accepted : userRangeAccepted va pages = true)
      (permitted : flagsAccepted rangeFlags flags = true)
      (there : ∀ page ∈ rangePages va pages, m.pages page ≠ none) :
    Step m (.protectRange va pages flags) true (m.protect (rangePages va pages) flags)
  | notProtectedRange {m va pages flags}
      (refused : userRangeAccepted va pages = true → flagsAccepted rangeFlags flags = true →
        ¬ ∀ page ∈ rangePages va pages, m.pages page ≠ none) :
    Step m (.protectRange va pages flags) false m
  | others {m physical} : Step m (.others physical) true m

/-! ## The abstraction -/

/-- The map the page tables hold. -/
def SpaceState.pageMap (s : SpaceState) : PageMap where
  pages va := if pageAccepted va then (s.page va).map decodeEntry else none
  recorded := ↑(s.space.anonymousFrames.map (·.virtualAddress))

theorem PageMap.ext {m m' : PageMap} (hpages : ∀ va, m'.pages va = m.pages va)
    (hrecorded : m'.recorded = m.recorded) : m' = m := by
  cases m
  cases m'
  simp only [mk.injEq]
  exact ⟨funext hpages, hrecorded⟩

theorem pageMap_pages (s : SpaceState) (hva : pageAccepted va = true) :
    s.pageMap.pages va = (s.page va).map decodeEntry := if_pos hva

theorem pageMap_refused (s : SpaceState) (hva : pageAccepted va = false) :
    s.pageMap.pages va = none := if_neg (Bool.not_eq_true _ ▸ hva)

theorem pageMap_eq_none (h : pageAccepted va = true → s.page va = none) :
    s.pageMap.pages va = none := by
  cases hva : pageAccepted va with
  | false => exact pageMap_refused s hva
  | true => rw [pageMap_pages s hva, h hva, Option.map_none]

theorem pageMap_ne_none (hva : pageAccepted va = true) :
    s.pageMap.pages va ≠ none ↔ s.page va ≠ none := by
  rw [pageMap_pages s hva, Ne, Option.map_eq_none_iff]

/-- Two spaces hold maps that agree where the pages agree. -/
theorem pageMap_ext {m : PageMap}
    (hpages : ∀ va, pageAccepted va = true → (s.page va).map decodeEntry = m.pages va)
    (hrefused : ∀ va, pageAccepted va = false → m.pages va = none)
    (hrecorded : s.pageMap.recorded = m.recorded) : s.pageMap = m := by
  refine ext (fun va => ?_) hrecorded
  cases hva : pageAccepted va with
  | false => rw [pageMap_refused s hva, hrefused va hva]
  | true => rw [pageMap_pages s hva, hpages va hva]

theorem Unchanged.pageMap (h : Unchanged s s') : s'.pageMap = s.pageMap := by
  refine pageMap_ext (fun va hva => ?_) (fun va hva => pageMap_refused s hva) ?_
  · rw [pageMap_pages s hva, h.page hva]
  · simp only [SpaceState.pageMap, h.anonymous]

theorem PageStep.pageMap (h : PageStep s s' va v) (hva : pageAccepted va = true) :
    s'.pageMap = s.pageMap.set va (v.map decodeEntry) := by
  refine pageMap_ext (fun va' hva' => ?_) (fun va' hva' => ?_) ?_
  · rw [h.page hva hva', set_pages, pageMap_pages s hva', apply_ite (Option.map decodeEntry)]
  · have hne : va' ≠ va := by
      rintro rfl
      rw [hva] at hva'
      cases hva'
    rw [set_pages, if_neg hne, pageMap_refused s hva']
  · simp only [SpaceState.pageMap, PageMap.set, h.step.anonymous]

theorem requestedEntry_user (frame flags : Word) :
    requestedEntry frame (flags ||| addressSpaceUser) = requestedEntry frame flags := by
  unfold requestedEntry
  rw [or_and_of_left (by decide), or_and_of_left (by decide)]

theorem Added.page (h : Added s₀ s news) (hva : pageAccepted va = true)
    (hnot : va ∉ news.map (·.virtualAddress)) : s.page va = s₀.page va := by
  refine h.rest _ _ (pathOf_inTree hva) rfl fun r hr hat => hnot ?_
  rw [pathOf_injective hva (h.accepted r hr).1 hat.1 hat.2]
  exact mem_map_of_mem hr

theorem Added.pageMap {flags : Word} (h : Added s₀ s news)
    (hflags : ∀ r ∈ news, r.flags = flags ||| addressSpaceUser) :
    ∃ frame, s.pageMap = s₀.pageMap.add (news.map (·.virtualAddress)) frame flags := by
  have hentry : ∀ va, ∃ frame, va ∈ news.map (·.virtualAddress) →
      (s.page va).map decodeEntry = some (requestedEntry frame flags) := by
    intro va
    by_cases hmem : va ∈ news.map (·.virtualAddress)
    · obtain ⟨r, hr, rfl⟩ := mem_map.mp hmem
      refine ⟨r.physicalAddress, fun _ => ?_⟩
      rw [h.mapped r hr, Option.map_some, (h.accepted r hr).decode, hflags r hr, requestedEntry_user]
    · exact ⟨0, fun hin => absurd hin hmem⟩
  choose frame hframe using hentry
  refine ⟨frame, pageMap_ext (fun va hva => ?_) (fun va hva => ?_) ?_⟩
  · by_cases hmem : va ∈ news.map (·.virtualAddress)
    · exact (hframe va hmem).trans (if_pos hmem).symm
    · rw [h.page hva hmem, ← pageMap_pages s₀ hva]
      exact (if_neg hmem).symm
  · have hnot : va ∉ news.map (·.virtualAddress) := by
      intro hmem
      obtain ⟨r, hr, rfl⟩ := mem_map.mp hmem
      rw [(h.accepted r hr).1] at hva
      cases hva
    exact (if_neg hnot).trans (pageMap_refused s₀ hva)
  · simp only [SpaceState.pageMap, add, h.anonymous, map_append, Multiset.coe_add]

theorem Dropped.page (h : Dropped s s' gone) (hva : pageAccepted va = true)
    (hnot : va ∉ gone.map (·.virtualAddress)) : s'.page va = s.page va := by
  refine h.rest _ _ (pathOf_inTree hva) rfl fun r hr hat => hnot ?_
  rw [pathOf_injective hva (h.accepted r hr) hat.1 hat.2]
  exact mem_map_of_mem hr

theorem Dropped.pageMap (h : Dropped s s' gone) :
    s'.pageMap = s.pageMap.drop (gone.map (·.virtualAddress)) := by
  refine pageMap_ext (fun va hva => ?_) (fun va hva => ?_) ?_
  · by_cases hmem : va ∈ gone.map (·.virtualAddress)
    · refine Eq.trans ?_ (if_pos hmem).symm
      obtain ⟨r, hr, rfl⟩ := mem_map.mp hmem
      rw [h.cleared r hr, Option.map_none]
    · rw [h.page hva hmem, ← pageMap_pages s hva]
      exact (if_neg hmem).symm
  · exact ite_eq_left_iff.mpr fun _ => pageMap_refused s hva
  · have hrecords := Multiset.coe_eq_coe.mpr (h.anonymous.map AnonymousFrame.virtualAddress)
    rw [map_append, ← Multiset.coe_add] at hrecords
    simp only [SpaceState.pageMap, PageMap.drop]
    rw [hrecords, Multiset.add_comm, Multiset.add_sub_cancel_right]

/-- The pages an unmapping cleared were mapped. -/
theorem Dropped.there (h : Dropped s s' gone) {a : Nat} (ha : a ∈ gone.map (·.virtualAddress)) :
    s.pageMap.pages a ≠ none := by
  obtain ⟨r, hr, rfl⟩ := mem_map.mp ha
  exact (pageMap_ne_none (h.accepted r hr)).mpr (h.mapped r hr)

theorem Reflagged.pageMap {range : List Nat} {flags : Word}
    (h : Reflagged s s' range (flags ||| addressSpaceUser)) :
    s'.pageMap = s.pageMap.protect range flags := by
  refine pageMap_ext (fun va hva => ?_) (fun va hva => ?_) ?_
  · by_cases hmem : va ∈ range
    · rw [h.rewritten va hmem]
      refine Eq.trans ?_ (if_pos hmem).symm
      rw [pageMap_pages s hva]
      cases s.page va with
      | none => rfl
      | some e =>
        simp only [Option.map_some, decode_updatedEntry, requestedEntry_user]
    · rw [h.rest va hva hmem, ← pageMap_pages s hva]
      exact (if_neg hmem).symm
  · simp only [protect, pageMap_refused s hva, Option.map_none, ite_self]
  · simp only [SpaceState.pageMap, protect, h.space]

/-! ## Every call is a step of the map -/

/-- Everyone else leaves a space alone: its frames stay allocated and its tables are not written. -/
structure Spares (s : SpaceState) (p : Physical) : Prop where
  frames : FrameInv p
  tables : ∀ a ∈ s.space.ownedFrames, Held p a ∧ p.memory a = s.physical.memory a
  records : ∀ r ∈ s.space.anonymousFrames, Held p r.physicalAddress

/-- What the kernel keeps to: a page is mapped for the user, and everyone else spares the space. -/
def SpaceCall.Legal (s : SpaceState) : SpaceCall → Prop
  | .mapPage _ _ flags => (flags &&& addressSpaceUser) ≠ 0
  | .others physical => Spares s physical
  | _ => True

/-- A space between two calls. -/
structure Sound (s : SpaceState) : Prop where
  inv : SpaceInv s
  records : Records s

theorem Unchanged.sound (h : Unchanged s s') : Sound s' := ⟨h.inv, h.records⟩

theorem Sound.pageStep (h : Sound s) (hstep : PageStep s s' va v) :
    Sound s' := ⟨hstep.inv, h.records.step hstep.step⟩

/-- A new space is sound and holds the empty map. -/
theorem Created.sound (h : Created s s') : Sound s' where
  inv := h.inv
  records := by
    refine ⟨fun r hr => ?_, ?_⟩
    · rw [h.anonymous] at hr
      cases hr
    · rw [h.anonymous]
      exact nodup_nil

theorem Created.pageMap (h : Created s s') : s'.pageMap = PageMap.empty := by
  refine pageMap_ext (fun va hva => ?_) (fun _ _ => rfl) ?_
  · rw [SpaceState.page, h.empty _ _ (UserSlot.of_last (pathOf_inTree hva) rfl), Option.map_none]
    rfl
  · simp only [SpaceState.pageMap, h.anonymous, map_nil]
    rfl

theorem Spares.sound (hs : Sound s) {p : Physical} (h : Spares s p) :
    Sound { s with physical := p } ∧ SpaceState.pageMap { s with physical := p } = s.pageMap := by
  obtain ⟨hinv, _, hsame⟩ := hs.inv.of_memory { s with physical := p } rfl rfl
    (fun a ha => (h.tables a ha).2) h.frames (fun a ha => (h.tables a ha).1)
  refine ⟨⟨hinv, fun r hr => ⟨h.records r hr, (hs.records.held r hr).2⟩, hs.records.nodup⟩, ?_⟩
  refine pageMap_ext (fun va hva => ?_) (fun va hva => pageMap_refused s hva) rfl
  rw [pageMap_pages s hva, SpaceState.page, (hsame _ (pathOf_inTree hva)).2, SpaceState.page]

/-- What a call leaves is sound, and a step of the map with the same answer. -/
def Refined (s : SpaceState) (call : SpaceCall) (result : Bool × SpaceState) : Prop :=
  Sound result.2 ∧ PageMap.Step s.pageMap call result.1 result.2.pageMap

section Steps

variable {s : SpaceState} (h : Sound s)

include h

theorem mapPage_refines (va : Nat) (pa : Word) {flags : Word}
    (huser : (flags &&& addressSpaceUser) ≠ 0) :
    Refined s (.mapPage va pa flags) (addressSpaceMapPage s va pa flags) := by
  rcases mapPage_spec h.inv va pa huser with
    ⟨s', heq, hrest⟩ | ⟨s', heq, haccepted, hnone, hstep, _⟩
  · have hsame := hrest.unchanged h.inv h.records
    rw [heq, Refined, hsame.pageMap]
    exact ⟨hsame.sound, .notMapped⟩
  · rw [heq, Refined, hstep.pageMap haccepted.1, Option.map_some, haccepted.decode]
    exact ⟨h.pageStep hstep, .mapped haccepted (pageMap_eq_none fun _ => hnone)⟩

theorem unmapPage_refines (va : Nat) :
    Refined s (.unmapPage va) (addressSpaceUnmapPage s va) := by
  rcases unmapPage_spec h.inv va with ⟨heq, hnone⟩ | ⟨s', heq, hva, hthere, hstep, _⟩
  · rw [heq]
    exact ⟨h, .notUnmapped (pageMap_eq_none hnone)⟩
  · rw [heq, Refined, hstep.pageMap hva, Option.map_none]
    exact ⟨h.pageStep hstep, .unmapped ((pageMap_ne_none hva).mpr hthere)⟩

theorem updatePageFlags_refines (va : Nat) (flags : Word) :
    Refined s (.updatePageFlags va flags) (addressSpaceUpdatePageFlags s va flags) := by
  rcases updatePageFlags_spec h.inv va flags with
    ⟨heq, hnone⟩ | ⟨s', e, heq, hva, hflags, hpage, hstep, _⟩
  · rw [heq]
    exact ⟨h, .notUpdated fun hflags => pageMap_eq_none fun hva => hnone hva hflags⟩
  · rw [heq, Refined, hstep.pageMap hva, Option.map_some, decode_updatedEntry]
    refine ⟨h.pageStep hstep, .updated hflags ?_⟩
    rw [pageMap_pages s hva, hpage, Option.map_some]

theorem mapAnonymous_refines (va n : Nat) (flags : Word) :
    Refined s (.mapAnonymous va n flags) (addressSpaceMapAnonymous s va n flags) := by
  rcases mapAnonymous_spec h.inv h.records va n flags with
    ⟨s', heq, hsame⟩ | ⟨s', news, heq, hrange, hpermitted, hadded, hnews, hflags⟩
  · rw [heq, Refined, hsame.pageMap]
    exact ⟨hsame.sound, .notMappedRange⟩
  · obtain ⟨frame, hmap⟩ := hadded.pageMap hflags
    rw [heq, Refined, hmap, hnews]
    refine ⟨⟨hadded.inv, hadded.records⟩, .mappedRange frame hrange hpermitted fun a ha => ?_⟩
    rw [← hnews] at ha
    obtain ⟨r, hr, rfl⟩ := mem_map.mp ha
    exact pageMap_eq_none fun _ => hadded.fresh r hr

theorem unmapAnonymous_refines (va n : Nat) :
    Refined s (.unmapAnonymous va n) (addressSpaceUnmapAnonymous s va n) := by
  fun_cases addressSpaceUnmapAnonymous s va n
  next hguard =>
    refine ⟨h, .notDroppedRange fun haccepted => ?_⟩
    rw [haccepted] at hguard
    cases hguard
  next hmissing =>
    refine ⟨h, .notDroppedRange fun _ hall => ?_⟩
    rw [(allRecorded_iff s n va).mpr hall] at hmissing
    cases hmissing
  next hguard hfound =>
    have haccepted : rangeAccepted va n = true := by simpa using hguard
    have hall := (allRecorded_iff s n va).mp (by simpa using hfound)
    obtain ⟨done, s', gone, heq, hdrop, hout⟩ := unmapAnonymousPages_spec h.inv h.records hall
    rw [heq, Refined, hdrop.pageMap]
    refine ⟨⟨hdrop.inv, hdrop.records⟩, ?_⟩
    rcases hout with ⟨rfl, hgone⟩ | ⟨rfl, k, hk, hgone, hnone⟩
    · rw [hgone]
      exact .droppedRange haccepted hall fun a ha => hdrop.there (hgone ▸ ha)
    rw [hgone]
    refine .droppedPart k haccepted hall hk (fun a ha => hdrop.there (hgone ▸ ha)) ?_
    refine pageMap_eq_none fun hva => ?_
    rw [← hdrop.page hva, hnone hva]
    rw [hgone]
    intro hmem
    have hnodup := rangePages_nodup va (k + 1)
    rw [rangePages_succ] at hnodup
    exact (nodup_append.mp hnodup).2.2 _ hmem _ mem_cons_self rfl

theorem protectRange_refines (va n : Nat) (flags : Word) :
    Refined s (.protectRange va n flags) (addressSpaceProtectRange s va n flags) := by
  rcases protectRange_spec h.inv va n flags with
    ⟨heq, hrefused⟩ | ⟨s', heq, hrange, hpermitted, hthere, hre⟩
  · rw [heq]
    refine ⟨h, .notProtectedRange fun hrange hpermitted hthere => hrefused ⟨hrange, hpermitted, ?_⟩⟩
    exact fun a ha => (pageMap_ne_none (rangePages_accepted hrange ha)).mp (hthere a ha)
  · rw [heq, Refined, hre.pageMap]
    refine ⟨⟨hre.inv, h.records.step hre.step⟩, .protectedRange hrange hpermitted fun a ha => ?_⟩
    exact (pageMap_ne_none (rangePages_accepted hrange ha)).mpr (hthere a ha)

/-- The tables simulate the map. -/
theorem SpaceCall.refines (call : SpaceCall) (hlegal : call.Legal s) :
    Sound (call.effect s).2 ∧
      Step s.pageMap call (call.effect s).1 (call.effect s).2.pageMap := by
  cases call with
  | mapPage va pa flags => exact mapPage_refines h va pa hlegal
  | unmapPage va => exact unmapPage_refines h va
  | updatePageFlags va flags => exact updatePageFlags_refines h va flags
  | mapAnonymous va n flags => exact mapAnonymous_refines h va n flags
  | unmapAnonymous va n => exact unmapAnonymous_refines h va n
  | protectRange va n flags => exact protectRange_refines h va n flags
  | others physical =>
    obtain ⟨hsound, hmap⟩ := Spares.sound h hlegal
    refine ⟨hsound, ?_⟩
    change Step s.pageMap _ true (SpaceState.pageMap { s with physical := physical })
    rw [hmap]
    exact .others

end Steps

/-- A call on one page changes no other page. -/
theorem PageMap.Step.other_page {m m' : PageMap} {call : SpaceCall} {result : Bool}
    (h : Step m call result m') (hcall : call.page? = some va) {va' : Nat} (hne : va' ≠ va) :
    m'.pages va' = m.pages va' := by
  cases h with
  | mapped | unmapped | updated =>
    cases hcall
    rw [set_pages, if_neg hne]
  | notMapped | notUnmapped | notUpdated => rfl
  | mappedRange | notMappedRange | droppedRange | droppedPart | notDroppedRange | protectedRange
  | notProtectedRange | others => cases hcall

/-! ## The checks are questions about the map -/

/-- The page is mapped and, if that is asked, writable. -/
def PageMap.Allows (m : PageMap) (writable : Bool) (page : Nat) : Prop :=
  ∃ entry, m.pages page = some entry ∧ (writable = true → entry.writable = true)

/-- A range of user addresses. -/
def UserRange (address size : Nat) : Prop := size ≠ 0 ∧ 2 ^ 39 ≤ address ∧ address + size ≤ 2 ^ 48

theorem exists_page_iff (hva : pageAccepted va = true) (test : PageEntry → Prop) :
    (∃ e, s.page va = some e ∧ test (decodeEntry e)) ↔
      ∃ entry, s.pageMap.pages va = some entry ∧ test entry := by
  rw [pageMap_pages s hva]
  cases s.page va with
  | none => simp only [Option.map_none, reduceCtorEq, false_and, exists_false]
  | some e => simp only [Option.map_some, Option.some.injEq, exists_eq_left']

theorem pageExecutable_map (h : SpaceInv s) (va : Nat) : addressSpacePageExecutable s va = true ↔
      ∃ entry, s.pageMap.pages va = some entry ∧ entry.executable = true := by
  cases hva : pageAccepted va with
  | false =>
    rw [pageMap_refused s hva, addressSpacePageExecutable, hva]
    simp
  | true =>
    rw [pageExecutable_iff h.toTreeInv hva, ← exists_page_iff hva fun entry => entry.executable = true]
    exact exists_congr fun e => and_congr_right fun _ => beq_iff_eq.symm

theorem userPageValid_map (h : SpaceInv s) (writable : Bool) (hva : pageAccepted va = true) :
    userPageValid s writable va = true ↔ s.pageMap.Allows writable va := by
  rw [userPageValid_iff h.toTreeInv hva, Allows,
    ← exists_page_iff hva fun entry => writable = true → entry.writable = true]
  exact exists_congr fun e => and_congr_right fun _ => forall_congr' fun _ => bne_iff_ne.symm

theorem userPagesValid_iff (s : SpaceState) (writable : Bool) (remaining page : Nat) :
    userPagesValid s writable remaining page = true ↔
      ∀ a ∈ rangePages page (remaining + 1), userPageValid s writable a = true := by
  induction remaining generalizing page with
  | zero =>
    rw [userPagesValid, rangePages_cons, rangePages_zero, forall_mem_singleton]
  | succ remaining ih =>
    rw [userPagesValid, Bool.and_eq_true, ih, rangePages_cons page, forall_mem_cons]

/-- The check of a range asks for the page of each of its bytes. -/
theorem userRangeValid_map (h : SpaceInv s) (address size : Nat) (writable : Bool) :
    addressSpaceUserRangeValid s address size writable = true ↔
      UserRange address size ∧ ∀ byte, address ≤ byte → byte < address + size →
        s.pageMap.Allows writable (byte / pageSize * pageSize) := by
  have hsize : pageSize = 4096 := rfl
  unfold addressSpaceUserRangeValid UserRange
  split
  next hguard =>
    refine ⟨fun hf => absurd hf Bool.false_ne_true, fun hok => absurd hguard ?_⟩
    rintro (hroot | hrest)
    · exact h.root_ne_zero hroot
    · omega
  next hguard =>
  simp only [not_or] at hguard
  have hrange : size ≠ 0 ∧ 2 ^ 39 ≤ address ∧ address + size ≤ 2 ^ 48 := by omega
  obtain ⟨hpos, hlow, hhigh⟩ := hrange
  have haccepted : ∀ byte, address ≤ byte → byte < address + size →
      pageAccepted (byte / pageSize * pageSize) = true := by
    intro byte hb hb'
    rw [pageAccepted_iff, hsize]
    omega
  rw [userPagesValid_iff]
  refine Iff.trans ⟨fun hall => ?_, fun hall => ?_⟩ (and_iff_right ⟨hpos, hlow, hhigh⟩).symm
  · intro byte hb hb'
    rw [← userPageValid_map h writable (haccepted byte hb hb')]
    refine hall _ (mem_rangePages.mpr ⟨byte / pageSize - address / pageSize, ?_, ?_⟩)
    · rw [hsize]
      omega
    · rw [hsize]
      omega
  · intro a ha
    obtain ⟨k, hk, rfl⟩ := mem_rangePages.mp ha
    -- some byte of the range lies in the page: its first, or the first of the range
    have hbyte : ∃ byte, address ≤ byte ∧ byte < address + size ∧
        byte / pageSize * pageSize = address / pageSize * pageSize + k * pageSize := by
      refine ⟨max address (address / pageSize * pageSize + k * pageSize), ?_⟩
      rw [hsize] at hk ⊢
      omega
    obtain ⟨byte, hb, hb', heq⟩ := hbyte
    rw [← heq, userPageValid_map h writable (haccepted byte hb hb')]
    exact hall byte hb hb'

/-! ## The space is the map -/

/-- From its creation on, through any calls and whatever others do with their own frames, a space is
the map that the same calls with the same answers make of the empty one. The kernel's checks ask that
map; a call on one page leaves every other page alone; and mapping that fails, for want of a proper
request, of a free page, of frames or of places for tables, leaves the map, the set of table frames and
the allocator as they were. -/
theorem addressSpace_refines {p : Physical} (hp : FrameInv p) {pdpt : Page} {space : AddressSpace}
    {s₀ : SpaceState} (hcreate : addressSpaceCreate pdpt ⟨p, space⟩ = (true, s₀))
    {calls : List SpaceCall} (hlegal : Each SpaceCall.step SpaceCall.Legal s₀ calls) :
    let s := run SpaceCall.step s₀ calls
    Trace Step empty (outcomes SpaceCall.effect s₀ calls) s.pageMap ∧
    (∀ va, addressSpacePageExecutable s va = true ↔
      ∃ entry, s.pageMap.pages va = some entry ∧ entry.executable = true) ∧
    (∀ address size writable, addressSpaceUserRangeValid s address size writable = true ↔
      UserRange address size ∧ ∀ byte, address ≤ byte → byte < address + size →
        s.pageMap.Allows writable (byte / pageSize * pageSize)) ∧
    (∀ call : SpaceCall, call.Legal s → ∀ va, call.page? = some va → ∀ va', va' ≠ va →
      (call.step s).pageMap.pages va' = s.pageMap.pages va') ∧
    (∀ va pa flags s', (flags &&& addressSpaceUser) ≠ 0 →
      addressSpaceMapPage s va pa flags = (false, s') →
      s'.pageMap = s.pageMap ∧ (∀ a, a ∈ s'.space.ownedFrames ↔ a ∈ s.space.ownedFrames) ∧
        SameAllocator s.physical s'.physical ∧
        (¬ MapAccepted va pa flags ∨ s.pageMap.pages va ≠ none ∨ ¬ Supply s.physical 3 ∨
          maxOwnedFrames < s.space.ownedFrames.length + 3)) := by
  intro s
  have hnew := created_of_create hp hcreate
  have hrun := run_refines SpaceCall.effect Step SpaceState.pageMap (I := Sound)
    (fun s call hs hl => SpaceCall.refines hs call hl) hnew.sound hlegal
  rw [hnew.pageMap] at hrun
  have hsound : Sound s := hrun.1
  refine ⟨hrun.2, pageExecutable_map hsound.inv, userRangeValid_map hsound.inv, ?_, ?_⟩
  · intro call hl va hva va' hne
    exact (SpaceCall.refines hsound call hl).2.other_page hva hne
  · intro va pa flags s' huser hmap
    rcases mapPage_spec hsound.inv va pa huser with ⟨s'', heq, hrest⟩ | ⟨s'', heq, _⟩
    · rw [heq] at hmap
      cases hmap
      have hsame := hrest.unchanged hsound.inv hsound.records
      refine ⟨hsame.pageMap, hsame.owned, hsame.allocator, ?_⟩
      by_contra hreason
      simp only [not_or, not_not, Nat.not_lt] at hreason
      obtain ⟨haccepted, hfree, hsupply, hroom⟩ := hreason
      rw [pageMap_pages s haccepted.1, Option.map_eq_none_iff] at hfree
      have hdone := mapPage_of_supply hsound.inv haccepted hfree hsupply hroom
      rw [heq] at hdone
      cases hdone
    · rw [heq] at hmap
      cases hmap

/-- A space created after a boot with sixty-four free frames. -/
def roomySpace : SpaceState := (addressSpaceCreate (fun _ => 0) ⟨roomyPhysical, ⟨0, [], []⟩⟩).2

theorem roomySpace_created :
    addressSpaceCreate (fun _ => 0) ⟨roomyPhysical, ⟨0, [], []⟩⟩ = (true, roomySpace) :=
  Prod.ext (by decide +kernel) rfl

theorem addressSpace_refines_roomySpace :
    let calls := [SpaceCall.mapPage (2 ^ 40) 0x200000 (addressSpaceUser ||| addressSpaceExecutable),
      .mapAnonymous (2 ^ 39) 2 addressSpaceWritable, .protectRange (2 ^ 39) 1 addressSpaceExecutable,
      .unmapPage (2 ^ 39 + 4096)]
    let s := run SpaceCall.step roomySpace calls
    (addressSpaceMapPage roomySpace (2 ^ 40) 0x200000
      (addressSpaceUser ||| addressSpaceExecutable)).1 = true ∧
    Trace Step empty (outcomes SpaceCall.effect roomySpace calls) s.pageMap ∧
    (addressSpacePageExecutable s (2 ^ 40) = true ↔
      ∃ entry, s.pageMap.pages (2 ^ 40) = some entry ∧ entry.executable = true) := by
  intro calls s
  have hlegal : Each SpaceCall.step SpaceCall.Legal roomySpace calls := by
    refine ⟨?_, trivial, trivial, trivial, trivial⟩
    change ((addressSpaceUser ||| addressSpaceExecutable) &&& addressSpaceUser) ≠ 0
    decide
  have h := addressSpace_refines roomyPhysical_inv roomySpace_created hlegal
  exact ⟨by decide +kernel, h.1, h.2.1 (2 ^ 40)⟩

end KernelBoot.Mm
