import KernelBoot.Laws.Mm.PageMap

/-!
# Anonymous memory is all or nothing

A program maps, unmaps and protects ranges of its memory. Between requests every record stands for a
page that is mapped to the recorded frame, so unmapping a recorded range never finds a hole and each
request either does all it was asked or nothing. Other code takes single pages away only where there
is no record: the loader and the stack mapping undo their own pages.

A request stops at the first frame it cannot get, and gives back what it took without allocating. How
far it comes is decided by the frames free when it starts, and `others` leaves any number of them.
-/

namespace KernelBoot.Mm

open Lib List SpaceCall

variable {s s' : SpaceState} {r : AnonymousFrame}

/-- Single pages are unmapped only where nothing is recorded. -/
def SpaceCall.KeepsRecords (s : SpaceState) (call : SpaceCall) : Prop :=
  call.Legal s ∧ ∀ va, call = .unmapPage va → va ∉ s.space.anonymousFrames.map (·.virtualAddress)

/-- The page of a record is mapped to the record's frame. -/
def SpaceState.Backs (s : SpaceState) (r : AnonymousFrame) : Prop :=
  ∃ entry, s.pageMap.pages r.virtualAddress = some entry ∧ entry.frame = r.physicalAddress

structure Backed (s : SpaceState) : Prop where
  sound : Sound s
  distinct : (s.space.anonymousFrames.map (·.virtualAddress)).Nodup
  mapped : ∀ r ∈ s.space.anonymousFrames, s.Backs r

theorem SpaceState.Backs.there (h : s.Backs r) : s.pageMap.pages r.virtualAddress ≠ none := by
  obtain ⟨entry, hentry, _⟩ := h
  rw [hentry]
  exact Option.some_ne_none entry

/-- The pages a space holds anonymously, by its records. -/
def SpaceState.anonymousPages (s : SpaceState) : Finset Nat :=
  (s.space.anonymousFrames.map (·.virtualAddress)).toFinset

/-- The pages held anonymously after one more answered call. -/
def noteAnonymous (pages : Finset Nat) : SpaceCall × Bool → Finset Nat
  | (.mapAnonymous va n _, true) => pages ∪ (rangePages va n).toFinset
  | (.unmapAnonymous va n, true) => pages \ (rangePages va n).toFinset
  | _ => pages

/-- A call that failed: every page, every record and the set of allocated frames are as before. -/
structure Untouched (s s' : SpaceState) : Prop where
  pages : s'.pageMap = s.pageMap
  records : s'.space.anonymousFrames = s.space.anonymousFrames
  frames : ∀ a, Held s'.physical a ↔ Held s.physical a

theorem Untouched.refl (s : SpaceState) : Untouched s s := ⟨rfl, rfl, fun _ => Iff.rfl⟩

theorem Unchanged.untouched (h : Unchanged s s') : Untouched s s' :=
  ⟨h.pageMap, h.anonymous, h.held⟩

/-- With the same records and their pages on the same frames, nothing is lost. -/
theorem Backed.keep (h : Backed s) (hsound : Sound s')
    (hrecords : s'.space.anonymousFrames = s.space.anonymousFrames)
    (hpages : ∀ r ∈ s.space.anonymousFrames, s.Backs r → s'.Backs r) :
    Backed s' ∧ s'.anonymousPages = s.anonymousPages := by
  refine ⟨⟨hsound, ?_, fun r hr => ?_⟩, ?_⟩
  · rw [hrecords]
    exact h.distinct
  · rw [hrecords] at hr
    exact hpages r hr (h.mapped r hr)
  · rw [SpaceState.anonymousPages, hrecords, SpaceState.anonymousPages]

theorem Backed.untouched (h : Backed s) (hsound : Sound s') (hsame : Untouched s s') :
    Backed s' ∧ s'.anonymousPages = s.anonymousPages := by
  refine h.keep hsound hsame.records fun r _ hr => ?_
  rwa [SpaceState.Backs, hsame.pages]

theorem Created.backed (h : Created s s') : Backed s' := by
  refine ⟨h.sound, ?_, fun r hr => ?_⟩
  · rw [h.anonymous]
    exact nodup_nil
  · rw [h.anonymous] at hr
    cases hr

/-- A change of the map that keeps the frame of every mapped page. -/
theorem SpaceState.Backs.of_frames (h : s.Backs r)
    (hframe : ∀ entry, s.pageMap.pages r.virtualAddress = some entry →
      ∃ entry', s'.pageMap.pages r.virtualAddress = some entry' ∧ entry'.frame = entry.frame) :
    s'.Backs r := by
  obtain ⟨entry, hentry, hpa⟩ := h
  obtain ⟨entry', hentry', hsame⟩ := hframe entry hentry
  exact ⟨entry', hentry', hsame.trans hpa⟩

/-! ## The requests -/

section Requests

variable {s : SpaceState} (h : Backed s)

include h

/-- Mapping a range: all its pages, each on a frame of its own, or nothing. -/
theorem mapAnonymous_all (va n : Nat) (flags : Word) :
    (∃ s', addressSpaceMapAnonymous s va n flags = (false, s') ∧ Untouched s s' ∧ Sound s') ∨
    ∃ s' frame, addressSpaceMapAnonymous s va n flags = (true, s') ∧
      (∀ page ∈ rangePages va n, s.pageMap.pages page = none) ∧
      s'.pageMap = s.pageMap.add (rangePages va n) frame flags ∧ Backed s' ∧
      s'.anonymousPages = s.anonymousPages ∪ (rangePages va n).toFinset := by
  rcases mapAnonymous_spec h.sound.inv h.sound.records va n flags with
    ⟨s', heq, hsame⟩ | ⟨s', news, heq, _, _, hadded, hnews, hflags⟩
  · exact .inl ⟨s', heq, hsame.untouched, hsame.sound⟩
  obtain ⟨frame, hmap⟩ := hadded.pageMap hflags
  have hfresh : ∀ r ∈ s.space.anonymousFrames, r.virtualAddress ∉ news.map (·.virtualAddress) := by
    intro r hr hmem
    obtain ⟨q, hq, heq⟩ := mem_map.mp hmem
    refine (h.mapped r hr).there (pageMap_eq_none fun _ => ?_)
    rw [← heq]
    exact hadded.fresh q hq
  rw [hnews] at hmap
  refine .inr ⟨s', frame, heq, fun a ha => ?_, hmap,
    ⟨⟨hadded.inv, hadded.records⟩, ?_, fun r hr => ?_⟩, ?_⟩
  · rw [← hnews] at ha
    obtain ⟨r, hr, rfl⟩ := mem_map.mp ha
    exact pageMap_eq_none fun _ => hadded.fresh r hr
  · rw [hadded.anonymous, map_append, nodup_append]
    refine ⟨h.distinct, hadded.distinct, fun a ha b hb hab => ?_⟩
    obtain ⟨r, hr, rfl⟩ := mem_map.mp ha
    exact hfresh r hr (hab ▸ hb)
  · rw [hadded.anonymous] at hr
    rcases mem_append.mp hr with hr | hr
    · refine (h.mapped r hr).of_frames fun entry hentry => ⟨entry, ?_, rfl⟩
      have hnot := hfresh r hr
      rw [hnews] at hnot
      rw [hmap]
      exact (if_neg hnot).trans hentry
    · refine ⟨requestedEntry r.physicalAddress r.flags, ?_, rfl⟩
      rw [pageMap_pages s' (hadded.accepted r hr).1, hadded.mapped r hr, Option.map_some,
        (hadded.accepted r hr).decode]
  · rw [SpaceState.anonymousPages, hadded.anonymous, map_append, toFinset_append, hnews]
    rfl

/-- Unmapping a range: every page of it was recorded, so every page of it is mapped. -/
theorem unmapAnonymous_all (va n : Nat) :
    addressSpaceUnmapAnonymous s va n = (false, s) ∨
    ∃ s', addressSpaceUnmapAnonymous s va n = (true, s') ∧
      s'.pageMap = s.pageMap.drop (rangePages va n) ∧ Backed s' ∧
      s'.anonymousPages = s.anonymousPages \ (rangePages va n).toFinset := by
  fun_cases addressSpaceUnmapAnonymous s va n
  · exact .inl rfl
  · exact .inl rfl
  next hfound =>
    have hall := (allRecorded_iff s n va).mp (by simpa using hfound)
    obtain ⟨done, s', gone, heq, hdrop, hout⟩ :=
      unmapAnonymousPages_spec h.sound.inv h.sound.records hall
    rcases hout with ⟨rfl, hgone⟩ | ⟨rfl, k, hk, hgone, hnone⟩
    · have hmap := hdrop.pageMap
      have hperm := hdrop.anonymous.map AnonymousFrame.virtualAddress
      rw [map_append, hgone] at hperm
      have hnodup := nodup_append.mp (hperm.nodup_iff.mp h.distinct)
      have hleft : ∀ r ∈ s'.space.anonymousFrames, r.virtualAddress ∉ rangePages va n :=
        fun r hr hmem => hnodup.2.2 _ hmem _ (mem_map_of_mem hr) rfl
      rw [hgone] at hmap
      refine .inr ⟨s', heq, hmap, ⟨⟨hdrop.inv, hdrop.records⟩, hnodup.2.1, fun r hr => ?_⟩, ?_⟩
      · have hold : r ∈ s.space.anonymousFrames :=
          hdrop.anonymous.mem_iff.mpr (mem_append_right _ hr)
        refine (h.mapped r hold).of_frames fun entry hentry => ⟨entry, ?_, rfl⟩
        rw [hmap]
        exact (if_neg (hleft r hr)).trans hentry
      · ext a
        simp only [SpaceState.anonymousPages, Finset.mem_sdiff, mem_toFinset]
        rw [hperm.mem_iff, mem_append]
        constructor
        · intro ha
          refine ⟨.inr ha, fun hmem => ?_⟩
          obtain ⟨r, hr, rfl⟩ := mem_map.mp ha
          exact hleft r hr hmem
        · rintro ⟨hmem | ha, hnot⟩
          · exact absurd hmem hnot
          · exact ha
    · -- the page the loop stopped at is recorded and not yet dropped, hence still mapped
      have hmem : va + k * pageSize ∈ rangePages va n := mem_rangePages.mpr ⟨k, hk, rfl⟩
      obtain ⟨r, hr, hva⟩ := mem_map.mp (hall _ hmem)
      have hnot : va + k * pageSize ∉ gone.map (·.virtualAddress) := by
        rw [hgone]
        intro hin
        have hnodup := rangePages_nodup va (k + 1)
        rw [rangePages_succ] at hnodup
        exact (nodup_append.mp hnodup).2.2 _ hin _ mem_cons_self rfl
      refine absurd (pageMap_eq_none fun hacc => ?_) (hva ▸ (h.mapped r hr).there)
      rw [← hdrop.page hacc hnot, hnone hacc]

/-- Protecting a range: all its pages, with their frames as they were, or nothing. -/
theorem protectRange_all (va n : Nat) (flags : Word) :
    addressSpaceProtectRange s va n flags = (false, s) ∨
    ∃ s', addressSpaceProtectRange s va n flags = (true, s') ∧
      s'.pageMap = s.pageMap.protect (rangePages va n) flags ∧
      (∀ page ∈ rangePages va n, s.pageMap.pages page ≠ none) ∧ Backed s' ∧
      s'.anonymousPages = s.anonymousPages := by
  rcases protectRange_spec h.sound.inv va n flags with
    ⟨heq, _⟩ | ⟨s', heq, hrange, _, hthere, hre⟩
  · exact .inl heq
  have hmap := hre.pageMap
  refine .inr ⟨s', heq, hmap, fun a ha => ?_, ?_⟩
  · exact (pageMap_ne_none (rangePages_accepted hrange ha)).mpr (hthere a ha)
  · refine h.keep ⟨hre.inv, h.sound.records.step hre.step⟩ (by rw [hre.space]) fun r _ hr => ?_
    refine hr.of_frames fun entry hentry => ?_
    rw [hmap, PageMap.protect]
    simp only [hentry]
    split
    · exact ⟨_, rfl, rfl⟩
    · exact ⟨entry, rfl, rfl⟩

end Requests

/-! ## Runs -/

theorem Backed.pageStep (h : Backed s) {va : Nat} {v : Option Word} (hstep : PageStep s s' va v)
    (hva : pageAccepted va = true)
    (hkeep : ∀ r ∈ s.space.anonymousFrames, r.virtualAddress = va → ∀ entry,
      s.pageMap.pages va = some entry → ∃ e, v = some e ∧ (decodeEntry e).frame = entry.frame) :
    Backed s' ∧ s'.anonymousPages = s.anonymousPages := by
  refine h.keep (h.sound.pageStep hstep) hstep.step.anonymous fun r hmem hr => ?_
  refine hr.of_frames fun entry hentry => ?_
  rw [hstep.pageMap hva, PageMap.set_pages]
  by_cases heq : r.virtualAddress = va
  · rw [heq] at hentry
    obtain ⟨e, rfl, hframe⟩ := hkeep r hmem heq entry hentry
    exact ⟨decodeEntry e, if_pos heq, hframe⟩
  · exact ⟨entry, (if_neg heq).trans hentry, rfl⟩

theorem SpaceCall.step_backed (h : Backed s) (call : SpaceCall) (hlegal : call.KeepsRecords s) :
    Backed (call.effect s).2 ∧
      (call.effect s).2.anonymousPages = noteAnonymous s.anonymousPages (call, (call.effect s).1) := by
  obtain ⟨hlegal, hrecords⟩ := hlegal
  cases call with
  | mapPage va pa flags =>
    change Backed (addressSpaceMapPage s va pa flags).2 ∧
      (addressSpaceMapPage s va pa flags).2.anonymousPages = s.anonymousPages
    rcases mapPage_spec h.sound.inv va pa hlegal with
      ⟨s', heq, hrest⟩ | ⟨s', heq, haccepted, hnone, hstep, _⟩
    · have hsame := hrest.unchanged h.sound.inv h.sound.records
      rw [heq]
      exact h.untouched hsame.sound hsame.untouched
    · rw [heq]
      refine h.pageStep hstep haccepted.1 fun r _ hr entry hentry => ?_
      rw [pageMap_eq_none fun _ => hnone] at hentry
      cases hentry
  | unmapPage va =>
    change Backed (addressSpaceUnmapPage s va).2 ∧
      (addressSpaceUnmapPage s va).2.anonymousPages = s.anonymousPages
    rcases unmapPage_spec h.sound.inv va with ⟨heq, _⟩ | ⟨s', heq, hva, _, hstep, _⟩
    · rw [heq]
      exact ⟨h, rfl⟩
    · rw [heq]
      refine h.pageStep hstep hva fun r hmem hr => ?_
      exact absurd (hr ▸ mem_map_of_mem hmem) (hrecords va rfl)
  | updatePageFlags va flags =>
    change Backed (addressSpaceUpdatePageFlags s va flags).2 ∧
      (addressSpaceUpdatePageFlags s va flags).2.anonymousPages = s.anonymousPages
    rcases updatePageFlags_spec h.sound.inv va flags with
      ⟨heq, _⟩ | ⟨s', e, heq, hva, _, hpage, hstep, _⟩
    · rw [heq]
      exact ⟨h, rfl⟩
    · rw [heq]
      refine h.pageStep hstep hva fun r _ _ entry hentry => ⟨_, rfl, ?_⟩
      rw [pageMap_pages s hva, hpage, Option.map_some] at hentry
      rw [decode_updatedEntry, ← Option.some.inj hentry]
      rfl
  | mapAnonymous va n flags =>
    change Backed (addressSpaceMapAnonymous s va n flags).2 ∧ _ = noteAnonymous s.anonymousPages
      (.mapAnonymous va n flags, (addressSpaceMapAnonymous s va n flags).1)
    rcases mapAnonymous_all h va n flags with ⟨s', heq, hsame, hsound⟩ | ⟨s', _, heq, _, _, hbacked, hpages⟩
    · rw [show effect s (.mapAnonymous va n flags) = (false, s') from heq, heq]
      exact h.untouched hsound hsame
    · rw [show effect s (.mapAnonymous va n flags) = (true, s') from heq, heq]
      exact ⟨hbacked, hpages⟩
  | unmapAnonymous va n =>
    rcases unmapAnonymous_all h va n with heq | ⟨s', heq, _, hbacked, hpages⟩
    · rw [show effect s (.unmapAnonymous va n) = (false, s) from heq]
      exact ⟨h, rfl⟩
    · rw [show effect s (.unmapAnonymous va n) = (true, s') from heq]
      exact ⟨hbacked, hpages⟩
  | protectRange va n flags =>
    rcases protectRange_all h va n flags with heq | ⟨s', heq, _, _, hbacked, hpages⟩
    · rw [show effect s (.protectRange va n flags) = (false, s) from heq]
      exact ⟨h, rfl⟩
    · rw [show effect s (.protectRange va n flags) = (true, s') from heq]
      exact ⟨hbacked, hpages⟩
  | others physical =>
    obtain ⟨hsound, hmap⟩ := Spares.sound h.sound hlegal
    refine h.keep hsound rfl fun r _ hr => ?_
    change SpaceState.Backs { s with physical := physical } r
    rwa [SpaceState.Backs, hmap]

/-- Every request on a space in use, in every state it may be in, does all of it or nothing; and the
records count the pages that the requests so far mapped and did not unmap, each of them mapped to an
allocated frame of its own. -/
theorem anonymous_allOrNothing {p : Physical} (hp : FrameInv p) {pdpt : Page} {space : AddressSpace}
    {s₀ : SpaceState} (hcreate : addressSpaceCreate pdpt ⟨p, space⟩ = (true, s₀))
    {calls : List SpaceCall} (hlegal : Each SpaceCall.step SpaceCall.KeepsRecords s₀ calls) :
    let s := run step s₀ calls
    let held := (outcomes effect s₀ calls).foldl noteAnonymous ∅
    (∀ va n flags result s', addressSpaceMapAnonymous s va n flags = (result, s') →
      (result = true ∧ (∀ page ∈ rangePages va n, s.pageMap.pages page = none) ∧
        ∃ frame, s'.pageMap = s.pageMap.add (rangePages va n) frame flags) ∨
      (result = false ∧ Untouched s s')) ∧
    (∀ va n result s', addressSpaceUnmapAnonymous s va n = (result, s') →
      (result = true ∧ s'.pageMap = s.pageMap.drop (rangePages va n)) ∨
      (result = false ∧ Untouched s s')) ∧
    (∀ va n flags result s', addressSpaceProtectRange s va n flags = (result, s') →
      (result = true ∧ (∀ page ∈ rangePages va n, s.pageMap.pages page ≠ none) ∧
        s'.pageMap = s.pageMap.protect (rangePages va n) flags) ∨
      (result = false ∧ Untouched s s')) ∧
    s.space.anonymousFrames.length = held.card ∧
    (s.space.anonymousFrames.map (·.virtualAddress)).toFinset = held ∧
    (∀ r ∈ s.space.anonymousFrames, Held s.physical r.physicalAddress ∧
      ∃ entry, s.pageMap.pages r.virtualAddress = some entry ∧ entry.frame = r.physicalAddress) ∧
    (s.space.anonymousFrames.map (·.physicalAddress)).Nodup := by
  intro s held
  have hnew := created_of_create hp hcreate
  have hrun := run_refines effect (fun t a b t' => t' = noteAnonymous t (a, b))
    SpaceState.anonymousPages (I := Backed)
    (fun s call hs hl => step_backed hs call hl) hnew.backed hlegal
  have hbacked : Backed s := hrun.1
  have hheld : s.anonymousPages = held := by
    have hfold := Trace.eq_foldl hrun.2
    rwa [show s₀.anonymousPages = ∅ by rw [SpaceState.anonymousPages, hnew.anonymous]; rfl] at hfold
  refine ⟨?_, ?_, ?_, ?_, hheld, fun r hr => ?_, hbacked.sound.records.nodup⟩
  · intro va n flags result s' hcall
    rcases mapAnonymous_all hbacked va n flags with
      ⟨t, heq, hsame, _⟩ | ⟨t, frame, heq, hfresh, hmap, _⟩
    · rw [heq] at hcall
      cases hcall
      exact .inr ⟨rfl, hsame⟩
    · rw [heq] at hcall
      cases hcall
      exact .inl ⟨rfl, hfresh, frame, hmap⟩
  · intro va n result s' hcall
    rcases unmapAnonymous_all hbacked va n with heq | ⟨t, heq, hmap, _⟩
    · rw [heq] at hcall
      cases hcall
      exact .inr ⟨rfl, Untouched.refl _⟩
    · rw [heq] at hcall
      cases hcall
      exact .inl ⟨rfl, hmap⟩
  · intro va n flags result s' hcall
    rcases protectRange_all hbacked va n flags with heq | ⟨t, heq, hmap, hthere, _⟩
    · rw [heq] at hcall
      cases hcall
      exact .inr ⟨rfl, Untouched.refl _⟩
    · rw [heq] at hcall
      cases hcall
      exact .inl ⟨rfl, hthere, hmap⟩
  · rw [← hheld, SpaceState.anonymousPages, toFinset_card_of_nodup hbacked.distinct, length_map]
  · exact ⟨(hbacked.sound.records.held r hr).1, hbacked.mapped r hr⟩

theorem anonymous_allOrNothing_roomySpace :
    let s := run step roomySpace
      [.mapPage (2 ^ 40) 0x200000 addressSpaceUser, .mapAnonymous (2 ^ 39) 2 addressSpaceWritable]
    s.space.anonymousFrames.length = 2 ∧
    (s.space.anonymousFrames.map (·.physicalAddress)).Nodup ∧
    ∀ va n result s', addressSpaceUnmapAnonymous s va n = (result, s') →
      (result = true ∧ s'.pageMap = s.pageMap.drop (rangePages va n)) ∨
      (result = false ∧ Untouched s s') := by
  intro s
  have hlegal : Each step KeepsRecords roomySpace
      [.mapPage (2 ^ 40) 0x200000 addressSpaceUser, .mapAnonymous (2 ^ 39) 2 addressSpaceWritable] := by
    refine ⟨⟨?_, fun va hva => by cases hva⟩, ⟨trivial, fun va hva => by cases hva⟩, trivial⟩
    change (addressSpaceUser &&& addressSpaceUser) ≠ 0
    decide
  have h := anonymous_allOrNothing roomyPhysical_inv roomySpace_created hlegal
  exact ⟨by decide +kernel, h.2.2.2.2.2.2, h.2.1⟩

/-! ## The life of a space -/

/-- A call of the space itself. -/
def SpaceCall.Own (s : SpaceState) (call : SpaceCall) : Prop :=
  call.Legal s ∧ ∀ physical, call ≠ .others physical

/-- No call of a space touches a frame of anyone else. -/
theorem SpaceCall.step_outside (h : Sound s) (call : SpaceCall) (hown : call.Own s) (a : Word) :
    Outside (call.step s) a ↔ Outside s a := by
  obtain ⟨hlegal, hown⟩ := hown
  rw [step]
  fun_cases call.effect s
  next va pa flags =>
    rcases mapPage_spec h.inv va pa hlegal with ⟨s', heq, hrest⟩ | ⟨s', heq, _, _, hstep, _⟩ <;> rw [heq]
    · exact hrest.step.others a
    · exact hstep.step.others a
  next va =>
    rcases unmapPage_spec h.inv va with ⟨heq, _⟩ | ⟨s', heq, _, _, hstep, _⟩ <;> rw [heq]
    exact hstep.step.others a
  next va flags =>
    rcases updatePageFlags_spec h.inv va flags with ⟨heq, _⟩ | ⟨s', e, heq, _, _, _, hstep, _⟩ <;> rw [heq]
    exact hstep.step.others a
  next va n flags =>
    rcases mapAnonymous_spec h.inv h.records va n flags with
      ⟨s', heq, hsame⟩ | ⟨s', news, heq, _, _, hadded, _⟩ <;> rw [heq]
    · rw [Outside, Outside, hsame.held, hsame.owned, hsame.anonymous]
    · exact hadded.outside a
  next va n =>
    fun_cases addressSpaceUnmapAnonymous s va n
    iterate 2 exact Iff.rfl
    next hfound =>
    obtain ⟨done, s', gone, heq, hdrop, _⟩ :=
      unmapAnonymousPages_spec h.inv h.records ((allRecorded_iff s n va).mp (by simpa using hfound))
    rw [heq]
    exact hdrop.outside a
  next va n flags =>
    rcases protectRange_spec h.inv va n flags with ⟨heq, _⟩ | ⟨s', heq, _, _, _, hre⟩ <;> rw [heq]
    exact hre.step.others a
  next physical => exact absurd rfl (hown physical)

/-- A destruction frees the recorded frames and the tables, each of them once. -/
theorem Sound.destroy (h : Sound s) {kernelRoot activeRoot : Word}
    (hdone : addressSpaceDestroy kernelRoot activeRoot s = (true, s')) (a : Word) :
    Held s'.physical a ↔ Outside s a := by
  rw [addressSpaceDestroy] at hdone
  split at hdone <;> cases hdone
  dsimp only
  rw [← foldl_append, map_reverse]
  have hapart := (nodup_reverse.mpr h.records.nodup).append (nodup_reverse.mpr h.inv.nodup)
    (by simpa [disjoint_left] using fun r hr => (h.records.held r hr).2)
  rw [(freeAll_spec h.inv.frames hapart ?_).2]
  · simp [Outside, and_comm]
  · simpa [or_imp, forall_and] using ⟨fun r hr => (h.records.held r hr).1, h.inv.held⟩

/-- However its calls ended, a space that is destroyed has leaked no frame and freed nobody else's. -/
theorem destroy_leaves_allocated {p : Physical} (hp : FrameInv p) {pdpt : Page} {space : AddressSpace}
    {s₀ t : SpaceState} (hcreate : addressSpaceCreate pdpt ⟨p, space⟩ = (true, s₀))
    {calls : List SpaceCall} (hown : Each step Own s₀ calls) {kernelRoot activeRoot : Word}
    (hdestroy : addressSpaceDestroy kernelRoot activeRoot (run step s₀ calls) = (true, t)) (a : Word) :
    Held t.physical a ↔ Held p a := by
  have hnew := created_of_create hp hcreate
  have hstart : Outside s₀ a ↔ Held p a := by simpa [Outside, hnew.anonymous] using hnew.outside a
  have hrun := run_keeps (P := fun s => Sound s ∧ (Outside s a ↔ Held p a)) (fun s call hs hcall =>
    ⟨(refines hs.1 call hcall.1).1, (step_outside hs.1 call hcall a).trans hs.2⟩)
    ⟨hnew.sound, hstart⟩ hown
  exact (hrun.1.destroy hdestroy a).trans hrun.2

theorem destroy_leaves_allocated_roomySpace :
    let result := addressSpaceDestroy 0 0 (run step roomySpace [.mapAnonymous (2 ^ 39) 2 0])
    result.1 = true ∧ ∀ a, Held result.2.physical a ↔ Held roomyPhysical a := by
  intro result
  have hdone : result.1 = true := by decide +kernel
  have hown : Each step Own roomySpace [.mapAnonymous (2 ^ 39) 2 0] :=
    ⟨⟨trivial, fun _ h => by cases h⟩, trivial⟩
  have hdestroy : result = (true, result.2) := by rw [← hdone]
  exact ⟨hdone, destroy_leaves_allocated roomyPhysical_inv roomySpace_created hown hdestroy⟩

end KernelBoot.Mm
