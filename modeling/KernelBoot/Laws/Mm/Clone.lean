import KernelBoot.Laws.Mm.AnonymousMemory

/-!
# Cloning anonymous memory

A clone maps a fresh frame for every record of the source, with the flags of the record, and copies
the page. The copies are faithful in address and contents. Their permissions are those the record was
made with, so they are the source's own exactly where no protection change has come between.
-/

namespace KernelBoot.Mm

open Lib List SpaceCall

variable {s s₀ : SpaceState} {r : AnonymousFrame}

/-! ## The records of a space in use carry the user bit -/

def UserRecords (s : SpaceState) : Prop :=
  ∀ r ∈ s.space.anonymousFrames, (r.flags &&& addressSpaceUser) ≠ 0

/-- A call makes records for the user and keeps only old ones besides. -/
theorem SpaceCall.step_userRecords (h : Backed s) (hrecords : UserRecords s) (call : SpaceCall)
    (hlegal : call.Legal s) : UserRecords (call.effect s).2 := by
  have hsame : ∀ {s' : SpaceState}, s'.space.anonymousFrames = s.space.anonymousFrames →
      UserRecords s' := fun heq r hr => hrecords r (heq ▸ hr)
  cases call with
  | mapPage va pa flags =>
    change UserRecords (addressSpaceMapPage s va pa flags).2
    rcases mapPage_spec h.sound.inv va pa hlegal with ⟨s', heq, hrest⟩ | ⟨s', heq, _, _, hstep, _⟩
    · rw [heq]
      exact hsame hrest.step.anonymous
    · rw [heq]
      exact hsame hstep.step.anonymous
  | unmapPage va =>
    change UserRecords (addressSpaceUnmapPage s va).2
    rcases unmapPage_spec h.sound.inv va with ⟨heq, _⟩ | ⟨s', heq, _, _, hstep, _⟩
    · rw [heq]
      exact hrecords
    · rw [heq]
      exact hsame hstep.step.anonymous
  | updatePageFlags va flags =>
    change UserRecords (addressSpaceUpdatePageFlags s va flags).2
    rcases updatePageFlags_spec h.sound.inv va flags with ⟨heq, _⟩ | ⟨s', _, heq, _, _, _, hstep, _⟩
    · rw [heq]
      exact hrecords
    · rw [heq]
      exact hsame hstep.step.anonymous
  | mapAnonymous va n flags =>
    change UserRecords (addressSpaceMapAnonymous s va n flags).2
    rcases mapAnonymous_spec h.sound.inv h.sound.records va n flags with
      ⟨s', heq, hun⟩ | ⟨s', news, heq, _, _, hadded, _, hflags⟩
    · rw [heq]
      exact hsame hun.anonymous
    · rw [heq]
      rw [UserRecords, hadded.anonymous]
      refine forall_mem_append.mpr ⟨hrecords, fun r hr => ?_⟩
      rw [hflags r hr]
      exact user_of_or flags
  | unmapAnonymous va n =>
    change UserRecords (addressSpaceUnmapAnonymous s va n).2
    fun_cases addressSpaceUnmapAnonymous s va n
    · exact hrecords
    · exact hrecords
    next hfound =>
      obtain ⟨done, s', gone, heq, hdrop, _⟩ := unmapAnonymousPages_spec h.sound.inv
        h.sound.records ((allRecorded_iff s n va).mp (by simpa using hfound))
      rw [heq]
      exact fun r hr => hrecords r (hdrop.anonymous.mem_iff.mpr (mem_append_right _ hr))
  | protectRange va n flags =>
    change UserRecords (addressSpaceProtectRange s va n flags).2
    rcases protectRange_spec h.sound.inv va n flags with ⟨heq, _⟩ | ⟨s', heq, _, _, _, hre⟩
    · rw [heq]
      exact hrecords
    · rw [heq]
      exact hsame (by rw [hre.space])
  | others physical => exact hsame rfl

/-- A space from its creation on. -/
theorem run_backed {p : Physical} (hp : FrameInv p) {pdpt : Page} {space : AddressSpace}
    (hcreate : addressSpaceCreate pdpt ⟨p, space⟩ = (true, s₀)) {calls : List SpaceCall}
    (hlegal : Each step KeepsRecords s₀ calls) :
    Backed (run step s₀ calls) ∧ UserRecords (run step s₀ calls) := by
  have hnew := created_of_create hp hcreate
  refine run_keeps (P := fun s => Backed s ∧ UserRecords s) (C := KeepsRecords)
    (fun s call hs hl => ?_) ⟨hnew.backed, fun r hr => ?_⟩ hlegal
  · exact ⟨(step_backed hs.1 call hl).1, step_userRecords hs.1 hs.2 call hl.1⟩
  · rw [hnew.anonymous] at hr
    cases hr

/-! ## The loop over the source's records -/

/-- In `t` the record `copy` stands for `r` of the source: same page, same flags, same contents. -/
structure CopyOf (t₀ t : SpaceState) (r copy : AnonymousFrame) : Prop where
  page : copy.virtualAddress = r.virtualAddress
  flags : copy.flags = r.flags
  contents : t.physical.memory copy.physicalAddress = t₀.physical.memory r.physicalAddress

/-- A successful loop has added a copy of every record. -/
theorem cloneRecords_spec {t₀ : SpaceState} {anonymousBefore : Nat} {rest : List AnonymousFrame}
    {t t' : SpaceState} {news done : List AnonymousFrame} (hr₀ : Records t₀) (h : Added t₀ t news)
    (hcopies : ∀ r ∈ done, ∃ copy ∈ news, CopyOf t₀ t r copy)
    (huser : ∀ r ∈ rest, (r.flags &&& addressSpaceUser) ≠ 0)
    (hsource : ∀ r ∈ rest, Held t₀.physical r.physicalAddress ∧
      r.physicalAddress ∉ t₀.space.ownedFrames)
    (hclone : cloneRecords anonymousBefore rest t = (true, t')) :
    ∃ news', Added t₀ t' news' ∧ ∀ r ∈ done ++ rest, ∃ copy ∈ news', CopyOf t₀ t' r copy := by
  induction rest generalizing t news done with
  | nil =>
    cases hclone
    exact ⟨news, h, by rwa [append_nil]⟩
  | cons r rest ih =>
    rw [cloneRecords] at hclone
    have hr := mem_cons_self (a := r) (l := rest)
    rcases backPage_spec h.inv r.virtualAddress (huser r hr) with ⟨s', heq, _⟩ | ⟨b, s', heq, hback⟩
    · simp only [heq] at hclone
      cases hclone
    simp only [heq] at hclone
    have hkept := h.kept _ (hsource r hr).1 (hsource r hr).2
    have hcontents : s'.physical.memory r.physicalAddress = t₀.physical.memory r.physicalAddress :=
      (hback.memory _ hkept.1 hkept.2).trans (h.memory _ (hsource r hr).1 (hsource r hr).2)
    let copy : AnonymousFrame := ⟨r.virtualAddress, b, r.flags⟩
    have hfilled := hback.setPage (s'.physical.memory r.physicalAddress)
    have hpush : Added t₀ ((s'.setPage b (s'.physical.memory r.physicalAddress)).record copy)
        (news ++ [copy]) := h.push hr₀ hfilled
    rw [← singleton_append, ← append_assoc]
    refine ih hpush (fun q hq => ?_) (fun q hq => huser q (mem_cons_of_mem r hq))
      (fun q hq => hsource q (mem_cons_of_mem r hq)) hclone
    rcases mem_append.mp hq with hq | hq
    · -- a copy made before keeps its contents: its frame was allocated already
      obtain ⟨copy', hmem, hcopy⟩ := hcopies q hq
      have hheld := h.records.held copy' (by
        rw [h.anonymous]
        exact mem_append_right _ hmem)
      refine ⟨copy', mem_append_left _ hmem, hcopy.page, hcopy.flags, ?_⟩
      exact (hfilled.memory _ hheld.1 hheld.2).trans hcopy.contents
    · rw [mem_singleton.mp hq]
      refine ⟨copy, mem_append_right _ mem_cons_self, rfl, rfl, ?_⟩
      exact (Function.update_self ..).trans hcontents

/-! ## The clone -/

/-- A space to clone into: not created yet, or created, empty, and with no frame of the source's. -/
def FreshFor (s : SpaceState) (destination : AddressSpace) : Prop :=
  destination.root = 0 ∨
    (SpaceInv ⟨s.physical, destination⟩ ∧ destination.anonymousFrames = [] ∧
      (∀ va, SpaceState.page ⟨s.physical, destination⟩ va = none) ∧
      ∀ r ∈ s.space.anonymousFrames, r.physicalAddress ∉ destination.ownedFrames)

/-- Every record of the source has a copy: same page, the recorded flags, a frame of its own with the
same contents. -/
theorem clone_spec (h : Backed s) (hrecords : UserRecords s) {pdpt : Page}
    {kernelRoot activeRoot : Word} {destination : AddressSpace} (hfresh : FreshFor s destination)
    {s' : SpaceState} (hclone : addressSpaceCloneAnonymous pdpt kernelRoot activeRoot s.space
      ⟨s.physical, destination⟩ = (true, s')) (hr : r ∈ s.space.anonymousFrames) :
    ∃ frame, s'.pageMap.pages r.virtualAddress = some (requestedEntry frame r.flags) ∧
      frame ≠ r.physicalAddress ∧ Held s'.physical frame ∧
      s'.physical.memory frame = s.physical.memory r.physicalAddress := by
  -- the loop runs over a sound empty space that leaves the source's frames alone
  obtain ⟨t₀, before, hinv, hrecs, hrun, hheld, hmemory⟩ : ∃ t₀ before, SpaceInv t₀ ∧ Records t₀ ∧
      cloneRecords before s.space.anonymousFrames t₀ = (true, s') ∧
      (∀ q ∈ s.space.anonymousFrames, Held t₀.physical q.physicalAddress ∧
        q.physicalAddress ∉ t₀.space.ownedFrames) ∧
      ∀ q ∈ s.space.anonymousFrames,
        t₀.physical.memory q.physicalAddress = s.physical.memory q.physicalAddress := by
    unfold addressSpaceCloneAnonymous at hclone
    split at hclone
    next => cases hclone
    next =>
    split at hclone
    next hroot =>
      rcases create_spec pdpt (s := ⟨s.physical, destination⟩) h.sound.inv.frames with
        ⟨t, heq, _⟩ | ⟨t, heq, _, hnew⟩
      · rw [heq] at hclone
        cases hclone
      rw [heq] at hclone
      simp only [] at hclone
      refine ⟨t, t.space.anonymousFrames.length, hnew.inv, hnew.sound.records, ?_, ?_, ?_⟩
      · split at hclone
        next t' hloop =>
          cases hclone
          exact hloop
        next => cases hclone
      · exact fun q hq => (hnew.outside _).mpr (h.sound.records.held q hq).1
      · exact fun q hq => hnew.memory _ (h.sound.records.held q hq).1
    next hroot =>
      rcases hfresh with hzero | ⟨hinv, hnone, _, hapart⟩
      · exact absurd hzero hroot
      · refine ⟨⟨s.physical, destination⟩, _, hinv, ⟨fun q hq => ?_, ?_⟩, hclone, fun q hq => ?_,
          fun _ _ => rfl⟩
        · rw [hnone] at hq
          cases hq
        · rw [hnone]
          exact nodup_nil
        · exact ⟨(h.sound.records.held q hq).1, hapart q hq⟩
  have hnone : ∀ q ∈ ([] : List AnonymousFrame), ∃ copy ∈ ([] : List AnonymousFrame),
      CopyOf t₀ t₀ q copy := forall_mem_nil _
  obtain ⟨news, hadded, hcopies⟩ :=
    cloneRecords_spec hrecs (Added.refl hinv hrecs) hnone hrecords hheld hrun
  obtain ⟨copy, hmem, hcopy⟩ := hcopies r hr
  refine ⟨copy.physicalAddress, ?_, ?_, ?_, ?_⟩
  · rw [← hcopy.page, pageMap_pages s' (hadded.accepted copy hmem).1, hadded.mapped copy hmem,
      Option.map_some, (hadded.accepted copy hmem).decode, hcopy.flags]
  · exact (hadded.new_frame_ne hmem (hheld r hr).1 (hheld r hr).2).symm
  · refine (hadded.records.held copy ?_).1
    rw [hadded.anonymous]
    exact mem_append_right _ hmem
  · exact hcopy.contents.trans (hmemory r hr)

/-- The copy of a record in the destination is what the source has there now. -/
def ClonedAs (s s' : SpaceState) (r : AnonymousFrame) : Prop :=
  ∃ entry copy, s.pageMap.pages r.virtualAddress = some entry ∧
    s'.pageMap.pages r.virtualAddress = some copy ∧ copy.writable = entry.writable ∧
    copy.executable = entry.executable ∧ copy.frame ≠ entry.frame ∧
    s'.physical.memory copy.frame = s.physical.memory entry.frame

/-- The source's page has the permissions it was mapped with. -/
def AsRecorded (s : SpaceState) (r : AnonymousFrame) : Prop :=
  ∃ entry, s.pageMap.pages r.virtualAddress = some entry ∧
    entry.writable = ((r.flags &&& addressSpaceWritable) != 0) ∧
    entry.executable = ((r.flags &&& addressSpaceExecutable) != 0)

/-- A clone gives every anonymous page the source's current permissions, and the contents in a frame
of its own, exactly if the source's pages have the permissions their records say. -/
theorem clone_preserves_iff {p : Physical} (hp : FrameInv p) {pdpt kernelPdpt : Page} {space : AddressSpace}
    {s₀ : SpaceState} (hcreate : addressSpaceCreate pdpt ⟨p, space⟩ = (true, s₀))
    {calls : List SpaceCall} (hlegal : Each SpaceCall.step SpaceCall.KeepsRecords s₀ calls)
    {kernelRoot activeRoot : Word} {destination : AddressSpace}
    (hfresh : FreshFor (run SpaceCall.step s₀ calls) destination) {s' : SpaceState}
    (hclone : addressSpaceCloneAnonymous kernelPdpt kernelRoot activeRoot
      (run SpaceCall.step s₀ calls).space
      ⟨(run SpaceCall.step s₀ calls).physical, destination⟩ = (true, s')) :
    (∀ r ∈ (run SpaceCall.step s₀ calls).space.anonymousFrames,
      ClonedAs (run SpaceCall.step s₀ calls) s' r) ↔
    ∀ r ∈ (run SpaceCall.step s₀ calls).space.anonymousFrames,
      AsRecorded (run SpaceCall.step s₀ calls) r := by
  obtain ⟨hbacked, huser⟩ := run_backed hp hcreate hlegal
  refine forall₂_congr fun r hr => ?_
  obtain ⟨frame, hcopy, hne, _, hcontents⟩ := clone_spec hbacked huser hfresh hclone hr
  obtain ⟨entry, hentry, hframe⟩ := hbacked.mapped r hr
  constructor
  · rintro ⟨entry', copy, hentry', hcopy', hwritable, hexecutable, _, _⟩
    rw [hcopy] at hcopy'
    cases hcopy'
    exact ⟨entry', hentry', hwritable.symm, hexecutable.symm⟩
  · rintro ⟨entry', hentry', hwritable, hexecutable⟩
    rw [hentry] at hentry'
    cases hentry'
    refine ⟨entry, _, hentry, hcopy, hwritable.symm, hexecutable.symm, ?_, ?_⟩
    · rw [hframe]
      exact hne
    · rw [hframe]
      exact hcontents

/-- A space with one writable anonymous page. -/
def writableSpace : SpaceState :=
  run SpaceCall.step roomySpace [.mapAnonymous (2 ^ 39) 1 addressSpaceWritable]

/-- Its clone. -/
def writableClone : Bool × SpaceState :=
  addressSpaceCloneAnonymous (fun _ => 0) 0x1000 0x1000 writableSpace.space
    ⟨writableSpace.physical, ⟨0, [], []⟩⟩

theorem clone_preserves_firstMapped :
    writableClone.1 = true ∧ writableSpace.space.anonymousFrames.length = 1 ∧
    ((∀ r ∈ writableSpace.space.anonymousFrames, ClonedAs writableSpace writableClone.2 r) ↔
      ∀ r ∈ writableSpace.space.anonymousFrames, AsRecorded writableSpace r) := by
  have hdone : writableClone.1 = true := by decide +kernel
  have hclone : writableClone = (true, writableClone.2) := Prod.ext hdone rfl
  have hlegal : Each step KeepsRecords roomySpace
      [.mapAnonymous (2 ^ 39) 1 addressSpaceWritable] :=
    ⟨⟨trivial, fun va hva => by cases hva⟩, trivial⟩
  exact ⟨hdone, by decide +kernel,
    clone_preserves_iff roomyPhysical_inv roomySpace_created hlegal (.inl rfl) hclone⟩

/-- A clone into a space not yet created goes through for one record while six frames are free. -/
theorem clone_of_supply (h : Backed s) (hrecords : s.space.anonymousFrames = [r])
    (hva : pageAccepted r.virtualAddress = true) (hflags : flagsAccepted pageFlags r.flags = true)
    (hsupply : Supply s.physical 6) (pdpt : Page) (kernelRoot activeRoot : Word) :
    ∃ s', addressSpaceCloneAnonymous pdpt kernelRoot activeRoot s.space
      ⟨s.physical, ⟨0, [], []⟩⟩ = (true, s') := by
  obtain ⟨t, hcreate, hrest, howned⟩ :=
    create_of_supply pdpt (s := ⟨s.physical, ⟨0, [], []⟩⟩) (k := 4) hsupply rfl
  have hnew := created_of_create h.sound.inv.frames hcreate
  obtain ⟨b, t', hback⟩ := backPage_of_supply hnew.inv hva hflags
    (hnew.empty _ _ (UserSlot.of_last (pathOf_inTree hva) rfl)) hrest (by
      rw [howned]
      decide)
  unfold addressSpaceCloneAnonymous
  rw [if_neg, if_pos rfl, hcreate]
  · simp only [hrecords, cloneRecords, hback]
    exact ⟨_, rfl⟩
  · rintro (hroot | hmany)
    · exact h.sound.inv.root_ne_zero hroot
    · rw [hrecords, length_singleton] at hmany
      revert hmany
      decide

/-- A page mapped writable and then protected against writing is writable again in the clone. -/
theorem clone_after_protect {s₁ : SpaceState} (h₀ : Backed s₀)
    (hnone : s₀.space.anonymousFrames = []) {va : Nat} (hva : userRangeAccepted va 1 = true)
    (hmap : addressSpaceMapAnonymous s₀ va 1 addressSpaceWritable = (true, s₁))
    (hsupply : Supply s₁.physical 6) (pdpt : Page) (kernelRoot activeRoot : Word) :
    ∃ s s', addressSpaceProtectRange s₁ va 1 0 = (true, s) ∧
      addressSpaceCloneAnonymous pdpt kernelRoot activeRoot s.space ⟨s.physical, ⟨0, [], []⟩⟩ =
        (true, s') ∧
      ∃ r ∈ s.space.anonymousFrames, r.virtualAddress = va ∧
        ∃ entry copy, s.pageMap.pages va = some entry ∧ s'.pageMap.pages va = some copy ∧
          entry.writable = false ∧ copy.writable = true := by
  rcases mapAnonymous_spec h₀.sound.inv h₀.sound.records va 1 addressSpaceWritable with
    ⟨_, hfail, _⟩ | ⟨_, news, hdone, _, _, hadded, hnews, hflags⟩
  · rw [hmap] at hfail
    cases hfail
  rw [hmap] at hdone
  cases hdone
  rw [rangePages_cons, rangePages_zero] at hnews
  obtain ⟨r, rfl, rfl⟩ := map_eq_singleton_iff.mp hnews
  have hmem : r ∈ [r] := mem_cons_self
  have hrecords : s₁.space.anonymousFrames = [r] := by rw [hadded.anonymous, hnone, nil_append]
  have hthere := hadded.mapped r hmem
  rcases mapAnonymous_all h₀ r.virtualAddress 1 addressSpaceWritable with
    ⟨_, hfail, _⟩ | ⟨_, _, hdone, _, _, hbacked, _⟩
  · rw [hmap] at hfail
    cases hfail
  rw [hmap] at hdone
  cases hdone
  have hone : ∀ a ∈ rangePages r.virtualAddress 1, a = r.virtualAddress := by
    intro a ha
    rw [rangePages_cons, rangePages_zero] at ha
    exact mem_singleton.mp ha
  rcases protectRange_spec hbacked.sound.inv r.virtualAddress 1 0 with
    ⟨_, hrefused⟩ | ⟨s, hprotect, _, _, _, hre⟩
  · refine absurd ⟨hva, by decide, fun a ha => ?_⟩ hrefused
    rw [hone a ha, hthere]
    exact Option.some_ne_none _
  rcases protectRange_all hbacked r.virtualAddress 1 0 with hfail | ⟨_, hdone, hprotected, _, hbacked', _⟩
  · rw [hprotect] at hfail
    cases hfail
  rw [hprotect] at hdone
  cases hdone
  have hrecords' : s.space.anonymousFrames = [r] := by rw [hre.space, hrecords]
  have hpage := (hadded.accepted r hmem).1
  obtain ⟨s', hclone⟩ := clone_of_supply hbacked' hrecords' hpage (hadded.accepted r hmem).2.2.2
    (hsupply.same hre.allocator) pdpt kernelRoot activeRoot
  have huser : UserRecords s := by
    intro q hq
    rw [hrecords'] at hq
    rw [mem_singleton.mp hq, hflags r hmem]
    exact user_of_or _
  have hin : r ∈ s.space.anonymousFrames := by
    rw [hrecords']
    exact hmem
  obtain ⟨frame, hcopy, _⟩ := clone_spec hbacked' huser (.inl rfl) hclone hin
  refine ⟨s, s', hprotect, hclone, r, hin, rfl, requestedEntry (decodeEntry (mappedEntry
    r.physicalAddress r.flags)).frame 0, _, ?_, hcopy, rfl, ?_⟩
  · rw [hprotected]
    refine (if_pos ?_).trans ?_
    · rw [rangePages_cons, rangePages_zero]
      exact mem_cons_self
    · rw [pageMap_pages s₁ hpage, hthere]
      rfl
  · rw [hflags r hmem]
    rfl

/-- The same on a concrete machine: the clone goes through and its page is writable. -/
theorem clone_preserves_fails_protected :
    ∃ s s', addressSpaceProtectRange writableSpace (2 ^ 39) 1 0 = (true, s) ∧
      addressSpaceCloneAnonymous (fun _ => 0) 0x1000 0x1000 s.space ⟨s.physical, ⟨0, [], []⟩⟩ =
        (true, s') ∧
      ∃ r ∈ s.space.anonymousFrames, r.virtualAddress = 2 ^ 39 ∧
        ∃ entry copy, s.pageMap.pages (2 ^ 39) = some entry ∧
          s'.pageMap.pages (2 ^ 39) = some copy ∧ entry.writable = false ∧ copy.writable = true := by
  have hnone : Each step KeepsRecords roomySpace [] := trivial
  have hnew : Backed roomySpace := (run_backed roomyPhysical_inv roomySpace_created hnone).1
  have hmapped : (addressSpaceMapAnonymous roomySpace (2 ^ 39) 1 addressSpaceWritable).1 = true := by
    decide +kernel
  refine clone_after_protect hnew (by decide +kernel) (by decide) (Prod.ext hmapped rfl) ?_ _ _ _
  exact ⟨[300, 301, 302, 303, 304, 305], by decide, by decide, by decide +kernel⟩

end KernelBoot.Mm
