import KernelBoot.Laws.Mm.GainedPages

/-!
# Pages backed by fresh frames

`address_space_map_anonymous` and `address_space_clone_anonymous` add pages one at a time, each with
a frame of its own and a record, and take them away in reverse when one of them fails. `Added` is
their common loop invariant: from `s₀` the space has gained exactly the pages of a list of records.
It is kept by adding a record at the end and by taking the last one off, and with no record left the
space, its records and the allocator are what they were.
-/

namespace KernelBoot.Mm

open Lib List

variable {s s' s₀ : SpaceState} {b : Word} {news : List AnonymousFrame} {r : AnonymousFrame}

/-- The recorded frames are allocated, distinct, and none is a table. -/
structure Records (s : SpaceState) : Prop where
  held : ∀ r ∈ s.space.anonymousFrames,
    Held s.physical r.physicalAddress ∧ r.physicalAddress ∉ s.space.ownedFrames
  nodup : (s.space.anonymousFrames.map (·.physicalAddress)).Nodup

/-- An allocated frame that belongs to someone else. -/
def Outside (s : SpaceState) (a : Word) : Prop :=
  Held s.physical a ∧ a ∉ s.space.ownedFrames ∧
    a ∉ s.space.anonymousFrames.map (·.physicalAddress)

theorem Records.step (h : Records s) (hstep : TableStep s s') : Records s' where
  held r hr := (hstep.outside _).mpr (h.held r (hstep.anonymous ▸ hr))
  nodup := hstep.anonymous ▸ h.nodup

theorem TableStep.others (h : TableStep s s') (a : Word) : Outside s' a ↔ Outside s a := by
  unfold Outside
  rw [← and_assoc, ← and_assoc, h.outside a, h.anonymous]

/-- The space with other records. -/
def SpaceState.setRecords (s : SpaceState) (list : List AnonymousFrame) : SpaceState :=
  { s with space := { s.space with anonymousFrames := list } }

/-- No table depends on the records. -/
theorem SpaceInv.setRecords (h : SpaceInv s) (list : List AnonymousFrame) :
    SpaceInv (s.setRecords list) :=
  ⟨⟨h.frames, h.held, h.nodup, h.reach, h.separated, h.user, h.kernel, h.kernelApart⟩, h.owns, h.used⟩

/-! ## The pages of a list of records -/

/-- The entry of `r`'s page. -/
def AnonymousFrame.At (r : AnonymousFrame) (p : Path) (j : Index) : Prop :=
  p = pathOf r.virtualAddress ∧ j = ptIndex r.virtualAddress

instance (r : AnonymousFrame) (p : Path) (j : Index) : Decidable (r.At p j) :=
  inferInstanceAs (Decidable (_ ∧ _))

/-- From `s₀` to `s` the space has gained the pages of `news`, with their records, and nothing
else. -/
structure Added (s₀ s : SpaceState) (news : List AnonymousFrame) : Prop where
  inv : SpaceInv s
  records : Records s
  anonymous : s.space.anonymousFrames = s₀.space.anonymousFrames ++ news
  distinct : (news.map (·.virtualAddress)).Nodup
  accepted : ∀ r ∈ news, MapAccepted r.virtualAddress r.physicalAddress r.flags
  fresh : ∀ r ∈ news, s₀.page r.virtualAddress = none
  mapped : ∀ r ∈ news, s.page r.virtualAddress = some (mappedEntry r.physicalAddress r.flags)
  rest : ∀ p j, InTree p → p.length = 3 → (∀ r ∈ news, ¬ r.At p j) → s.slot p j = s₀.slot p j
  tables : ∀ p c, InTree p → s₀.table p = some c → s.table p = some c
  accounted : Accounted s₀.physical s.physical
  root : s.space.root = s₀.space.root
  kernel : s.kernelTable = s₀.kernelTable
  outside : ∀ a, Outside s a ↔ Outside s₀ a
  memory : ∀ a, Held s₀.physical a → a ∉ s₀.space.ownedFrames →
    s.physical.memory a = s₀.physical.memory a
  kept : ∀ a, Held s₀.physical a → a ∉ s₀.space.ownedFrames →
    Held s.physical a ∧ a ∉ s.space.ownedFrames

theorem Added.refl (h : SpaceInv s) (hr : Records s) : Added s s [] where
  inv := h
  records := hr
  anonymous := (append_nil _).symm
  distinct := nodup_nil
  accepted := forall_mem_nil _
  fresh := forall_mem_nil _
  mapped := forall_mem_nil _
  rest _ _ _ _ _ := rfl
  tables _ _ _ hc := hc
  accounted := Accounted.refl _
  root := rfl
  kernel := rfl
  outside _ := Iff.rfl
  memory _ _ _ := rfl
  kept _ ha hn := ⟨ha, hn⟩

/-- A frame allocated before is none of the new ones. -/
theorem Added.new_frame_ne (h : Added s₀ s news) (hr : r ∈ news) {a : Word}
    (ha : Held s₀.physical a) (hn : a ∉ s₀.space.ownedFrames) : a ≠ r.physicalAddress := by
  rintro rfl
  have hnodup := h.records.nodup
  rw [h.anonymous, map_append] at hnodup
  have hnew : r.physicalAddress ∈ news.map (·.physicalAddress) := mem_map_of_mem hr
  by_cases hold : r.physicalAddress ∈ s₀.space.anonymousFrames.map (·.physicalAddress)
  · exact (nodup_append.mp hnodup).2.2 _ hold _ hnew rfl
  · have hout := (h.outside r.physicalAddress).mpr ⟨ha, hn, hold⟩
    apply hout.2.2
    rw [h.anonymous, map_append]
    exact mem_append_right _ hnew

/-- The pages of the records, with their frames. -/
def newPages (news : List AnonymousFrame) : List (Nat × Word) :=
  news.map fun r => (r.virtualAddress, r.physicalAddress)

theorem newPages_fst (news : List AnonymousFrame) :
    (newPages news).map Prod.fst = news.map (·.virtualAddress) := map_map

theorem newPages_snd (news : List AnonymousFrame) :
    (newPages news).map Prod.snd = news.map (·.physicalAddress) := map_map

theorem forall_newPages {P : Nat × Word → Prop} :
    (∀ q ∈ newPages news, P q) ↔ ∀ r ∈ news, P (r.virtualAddress, r.physicalAddress) :=
  forall_mem_map

theorem newPages_append (news : List AnonymousFrame) (r : AnonymousFrame) :
    newPages (news ++ [r]) = newPages news ++ [(r.virtualAddress, r.physicalAddress)] :=
  map_append

/-- But for the records, the space has gained the pages with their frames. -/
theorem Added.gained (hr₀ : Records s₀) (h : Added s₀ s news) :
    Gained s₀ (s.setRecords s₀.space.anonymousFrames) (newPages news) where
  inv := h.inv.setRecords _
  distinct := newPages_fst news ▸ h.distinct
  frames := by
    have hnodup := h.records.nodup
    rw [h.anonymous, map_append] at hnodup
    exact newPages_snd news ▸ (nodup_append.mp hnodup).2.1
  accepted := forall_newPages.mpr fun r hr => (h.accepted r hr).1
  fresh := forall_newPages.mpr h.fresh
  mapped := forall_newPages.mpr fun r hr =>
    ⟨_, h.mapped r hr, by rw [(h.accepted r hr).decode]; rfl⟩
  rest p j hp hl hnot := h.rest p j hp hl (forall_newPages.mp hnot)
  tables := h.tables
  accounted := h.accounted
  root := h.root
  kernel := h.kernel
  anonymous := rfl
  unused := forall_newPages.mpr fun r hr hold => h.new_frame_ne hr hold.1 hold.2 rfl
  outside a := by
    rw [newPages_snd]
    constructor
    · intro ha
      by_cases hrec : a ∈ s.space.anonymousFrames.map (·.physicalAddress)
      · rw [h.anonymous, map_append, mem_append] at hrec
        refine hrec.symm.imp_right fun hmem => ?_
        obtain ⟨r, hr, rfl⟩ := mem_map.mp hmem
        exact hr₀.held r hr
      · have hout := (h.outside a).mp ⟨ha.1, ha.2, hrec⟩
        exact .inr ⟨hout.1, hout.2.1⟩
    · rintro (hmem | ⟨ha, hn⟩)
      · obtain ⟨r, hr, rfl⟩ := mem_map.mp hmem
        exact h.records.held r (h.anonymous ▸ mem_append_right _ hr)
      · exact h.kept a ha hn
  memory := h.memory

theorem Added.of_gained (hr₀ : Records s₀)
    (h : Gained s₀ (s.setRecords s₀.space.anonymousFrames) (newPages news))
    (hanonymous : s.space.anonymousFrames = s₀.space.anonymousFrames ++ news)
    (haccepted : ∀ r ∈ news, MapAccepted r.virtualAddress r.physicalAddress r.flags)
    (hmapped : ∀ r ∈ news, s.page r.virtualAddress = some (mappedEntry r.physicalAddress r.flags)) :
    Added s₀ s news where
  inv := h.inv.setRecords s.space.anonymousFrames
  records := by
    refine ⟨fun q hq => (h.outside _).mpr ?_, ?_⟩
    · rw [hanonymous, mem_append] at hq
      exact hq.symm.imp (fun hq => newPages_snd news ▸ mem_map_of_mem hq) (hr₀.held q)
    · rw [hanonymous, map_append]
      refine nodup_append.mpr ⟨hr₀.nodup, newPages_snd news ▸ h.frames, ?_⟩
      rintro a ha _ hb rfl
      obtain ⟨q, hq, rfl⟩ := mem_map.mp ha
      obtain ⟨r, hr, heq⟩ := mem_map.mp hb
      exact forall_newPages.mp h.unused r hr (heq ▸ hr₀.held q hq)
  anonymous := hanonymous
  distinct := newPages_fst news ▸ h.distinct
  accepted := haccepted
  fresh := forall_newPages.mp h.fresh
  mapped := hmapped
  rest p j hp hl hnot := h.rest p j hp hl (forall_newPages.mpr hnot)
  tables := h.tables
  accounted := h.accounted
  root := h.root
  kernel := h.kernel
  outside a := by
    have hout := h.outside a
    rw [newPages_snd] at hout
    unfold Outside
    rw [← and_assoc, ← and_assoc, hanonymous, map_append, mem_append, not_or, ← and_assoc,
      and_right_comm, show (Held s.physical a ∧ a ∉ s.space.ownedFrames) ↔ _ from hout]
    constructor
    · rintro ⟨⟨hor, hno⟩, hold⟩
      exact ⟨hor.resolve_left hno, hold⟩
    · rintro ⟨ha, hold⟩
      refine ⟨⟨.inr ha, fun hmem => ?_⟩, hold⟩
      obtain ⟨r, hr, rfl⟩ := mem_map.mp hmem
      exact forall_newPages.mp h.unused r hr ha
  memory := h.memory
  kept a ha hn := (h.outside a).mpr (.inr ⟨ha, hn⟩)

theorem TableStep.setRecords (h : TableStep s s') (list : List AnonymousFrame) :
    TableStep (s.setRecords list) (s'.setRecords list) :=
  ⟨h.accounted, h.root, rfl, h.outside, h.memory, h.kernel⟩

/-- A failed attempt in between leaves no trace. -/
theorem Added.restored (hr₀ : Records s₀) (h : Added s₀ s news) (hr : Restored s s') :
    Added s₀ s' news := by
  refine .of_gained hr₀ ((h.gained hr₀).restored ?_) (hr.step.anonymous.trans h.anonymous) h.accepted
    fun r hmem => ?_
  · exact ⟨((hr.spaceInv h.inv).setRecords _).toTreeInv, hr.step.setRecords _, hr.owned, hr.slot⟩
  · rw [← h.mapped r hmem]
    exact hr.slot _ _ (UserSlot.of_last (pathOf_inTree (h.accepted r hmem).1) rfl)

/-- One more page at the end. -/
theorem Added.push (hr₀ : Records s₀) (h : Added s₀ s news)
    (hb : BackedPage s s' r.virtualAddress r.physicalAddress r.flags) :
    Added s₀ (s'.record r) (news ++ [r]) := by
  have hback : BackedPage (s.setRecords s₀.space.anonymousFrames)
      (s'.setRecords s₀.space.anonymousFrames) r.virtualAddress r.physicalAddress r.flags :=
    { hb with inv := hb.inv.setRecords _, anonymous := rfl }
  have hnews := newPages_append news r ▸ (h.gained hr₀).push hback
  refine .of_gained hr₀ hnews ?_ ?_ (forall_mem_append.mpr ⟨fun q hq => ?_, ?_⟩)
  · rw [← append_assoc, ← h.anonymous, ← hb.anonymous]
    rfl
  · exact forall_mem_append.mpr ⟨h.accepted, forall_mem_singleton.mpr hb.accepted⟩
  · -- the page of an earlier record is mapped, this one was not
    have hq' := (h.accepted q hq).1
    refine (hb.pages _ _ (pathOf_inTree hq') rfl).trans ((if_neg fun hat => ?_).trans (h.mapped q hq))
    have hmapped := h.mapped q hq
    rw [pathOf_injective hq' hb.accepted.1 hat.1 hat.2, hb.unmapped] at hmapped
    cases hmapped
  · refine forall_mem_singleton.mpr ?_
    exact (hb.pages _ _ (pathOf_inTree hb.accepted.1) rfl).trans (if_pos ⟨rfl, rfl⟩)

theorem popRecord_eq {front : List AnonymousFrame} (h : s.space.anonymousFrames = front ++ [r]) :
    s.popRecord = (s.free r.physicalAddress).setRecords front := by
  rw [SpaceState.popRecord, h, getLast?_concat, dropLast_concat]
  rfl

/-- The last page off again. -/
theorem Added.pop (h₀ : SpaceInv s₀) (hr₀ : Records s₀) (h : Added s₀ s (news ++ [r])) :
    Added s₀ (addressSpaceUnmapPage s r.virtualAddress).2.popRecord news := by
  have hlast : r ∈ news ++ [r] := mem_append_right _ mem_cons_self
  have hva := (h.accepted r hlast).1
  rcases unmapPage_spec h.inv r.virtualAddress with ⟨_, hnone⟩ | ⟨s₁, heq, _, _, hstep, hshrink⟩
  · have hpage := h.mapped r hlast
    rw [hnone hva] at hpage
    cases hpage
  have hanonymous : s₁.space.anonymousFrames = (s₀.space.anonymousFrames ++ news) ++ [r] := by
    rw [hstep.step.anonymous, h.anonymous, append_assoc]
  have hgained := newPages_append news r ▸ h.gained hr₀
  have hunmapped : PageStep (s.setRecords s₀.space.anonymousFrames)
      (s₁.setRecords s₀.space.anonymousFrames) r.virtualAddress none :=
    ⟨hstep.inv.setRecords _, hstep.step.setRecords _, hstep.pages⟩
  have hdrop := (hgained.perm (perm_append_singleton _ _)).drop h₀ hunmapped hshrink
  rw [heq, popRecord_eq hanonymous]
  refine .of_gained hr₀ hdrop rfl (fun q hq => h.accepted q (mem_append_left _ hq)) fun q hq => ?_
  have hq' := mem_append_left [r] hq
  have hdistinct := h.distinct
  rw [map_append] at hdistinct
  have hne : q.virtualAddress ≠ r.virtualAddress := fun heq =>
    (nodup_append.mp hdistinct).2.2 _ (mem_map_of_mem hq) _ mem_cons_self heq
  obtain ⟨hheld, howned⟩ := (hstep.step.outside _).mpr
    (h.records.held r (h.anonymous ▸ mem_append_right _ hlast))
  have hkeeps := (free_keeps hstep.inv hheld howned).2.2 _ (pathOf_inTree (h.accepted q hq').1)
  refine (hkeeps.2 _).trans ?_
  exact (hstep.page hva (h.accepted q hq').1).trans ((if_neg hne).trans (h.mapped q hq'))

/-! ## Nothing happened -/

/-- Pages, records, owned frames and the allocator are the same; only the contents of free frames
may differ. -/
structure Unchanged (s s' : SpaceState) : Prop where
  inv : SpaceInv s'
  records : Records s'
  pages : ∀ p j, InTree p → p.length = 3 → s'.slot p j = s.slot p j
  root : s'.space.root = s.space.root
  anonymous : s'.space.anonymousFrames = s.space.anonymousFrames
  owned : ∀ a, a ∈ s'.space.ownedFrames ↔ a ∈ s.space.ownedFrames
  held : ∀ a, Held s'.physical a ↔ Held s.physical a
  allocator : SameAllocator s.physical s'.physical
  memory : ∀ a, Held s.physical a → a ∉ s.space.ownedFrames →
    s'.physical.memory a = s.physical.memory a

theorem Unchanged.refl (h : SpaceInv s) (hr : Records s) : Unchanged s s :=
  ⟨h, hr, fun _ _ _ _ => rfl, rfl, rfl, fun _ => Iff.rfl, fun _ => Iff.rfl, ⟨rfl, rfl, rfl⟩,
    fun _ _ _ => rfl⟩

theorem Unchanged.page (h : Unchanged s s') {va : Nat} (hva : pageAccepted va = true) :
    s'.page va = s.page va := h.pages _ _ (pathOf_inTree hva) rfl

theorem Restored.unchanged (h : Restored s s') (hs : SpaceInv s) (hr : Records s) :
    Unchanged s s' where
  inv := h.spaceInv hs
  records := hr.step h.step
  pages p j hp hl := h.slot p j (UserSlot.of_last hp hl)
  root := h.step.root
  anonymous := h.step.anonymous
  owned _ := by rw [h.owned]
  held := h.held hs.toTreeInv
  allocator := h.allocator hs.toTreeInv
  memory := h.step.memory

/-- With every page off again, the tables made for them are gone too: each table has a page below
it. -/
theorem Added.unchanged (h₀ : SpaceInv s₀) (hr₀ : Records s₀) (h : Added s₀ s []) :
    Unchanged s₀ s := by
  have hpages : ∀ p j, InTree p → p.length = 3 → s.slot p j = s₀.slot p j :=
    fun p j hp hl => h.rest p j hp hl (forall_mem_nil _)
  have hanonymous : s.space.anonymousFrames = s₀.space.anonymousFrames := by
    rw [h.anonymous, append_nil]
  have howned : ∀ a, a ∈ s.space.ownedFrames ↔ a ∈ s₀.space.ownedFrames := by
    intro a
    constructor
    · intro ha
      rcases h.inv.owns a ha with hk | ⟨p, hp, hpa⟩
      · rw [hk, h.kernel]
        exact h₀.kernel
      · obtain ⟨c, hc⟩ := h.inv.exists_table s₀ hp hpa fun q j hq hl hj => by
          rwa [← hpages q j hq hl]
        have hsame := h.tables p c hp hc
        rw [hpa] at hsame
        exact Option.some.inj hsame ▸ h₀.reach p c hp hc
    · intro ha
      rcases h₀.owns a ha with hk | ⟨p, hp, hpa⟩
      · rw [hk, ← h.kernel]
        exact h.inv.kernel
      · exact h.inv.reach p a hp (h.tables p a hp hpa)
  have hheld : ∀ a, Held s.physical a ↔ Held s₀.physical a := by
    intro a
    by_cases hmem : a ∈ s₀.space.ownedFrames
    · exact ⟨fun _ => h₀.held a hmem, fun _ => h.inv.held a ((howned a).mpr hmem)⟩
    · by_cases hrec : a ∈ s₀.space.anonymousFrames.map (·.physicalAddress)
      · obtain ⟨r, hr, rfl⟩ := mem_map.mp hrec
        exact ⟨fun _ => (hr₀.held r hr).1, fun _ => (h.records.held r (hanonymous ▸ hr)).1⟩
      · have hout := h.outside a
        unfold Outside at hout
        rw [howned a, hanonymous] at hout
        exact ⟨fun ha => (hout.mp ⟨ha, hmem, hrec⟩).1, fun ha => (hout.mpr ⟨ha, hmem, hrec⟩).1⟩
  exact ⟨h.inv, h.records, hpages, h.root, hanonymous, howned, hheld,
    h.accounted.same h₀.frames hheld, h.memory⟩

/-- With every page off again nothing has happened. -/
theorem Gained.unchanged (h₀ : SpaceInv s₀) (hr₀ : Records s₀) (h : Gained s₀ s []) : Unchanged s₀ s := by
  have hnone : ∀ r ∈ ([] : List AnonymousFrame), False := fun _ => not_mem_nil
  exact Added.unchanged h₀ hr₀ (.of_gained hr₀
    { h with inv := h.inv.setRecords _, anonymous := rfl } (by rw [h.anonymous, append_nil])
    (fun r hr => (hnone r hr).elim) fun r hr => (hnone r hr).elim)

end KernelBoot.Mm
