import KernelBoot.Laws.Mm.AddressSpace

/-!
# Pages that come with frames of their own

A loader maps pages one at a time, each to a fresh frame, may change their permissions and fill their
frames, and takes them all away again when it fails. `Gained` is what holds in between: from `s₀` the
space has gained the pages of a list and no others, and the frames of the list are the only ones that
are not tables and were not allocated before. With the list empty again nothing has happened.
-/

namespace KernelBoot.Mm

open Lib List

variable {s s' : SpaceState} {b : Word}
variable {flags : Word} {va : Nat}

/-! ## One frame for data -/

/-- Freeing a frame that is no table. -/
theorem free_keeps (h : SpaceInv s) (hb : Held s.physical b) (hnot : b ∉ s.space.ownedFrames) :
    SpaceInv (s.free b) ∧ (s.free b).kernelTable = s.kernelTable ∧
      ∀ p, InTree p → (s.free b).table p = s.table p ∧ ∀ i, (s.free b).slot p i = s.slot p i := by
  have hacc : Accounted s.physical (s.free b).physical := accounted_physicalFreeFrames s.physical b 1
  refine h.of_memory (s.free b) rfl rfl (fun a _ => ?_) (hacc.inv h.frames) fun a ha => ?_
  · exact congrFun (physicalFreeFrame_memory s.physical b) a
  · exact (physicalFreeFrame_spec h.frames hb a).mpr ⟨h.held a ha, fun heq => hnot (heq ▸ ha)⟩

theorem free_held (h : SpaceInv s) (hb : Held s.physical b) (a : Word) :
    Held (s.free b).physical a ↔ Held s.physical a ∧ a ≠ b :=
  physicalFreeFrame_spec h.frames hb a

/-- A page newly backed by the frame `b`. -/
structure BackedPage (s s' : SpaceState) (va : Nat) (b flags : Word) : Prop where
  accepted : MapAccepted va b flags
  unmapped : s.page va = none
  inv : SpaceInv s'
  pages : ∀ p j, InTree p → p.length = 3 →
    s'.slot p j = if p = pathOf va ∧ j = ptIndex va then some (mappedEntry b flags) else s.slot p j
  tables : ∀ p c, InTree p → s.table p = some c → s'.table p = some c
  accounted : Accounted s.physical s'.physical
  root : s'.space.root = s.space.root
  kernel : s'.kernelTable = s.kernelTable
  anonymous : s'.space.anonymousFrames = s.space.anonymousFrames
  fresh : ¬ Held s.physical b
  outside : ∀ a, (Held s'.physical a ∧ a ∉ s'.space.ownedFrames) ↔
    a = b ∨ (Held s.physical a ∧ a ∉ s.space.ownedFrames)
  memory : ∀ a, Held s.physical a → a ∉ s.space.ownedFrames →
    s'.physical.memory a = s.physical.memory a

/-- Backing a page fails and restores the space, or gives it a frame that was not allocated. -/
theorem backPage_spec (h : SpaceInv s) (va : Nat) (huser : (flags &&& addressSpaceUser) ≠ 0) :
    (∃ s', addressSpaceBackPage s va flags = (none, s') ∧ Restored s s') ∨
    ∃ b s', addressSpaceBackPage s va flags = (some b, s') ∧ BackedPage s s' va b flags := by
  unfold addressSpaceBackPage
  rcases physicalAllocFrame_spec h.frames with hnone | ⟨b, q, heq, hb, hfresh, hheld, hmemory⟩
  · rw [hnone]
    exact .inl ⟨s, rfl, Restored.refl h.toTreeInv⟩
  have hacc : Accounted s.physical q := by
    have hacc := accounted_physicalAllocFrames s.physical 1
    rwa [show physicalAllocFrames s.physical 1 = (b, q) from heq] at hacc
  have hnot : b ∉ s.space.ownedFrames := fun hmem => hfresh (h.held b hmem)
  have hold : ∀ a, a ≠ b → q.memory a = s.physical.memory a := by
    intro a hne
    rw [hmemory, Function.update_of_ne hne]
  obtain ⟨hinv, hkernel, hsame⟩ := h.of_memory { s with physical := q } rfl rfl
    (fun a ha => hold a fun heq => hnot (heq ▸ ha)) (hacc.inv h.frames)
    (fun a ha => (hheld a).mpr (.inr (h.held a ha)))
  have hpage : SpaceState.page { s with physical := q } va = s.page va ∨ pageAccepted va = false := by
    cases hva : pageAccepted va with
    | false => exact .inr rfl
    | true => exact .inl ((hsame _ (pathOf_inTree hva)).2 _)
  rw [heq]
  simp only [if_neg hb]
  rcases mapPage_spec hinv va b huser with
    ⟨s', hmap, hrest⟩ | ⟨s', hmap, haccepted, hunmapped, hstep, htables⟩
  · rw [hmap]
    have hrestInv := hrest.spaceInv hinv
    have hheldb : Held s'.physical b := (hrest.held hinv.toTreeInv b).mpr ((hheld b).mpr (.inl rfl))
    have hnotb : b ∉ s'.space.ownedFrames := by
      rw [hrest.owned]
      exact hnot
    obtain ⟨hfreeInv, hfreeKernel, hfreeSame⟩ := free_keeps hrestInv hheldb hnotb
    refine .inl ⟨s'.free b, rfl, hfreeInv.toTreeInv, ⟨?_, hrest.step.root, hrest.step.anonymous,
      fun a => ?_, fun a ha howned => ?_, ?_⟩, hrest.owned, fun p i hp => ?_⟩
    · exact (hacc.trans hrest.step.accounted).trans (accounted_physicalFreeFrames s'.physical b 1)
    · change (Held (s'.free b).physical a ∧ a ∉ s'.space.ownedFrames) ↔ _
      rw [free_held hrestInv hheldb, hrest.held hinv.toTreeInv a, hrest.owned]
      change ((Held q a ∧ a ≠ b) ∧ a ∉ s.space.ownedFrames) ↔ _
      rw [hheld a]
      constructor
      · rintro ⟨⟨ha | ha, hne⟩, hno⟩
        · exact absurd ha hne
        · exact ⟨ha, hno⟩
      · rintro ⟨ha, hno⟩
        exact ⟨⟨.inr ha, fun heq => hfresh (heq ▸ ha)⟩, hno⟩
    · have hne : a ≠ b := fun heq => hfresh (heq ▸ ha)
      change (s'.free b).physical.memory a = _
      rw [show (s'.free b).physical.memory = s'.physical.memory from
        physicalFreeFrame_memory s'.physical b,
        hrest.step.memory a ((hheld a).mpr (.inr ha)) howned]
      exact hold a hne
    · exact hfreeKernel.trans (hrest.step.kernel.trans hkernel)
    · rw [(hfreeSame p hp.1).2 i, hrest.slot p i hp, (hsame p hp.1).2 i]
  · rw [hmap]
    refine .inr ⟨b, s', rfl, haccepted, ?_, hstep.inv, fun p j hp hl => ?_, fun p c hp hc => ?_,
      hacc.trans hstep.step.accounted, hstep.step.root, hstep.step.kernel.trans hkernel,
      hstep.step.anonymous, hfresh, fun a => ?_, fun a ha howned => ?_⟩
    · rcases hpage with hpage | hrefused
      · exact hpage.symm.trans hunmapped
      · rw [haccepted.1] at hrefused
        cases hrefused
    · rw [hstep.pages p j hp hl, (hsame p hp).2 j]
    · exact htables p c hp ((hsame p hp).1.trans hc)
    · rw [hstep.step.outside a]
      change (Held q a ∧ a ∉ s.space.ownedFrames) ↔ _
      rw [hheld a]
      constructor
      · rintro ⟨ha | ha, hno⟩
        · exact .inl ha
        · exact .inr ⟨ha, hno⟩
      · rintro (ha | ⟨ha, hno⟩)
        · exact ⟨.inl ha, ha ▸ hnot⟩
        · exact ⟨.inr ha, hno⟩
    · rw [hstep.step.memory a ((hheld a).mpr (.inr ha)) howned]
      exact hold a fun heq => hfresh (heq ▸ ha)

/-- The new frame may be filled. -/
theorem BackedPage.setPage (h : BackedPage s s' va b flags) (page : Page) :
    BackedPage s (s'.setPage b page) va b flags := by
  have hb := (h.outside b).mpr (.inl rfl)
  have hold : ∀ a, a ≠ b → (s'.setPage b page).physical.memory a = s'.physical.memory a :=
    fun a hne => Function.update_of_ne hne _ _
  obtain ⟨hinv, hkernel, hsame⟩ := h.inv.of_memory (s'.setPage b page) rfl rfl
    (fun a ha => hold a fun heq => hb.2 (heq ▸ ha)) ((Accounted.withMemory _ _).inv h.inv.frames)
    h.inv.held
  exact { h with
    inv := hinv
    pages := fun p j hp hl => ((hsame p hp).2 j).trans (h.pages p j hp hl)
    tables := fun p c hp hc => (hsame p hp).1.trans (h.tables p c hp hc)
    accounted := h.accounted.trans (Accounted.withMemory _ _)
    kernel := hkernel.trans h.kernel
    memory := fun a ha howned => (hold a fun heq => h.fresh (heq ▸ ha)).trans (h.memory a ha howned) }

/-- A new entry says what was asked for. -/
theorem MapAccepted.decode {pa : Word} (h : MapAccepted va pa flags) :
    decodeEntry (mappedEntry pa flags) = requestedEntry pa flags :=
  decode_mappedEntry (address_within h.2.1 h.2.2.1) (beq_iff_eq.mp h.2.2.2)

/-! ## A list of pages -/

/-- The space with other contents in memory. -/
def SpaceState.withContents (s : SpaceState) (memory : Word → Page) : SpaceState :=
  { s with physical := { s.physical with memory } }

/-- From `s₀` to `s` the space has gained these pages, each with its frame, and nothing else. -/
structure Gained (s₀ s : SpaceState) (news : List (Nat × Word)) : Prop where
  inv : SpaceInv s
  distinct : (news.map Prod.fst).Nodup
  frames : (news.map Prod.snd).Nodup
  accepted : ∀ r ∈ news, pageAccepted r.1 = true
  fresh : ∀ r ∈ news, s₀.page r.1 = none
  mapped : ∀ r ∈ news, ∃ e, s.page r.1 = some e ∧ (decodeEntry e).frame = r.2
  rest : ∀ p j, InTree p → p.length = 3 → (∀ r ∈ news, ¬ (p = pathOf r.1 ∧ j = ptIndex r.1)) →
    s.slot p j = s₀.slot p j
  tables : ∀ p c, InTree p → s₀.table p = some c → s.table p = some c
  accounted : Accounted s₀.physical s.physical
  root : s.space.root = s₀.space.root
  kernel : s.kernelTable = s₀.kernelTable
  anonymous : s.space.anonymousFrames = s₀.space.anonymousFrames
  unused : ∀ r ∈ news, ¬ (Held s₀.physical r.2 ∧ r.2 ∉ s₀.space.ownedFrames)
  outside : ∀ a, (Held s.physical a ∧ a ∉ s.space.ownedFrames) ↔
    a ∈ news.map Prod.snd ∨ (Held s₀.physical a ∧ a ∉ s₀.space.ownedFrames)
  memory : ∀ a, Held s₀.physical a → a ∉ s₀.space.ownedFrames →
    s.physical.memory a = s₀.physical.memory a

namespace Gained

theorem refl (h : SpaceInv s) : Gained s s [] where
  inv := h
  distinct := nodup_nil
  frames := nodup_nil
  accepted := forall_mem_nil _
  fresh := forall_mem_nil _
  mapped := forall_mem_nil _
  rest _ _ _ _ _ := rfl
  tables _ _ _ hc := hc
  accounted := Accounted.refl _
  root := rfl
  kernel := rfl
  anonymous := rfl
  unused := forall_mem_nil _
  outside a := by rw [map_nil]; exact ⟨.inr, fun h => h.resolve_left not_mem_nil⟩
  memory _ _ _ := rfl

variable {s₀ : SpaceState} {news : List (Nat × Word)} {r : Nat × Word}

section

variable (h : Gained s₀ s news)

include h

/-- A new frame is allocated, and no table. -/
theorem frame_outside (hr : r ∈ news) :
    Held s.physical r.2 ∧ r.2 ∉ s.space.ownedFrames :=
  (h.outside r.2).mpr (.inl (mem_map_of_mem hr))

/-- No page beside the gained ones is another one than before. -/
theorem page_eq (hva : pageAccepted va = true) (hne : va ∉ news.map Prod.fst) :
    s.page va = s₀.page va := by
  refine h.rest _ _ (pathOf_inTree hva) rfl fun r hr hat => hne ?_
  rw [pathOf_injective hva (h.accepted r hr) hat.1 hat.2]
  exact mem_map_of_mem hr

/-- Steps that leave the tables where they are and move no frame of others. -/
theorem step (hinv : SpaceInv s') (hstep : TableStep s s')
    (htables : ∀ p, InTree p → s'.table p = s.table p)
    (hmapped : ∀ r ∈ news, ∃ e, s'.page r.1 = some e ∧ (decodeEntry e).frame = r.2)
    (hrest : ∀ p j, InTree p → p.length = 3 →
      (∀ r ∈ news, ¬ (p = pathOf r.1 ∧ j = ptIndex r.1)) → s'.slot p j = s.slot p j) :
    Gained s₀ s' news :=
  { h with
    inv := hinv
    mapped := hmapped
    rest := fun p j hp hl hnot => (hrest p j hp hl hnot).trans (h.rest p j hp hl hnot)
    tables := fun p c hp hc => (htables p hp).trans (h.tables p c hp hc)
    accounted := h.accounted.trans hstep.accounted
    root := hstep.root.trans h.root
    kernel := hstep.kernel.trans h.kernel
    anonymous := hstep.anonymous.trans h.anonymous
    outside := fun a => (hstep.outside a).trans (h.outside a)
    memory := fun a ha hn => by
      obtain ⟨ha', hn'⟩ := (h.outside a).mpr (.inr ⟨ha, hn⟩)
      exact (hstep.memory a ha' hn').trans (h.memory a ha hn) }

theorem restored (hr : Restored s s') : Gained s₀ s' news := by
  refine h.step (hr.spaceInv h.inv) hr.step (fun p => hr.table) (fun r hmem => ?_)
    fun p j hp hl _ => hr.slot p j (UserSlot.of_last hp hl)
  obtain ⟨e, he, hframe⟩ := h.mapped r hmem
  exact ⟨e, (hr.slot _ _ (UserSlot.of_last (pathOf_inTree (h.accepted r hmem)) rfl)).trans he, hframe⟩

/-- One more page at the end. -/
theorem push {b : Word} (hb : BackedPage s s' va b flags) :
    Gained s₀ s' (news ++ [(va, b)]) := by
  have hva := hb.accepted.1
  have hhere : va ∉ news.map Prod.fst := by
    intro hmem
    obtain ⟨r, hr, rfl⟩ := mem_map.mp hmem
    obtain ⟨e, he, -⟩ := h.mapped r hr
    rw [hb.unmapped] at he
    cases he
  have hslot : ∀ r ∈ news, s'.page r.1 = s.page r.1 := by
    intro r hr
    refine (hb.pages _ _ (pathOf_inTree (h.accepted r hr)) rfl).trans (if_neg fun hat => ?_)
    exact hhere (pathOf_injective (h.accepted r hr) hva hat.1 hat.2 ▸ mem_map_of_mem hr)
  have hfresh : ¬ (Held s.physical b ∧ b ∉ s.space.ownedFrames) := fun hboth => hb.fresh hboth.1
  rw [h.outside, not_or] at hfresh
  exact {
    inv := hb.inv
    distinct := by
      rw [map_append]
      exact nodup_append_single h.distinct hhere
    frames := by
      rw [map_append]
      exact nodup_append_single h.frames hfresh.1
    accepted := forall_mem_append.mpr ⟨h.accepted, forall_mem_singleton.mpr hva⟩
    fresh := forall_mem_append.mpr ⟨h.fresh,
      forall_mem_singleton.mpr ((h.page_eq hva hhere).symm.trans hb.unmapped)⟩
    mapped := by
      refine forall_mem_append.mpr ⟨fun r hr => ?_, forall_mem_singleton.mpr ?_⟩
      · rw [hslot r hr]
        exact h.mapped r hr
      · refine ⟨_, (hb.pages _ _ (pathOf_inTree hva) rfl).trans (if_pos ⟨rfl, rfl⟩), ?_⟩
        rw [hb.accepted.decode]
        rfl
    rest := by
      intro p j hp hl hnot
      rw [hb.pages p j hp hl, if_neg (hnot (va, b) (mem_append_right _ mem_cons_self))]
      exact h.rest p j hp hl fun r hr => hnot r (mem_append_left _ hr)
    tables := fun p c hp hc => hb.tables p c hp (h.tables p c hp hc)
    accounted := h.accounted.trans hb.accounted
    root := hb.root.trans h.root
    kernel := hb.kernel.trans h.kernel
    anonymous := hb.anonymous.trans h.anonymous
    unused := forall_mem_append.mpr ⟨h.unused, forall_mem_singleton.mpr hfresh.2⟩
    outside := by
      intro a
      rw [hb.outside a, h.outside a, map_append, mem_append, map_singleton,
        mem_singleton, or_assoc, or_left_comm]
    memory := by
      intro a ha hn
      obtain ⟨ha', hn'⟩ := (h.outside a).mpr (.inr ⟨ha, hn⟩)
      exact (hb.memory a ha' hn').trans (h.memory a ha hn) }

/-- Other permissions for one of the pages. -/
theorem reflag (hr : r ∈ news) {e : Word}
    (hstep : PageStep s s' r.1 (some e)) (hframe : (decodeEntry e).frame = r.2)
    (htables : ∀ p, InTree p → s'.table p = s.table p) : Gained s₀ s' news := by
  refine h.step hstep.inv hstep.step htables (fun q hq => ?_) fun p j hp hl hnot => ?_
  · rw [hstep.page (h.accepted r hr) (h.accepted q hq)]
    by_cases heq : q.1 = r.1
    · have hsame : q = r := inj_on_of_nodup_map h.distinct hq hr heq
      rw [if_pos heq, hsame]
      exact ⟨e, rfl, hframe⟩
    · rw [if_neg heq]
      exact h.mapped q hq
  · rw [hstep.pages p j hp hl, if_neg (hnot r hr)]

/-- Other contents for one of the frames. -/
theorem fill (hr : r ∈ news) {memory : Word → Page}
    (hsame : ∀ a, a ≠ r.2 → memory a = s.physical.memory a) :
    Gained s₀ (s.withContents memory) news ∧
      ∀ va, pageAccepted va = true → (s.withContents memory).page va = s.page va := by
  obtain ⟨hheld, howned⟩ := h.frame_outside hr
  obtain ⟨hinv, hkernel, htree⟩ := h.inv.of_memory (s.withContents memory) rfl rfl
    (fun a ha => hsame a fun heq => howned (heq ▸ ha)) ((Accounted.withMemory _ _).inv h.inv.frames)
    h.inv.held
  have hpage : ∀ va, pageAccepted va = true → (s.withContents memory).page va = s.page va :=
    fun va hva => (htree _ (pathOf_inTree hva)).2 _
  refine ⟨{ h with
    inv := hinv
    mapped := fun q hq => by
      rw [hpage _ (h.accepted q hq)]
      exact h.mapped q hq
    rest := fun p j hp hl hnot => ((htree p hp).2 j).trans (h.rest p j hp hl hnot)
    tables := fun p c hp hc => (htree p hp).1.trans (h.tables p c hp hc)
    accounted := h.accounted.trans (Accounted.withMemory _ _)
    kernel := hkernel.trans h.kernel
    memory := fun a ha hn => ?_ }, hpage⟩
  exact (hsame a fun heq => h.unused r hr (heq ▸ ⟨ha, hn⟩)).trans (h.memory a ha hn)

/-- The order of the pages does not matter. -/
theorem perm {news' : List (Nat × Word)} (hp : news.Perm news') :
    Gained s₀ s news' :=
  { h with
    distinct := (hp.map _).nodup_iff.mp h.distinct
    frames := (hp.map _).nodup_iff.mp h.frames
    accepted := fun r hr => h.accepted r (hp.mem_iff.mpr hr)
    fresh := fun r hr => h.fresh r (hp.mem_iff.mpr hr)
    mapped := fun r hr => h.mapped r (hp.mem_iff.mpr hr)
    rest := fun p j ht hl hnot => h.rest p j ht hl fun r hr => hnot r (hp.mem_iff.mp hr)
    unused := fun r hr => h.unused r (hp.mem_iff.mpr hr)
    outside := fun a => by rw [← (hp.map Prod.snd).mem_iff, h.outside] }

end

/-- The first page off again, and its frame freed. -/
theorem drop (h₀ : SpaceInv s₀) (h : Gained s₀ s (r :: news)) {s₁ : SpaceState}
    (hstep : PageStep s s₁ r.1 none)
    (hshrink : ∀ p d, InTree p → s₁.table p = some d → s.table p = some d) :
    Gained s₀ (s₁.free r.2) news := by
  have hfirst : r ∈ r :: news := mem_cons_self
  have hva := h.accepted r hfirst
  obtain ⟨hheld, howned⟩ := (hstep.step.outside _).mpr (h.frame_outside hfirst)
  obtain ⟨hinv, hkernel, hsame⟩ := free_keeps hstep.inv hheld howned
  have hslots : ∀ p j, InTree p → p.length = 3 → (s₁.free r.2).slot p j =
      if p = pathOf r.1 ∧ j = ptIndex r.1 then none else s.slot p j :=
    fun p j hp hl => ((hsame p hp).2 j).trans (hstep.pages p j hp hl)
  obtain ⟨hnotin, hdistinct⟩ := nodup_cons.mp h.distinct
  obtain ⟨hother, hframes⟩ := nodup_cons.mp h.frames
  have hrest : ∀ p j, InTree p → p.length = 3 →
      (∀ q ∈ news, ¬ (p = pathOf q.1 ∧ j = ptIndex q.1)) → (s₁.free r.2).slot p j = s₀.slot p j := by
    intro p j hp hl hnot
    rw [hslots p j hp hl]
    by_cases hat : p = pathOf r.1 ∧ j = ptIndex r.1
    · rw [if_pos hat, hat.1, hat.2]
      exact (h.fresh r hfirst).symm
    · rw [if_neg hat]
      exact h.rest p j hp hl (forall_mem_cons.mpr ⟨hat, hnot⟩)
  exact {
    inv := hinv
    distinct := hdistinct
    frames := hframes
    accepted := fun q hq => h.accepted q (mem_cons_of_mem _ hq)
    fresh := fun q hq => h.fresh q (mem_cons_of_mem _ hq)
    mapped := by
      intro q hq
      obtain ⟨e, he, hframe⟩ := h.mapped q (mem_cons_of_mem _ hq)
      have hva' := h.accepted q (mem_cons_of_mem _ hq)
      refine ⟨e, (hslots _ _ (pathOf_inTree hva') rfl).trans ((if_neg fun hat => ?_).trans he), hframe⟩
      exact hnotin (pathOf_injective hva' hva hat.1 hat.2 ▸ mem_map_of_mem hq)
    rest := hrest
    tables := by
      intro p c hp hc
      -- the pages of `s₀` are still there, and with them their tables
      obtain ⟨d, hd⟩ := h₀.exists_table s₁ hp hc fun q j hq hl hj => by
        rw [← (hsame q hq).2 j]
        exact (hrest q j hq hl fun n hn hat => hj (by
          rw [hat.1, hat.2]
          exact h.fresh n (mem_cons_of_mem _ hn))).trans_ne hj
      have hback := hshrink p d hp hd
      rw [h.tables p c hp hc] at hback
      exact (hsame p hp).1.trans (hd.trans hback.symm)
    accounted := (h.accounted.trans hstep.step.accounted).trans
      (accounted_physicalFreeFrames s₁.physical r.2 1)
    root := hstep.step.root.trans h.root
    kernel := hkernel.trans (hstep.step.kernel.trans h.kernel)
    anonymous := hstep.step.anonymous.trans h.anonymous
    unused := fun q hq => h.unused q (mem_cons_of_mem _ hq)
    outside := by
      intro a
      change (Held (s₁.free r.2).physical a ∧ a ∉ s₁.space.ownedFrames) ↔ _
      have hbefore := (hstep.step.outside a).trans (h.outside a)
      rw [map_cons, mem_cons] at hbefore
      rw [free_held hstep.inv hheld, and_right_comm, hbefore]
      constructor
      · rintro ⟨(ha | ha) | ha, hne⟩
        · exact absurd ha hne
        · exact .inl ha
        · exact .inr ha
      · rintro (ha | ha)
        · exact ⟨.inl (.inr ha), fun heq => hother (heq ▸ ha)⟩
        · exact ⟨.inr ha, fun heq => h.unused r hfirst (heq ▸ ha)⟩
    memory := by
      intro a ha hn
      obtain ⟨ha', hn'⟩ := (h.outside a).mpr (.inr ⟨ha, hn⟩)
      refine (congrFun (physicalFreeFrame_memory s₁.physical r.2) a).trans ?_
      exact (hstep.step.memory a ha' hn').trans (h.memory a ha hn) }

theorem pop (h₀ : SpaceInv s₀) (h : Gained s₀ s (r :: news)) :
    Gained s₀ ((addressSpaceUnmapPage s r.1).2.free r.2) news := by
  obtain ⟨e, hpage, -⟩ := h.mapped r mem_cons_self
  rcases unmapPage_spec h.inv r.1 with ⟨_, hnone⟩ | ⟨s₁, heq, _, _, hstep, hshrink⟩
  · rw [hnone (h.accepted r mem_cons_self)] at hpage
    cases hpage
  · rw [heq]
    exact h.drop h₀ hstep hshrink

end Gained

end KernelBoot.Mm
