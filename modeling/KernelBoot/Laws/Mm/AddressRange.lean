import KernelBoot.Laws.Mm.AnonymousPages

/-!
# Ranges of pages, and a new space

The requests over a range of pages, each from its loop: mapping adds a record a page, unmapping drops
one, protecting rewrites the entries. And what a space is when it is created.
-/

namespace KernelBoot.Mm

open Lib List Function

variable {a n va : Nat} {s s₀ : SpaceState}
variable {news : List AnonymousFrame} {r : AnonymousFrame}

/-- The addresses of the pages of a range. -/
def rangePages (virtualAddress pages : Nat) : List Nat :=
  (List.range pages).map fun page => virtualAddress + page * pageSize

theorem mem_rangePages : a ∈ rangePages va n ↔ ∃ k < n, a = va + k * pageSize := by
  simp only [rangePages, mem_map, mem_range]
  exact exists_congr fun k => and_congr_right fun _ => eq_comm

theorem rangePages_zero (va : Nat) : rangePages va 0 = [] := rfl

theorem rangePages_succ (va n : Nat) :
    rangePages va (n + 1) = rangePages va n ++ [va + n * pageSize] := by
  rw [rangePages, rangePages, range_succ, map_append]
  rfl

theorem rangePages_cons (va n : Nat) :
    rangePages va (n + 1) = va :: rangePages (va + pageSize) n := by
  rw [rangePages, rangePages, range_succ_eq_map, map_cons, map_map, Nat.zero_mul,
    Nat.add_zero]
  refine congrArg (va :: ·) (map_congr_left fun k _ => ?_)
  simp only [comp_apply, Nat.succ_mul]
  omega

theorem rangePages_nodup (va n : Nat) : (rangePages va n).Nodup := by
  refine List.Nodup.map (fun k l h => ?_) nodup_range
  have heq : va + k * 4096 = va + l * 4096 := h
  omega

theorem rangeAccepted_iff (va n : Nat) : userRangeAccepted va n = true ↔
    n ≠ 0 ∧ n ≤ 128 ∧ va % 4096 = 0 ∧ 2 ^ 39 ≤ va ∧ va + n * 4096 ≤ 2 ^ 48 := by
  simp only [userRangeAccepted, rangeAccepted, Bool.and_eq_true, decide_eq_true_eq, beq_iff_eq]
  unfold pageSize addressSpaceMaxAnonymousPages
  omega

/-- Every page of an accepted range is accepted. -/
theorem rangePages_accepted (h : userRangeAccepted va n = true) (ha : a ∈ rangePages va n) :
    pageAccepted a = true := by
  obtain ⟨_, _, haligned, hlow, hhigh⟩ := (rangeAccepted_iff va n).mp h
  obtain ⟨k, hk, rfl⟩ := mem_rangePages.mp ha
  rw [pageAccepted_iff]
  have hsize : pageSize = 4096 := rfl
  rw [hsize]
  omega

/-- The flags of a request, with the user bit, are flags of a page. -/
theorem rangeFlags_user {flags : Word} (h : flagsAccepted rangeFlags flags = true) :
    flagsAccepted pageFlags (flags ||| addressSpaceUser) = true := by
  rw [flagsAccepted, beq_iff_eq] at h ⊢
  rw [or_and_of_left (by decide)]
  exact and_eq_zero_of_within h (by decide)

theorem user_of_or (flags : Word) : ((flags ||| addressSpaceUser) &&& addressSpaceUser) ≠ 0 :=
  or_and_ne_zero_right (by decide)

/-! ## Mapping a range -/

theorem unmapMapped_spec (h₀ : SpaceInv s₀) (hr₀ : Records s₀) (va : Nat) {mapped : Nat}
    (h : Added s₀ s news) (hnews : news.map (·.virtualAddress) = rangePages va mapped) :
    Added s₀ (unmapMapped va mapped s) [] := by
  induction mapped generalizing s news with
  | zero =>
    rw [map_eq_nil_iff.mp hnews] at h
    exact h
  | succ mapped ih =>
    rw [rangePages_succ] at hnews
    obtain ⟨front, last, rfl, hfront, hlast⟩ := map_eq_append_iff.mp hnews
    obtain ⟨r, rfl, hr⟩ := map_eq_singleton_iff.mp hlast
    rw [unmapMapped, ← hr]
    exact ih (h.pop h₀ hr₀) hfront

theorem mapAnonymousPages_spec (h₀ : SpaceInv s₀) (hr₀ : Records s₀) (va : Nat) (flags : Word)
    (remaining : Nat) {mapped : Nat} (h : Added s₀ s news)
    (hnews : news.map (·.virtualAddress) = rangePages va mapped)
    (hflags : ∀ r ∈ news, r.flags = flags ||| addressSpaceUser) :
    (∃ s', mapAnonymousPages va flags remaining mapped s = (false, s') ∧ Added s₀ s' []) ∨
    ∃ s' news', mapAnonymousPages va flags remaining mapped s = (true, s') ∧ Added s₀ s' news' ∧
      news'.map (·.virtualAddress) = rangePages va (mapped + remaining) ∧
      ∀ r ∈ news', r.flags = flags ||| addressSpaceUser := by
  induction remaining generalizing mapped s news with
  | zero => exact .inr ⟨s, news, rfl, h, hnews, hflags⟩
  | succ remaining ih =>
    rw [mapAnonymousPages]
    rcases backPage_spec h.inv (va + mapped * pageSize) (user_of_or flags) with
      ⟨s', heq, hrest⟩ | ⟨b, s', heq, hback⟩
    · simp only [heq]
      exact .inl ⟨_, rfl, unmapMapped_spec h₀ hr₀ va (h.restored hr₀ hrest) hnews⟩
    simp only [heq]
    let r : AnonymousFrame := ⟨va + mapped * pageSize, b, flags ||| addressSpaceUser⟩
    have hpush : Added s₀ (s'.record r) (news ++ [r]) := h.push hr₀ hback
    rw [show mapped + (remaining + 1) = mapped + 1 + remaining by omega]
    refine ih hpush ?_ (forall_mem_append.mpr ⟨hflags, forall_mem_singleton.mpr rfl⟩)
    rw [map_append, hnews, rangePages_succ]
    rfl

/-- A mapping request does nothing, or maps every page of its range. -/
theorem mapAnonymous_spec (h : SpaceInv s) (hr : Records s) (va n : Nat) (flags : Word) :
    (∃ s', addressSpaceMapAnonymous s va n flags = (false, s') ∧ Unchanged s s') ∨
    ∃ s' news, addressSpaceMapAnonymous s va n flags = (true, s') ∧
      userRangeAccepted va n = true ∧ flagsAccepted rangeFlags flags = true ∧ Added s s' news ∧
      news.map (·.virtualAddress) = rangePages va n ∧
      ∀ r ∈ news, r.flags = flags ||| addressSpaceUser := by
  fun_cases addressSpaceMapAnonymous s va n flags
  · exact .inl ⟨s, rfl, Unchanged.refl h hr⟩
  · exact .inl ⟨s, rfl, Unchanged.refl h hr⟩
  next hguard _ =>
    simp only [not_or, Bool.not_eq_true', Bool.not_eq_false] at hguard
    rcases mapAnonymousPages_spec h hr va flags n (Added.refl h hr) (rangePages_zero va).symm
      (forall_mem_nil _) with
      ⟨s', heq, hadded⟩ | ⟨s', news, heq, hadded, hnews, hflags⟩
    · exact .inl ⟨s', heq, hadded.unchanged h hr⟩
    · rw [Nat.zero_add] at hnews
      exact .inr ⟨s', news, heq, hguard.1, hguard.2, hadded, hnews, hflags⟩

/-! ## Unmapping a range -/

/-- From `s` to `s'` the pages of the records `gone` are unmapped and the records with them. -/
structure Dropped (s s' : SpaceState) (gone : List AnonymousFrame) : Prop where
  inv : SpaceInv s'
  records : Records s'
  anonymous : s.space.anonymousFrames.Perm (gone ++ s'.space.anonymousFrames)
  accepted : ∀ r ∈ gone, pageAccepted r.virtualAddress = true
  mapped : ∀ r ∈ gone, s.page r.virtualAddress ≠ none
  cleared : ∀ r ∈ gone, s'.page r.virtualAddress = none
  rest : ∀ p j, InTree p → p.length = 3 → (∀ r ∈ gone, ¬ r.At p j) → s'.slot p j = s.slot p j
  outside : ∀ a, Outside s' a ↔ Outside s a

theorem Dropped.refl (h : SpaceInv s) (hr : Records s) : Dropped s s [] where
  inv := h
  records := hr
  anonymous := List.Perm.refl _
  accepted := forall_mem_nil _
  mapped := forall_mem_nil _
  cleared := forall_mem_nil _
  rest _ _ _ _ _ := rfl
  outside _ := Iff.rfl

theorem Dropped.cons {s' s'' : SpaceState} {gone : List AnonymousFrame} (h : Dropped s s' [r])
    (h' : Dropped s' s'' gone) (hne : r.virtualAddress ∉ gone.map (·.virtualAddress)) :
    Dropped s s'' (r :: gone) := by
  have hr : r ∈ [r] := mem_cons_self
  have hapart : ∀ q ∈ gone, ¬ q.At (pathOf r.virtualAddress) (ptIndex r.virtualAddress) := by
    rintro q hq ⟨hpath, hindex⟩
    have heq := pathOf_injective (h.accepted r hr) (h'.accepted q hq) hpath hindex
    exact hne (heq ▸ mem_map_of_mem hq)
  have hpage : ∀ q ∈ gone, s'.page q.virtualAddress = s.page q.virtualAddress := by
    intro q hq
    refine h.rest _ _ (pathOf_inTree (h'.accepted q hq)) rfl fun n hn hat => ?_
    rw [mem_singleton.mp hn] at hat
    exact hapart q hq ⟨hat.1.symm, hat.2.symm⟩
  refine ⟨h'.inv, h'.records, ?_, ?_, ?_, ?_, ?_, fun a => (h'.outside a).trans (h.outside a)⟩
  · exact h.anonymous.trans (h'.anonymous.cons r)
  · exact forall_mem_cons.mpr ⟨h.accepted r hr, h'.accepted⟩
  · refine forall_mem_cons.mpr ⟨h.mapped r hr, fun q hq => ?_⟩
    rw [← hpage q hq]
    exact h'.mapped q hq
  · refine forall_mem_cons.mpr ⟨?_, h'.cleared⟩
    exact (h'.rest _ _ (pathOf_inTree (h.accepted r hr)) rfl hapart).trans (h.cleared r hr)
  · intro p j hp hl hnot
    rw [h'.rest p j hp hl fun q hq => hnot q (mem_cons_of_mem r hq)]
    refine h.rest p j hp hl fun q hq => ?_
    rw [mem_singleton.mp hq]
    exact hnot r mem_cons_self

/-- The record the two searches of a page find. -/
theorem recordAt_found (h : a ∈ s.space.anonymousFrames.map (·.virtualAddress)) :
    ∃ r index, s.space.anonymousFrames.find? (·.virtualAddress == a) = some r ∧
      s.recordAt a = some index ∧ r.virtualAddress = a ∧ r ∈ s.space.anonymousFrames ∧
      s.space.anonymousFrames.Perm (r :: swapRemove s.space.anonymousFrames index) := by
  obtain ⟨q, hq, heq⟩ := mem_map.mp h
  cases hidx : s.recordAt a with
  | none =>
    have hmiss := findIdx?_eq_none_iff.mp hidx q hq
    rw [heq, beq_self_eq_true] at hmiss
    cases hmiss
  | some index =>
    obtain ⟨hlt, hhere, hbefore⟩ := findIdx?_eq_some_iff_getElem.mp hidx
    refine ⟨s.space.anonymousFrames[index], index, ?_, rfl, beq_iff_eq.mp hhere,
      getElem_mem hlt, ?_⟩
    · exact find?_eq_some_iff_getElem.mpr ⟨hhere, index, hlt, rfl, fun j hj => by
        simpa using hbefore j hj⟩
    · exact (getElem_cons_eraseIdx_perm hlt).symm.trans
        ((swapRemove_perm hlt).symm.cons _)

/-- One turn of the second loop. -/
theorem dropRecord_spec (h : SpaceInv s) (hr : Records s) {left : List AnonymousFrame}
    (hperm : s.space.anonymousFrames.Perm (r :: left)) :
    (addressSpaceUnmapPage s r.virtualAddress = (false, s) ∧
      (pageAccepted r.virtualAddress = true → s.page r.virtualAddress = none)) ∨
    ∃ s', addressSpaceUnmapPage s r.virtualAddress = (true, s') ∧
      s'.space.anonymousFrames = s.space.anonymousFrames ∧
      Dropped s ((s'.setRecords left).free r.physicalAddress) [r] := by
  rcases unmapPage_spec h r.virtualAddress with hfail | ⟨s', heq, hva, hmapped, hstep, _⟩
  · exact .inl hfail
  refine .inr ⟨s', heq, hstep.step.anonymous, ?_⟩
  have hrecords := hr.step hstep.step
  have hin : ∀ q ∈ r :: left, q ∈ s'.space.anonymousFrames := by
    intro q hq
    rw [hstep.step.anonymous]
    exact hperm.mem_iff.mpr hq
  have hheld := hrecords.held r (hin r mem_cons_self)
  have hnodup : (r.physicalAddress :: left.map (·.physicalAddress)).Nodup :=
    (hperm.map AnonymousFrame.physicalAddress).nodup_iff.mp hr.nodup
  obtain ⟨hinv, _, hsame⟩ := free_keeps (hstep.inv.setRecords left) hheld.1 hheld.2
  have hslots : ∀ p j, InTree p → p.length = 3 →
      ((s'.setRecords left).free r.physicalAddress).slot p j =
        if r.At p j then none else s.slot p j := by
    intro p j hp hl
    refine ((hsame p hp).2 j).trans ((hstep.pages p j hp hl).trans ?_)
    by_cases hat : r.At p j
    · rw [if_pos hat]
      exact if_pos hat
    · rw [if_neg hat]
      exact if_neg hat
  refine ⟨hinv, ⟨fun q hq => ?_, (nodup_cons.mp hnodup).2⟩, hperm, forall_mem_singleton.mpr hva,
    forall_mem_singleton.mpr hmapped, forall_mem_singleton.mpr ?_, ?_, ?_⟩
  · have hq' := hrecords.held q (hin q (mem_cons_of_mem r hq))
    refine ⟨(free_held (hstep.inv.setRecords left) hheld.1 _).mpr ⟨hq'.1, fun heq => ?_⟩, hq'.2⟩
    exact (nodup_cons.mp hnodup).1 (heq ▸ mem_map_of_mem hq)
  · have hat : r.At (pathOf r.virtualAddress) (ptIndex r.virtualAddress) := ⟨rfl, rfl⟩
    exact (hslots _ _ (pathOf_inTree hva) rfl).trans (if_pos hat)
  · intro p j hp hl hnot
    rw [hslots p j hp hl, if_neg (hnot r mem_cons_self)]
  · intro a
    rw [← hstep.step.others a]
    unfold Outside
    have hmem : a ∈ s'.space.anonymousFrames.map (·.physicalAddress) ↔
        a = r.physicalAddress ∨ a ∈ left.map (·.physicalAddress) := by
      rw [hstep.step.anonymous, (hperm.map AnonymousFrame.physicalAddress).mem_iff]
      exact mem_cons
    rw [hmem]
    change (Held ((s'.setRecords left).free r.physicalAddress).physical a ∧
      a ∉ s'.space.ownedFrames ∧ a ∉ left.map (·.physicalAddress)) ↔ _
    rw [free_held (hstep.inv.setRecords left) hheld.1]
    constructor
    · rintro ⟨⟨ha, hne⟩, hn, hno⟩
      exact ⟨ha, hn, fun hor => hor.elim hne hno⟩
    · rintro ⟨ha, hn, hno⟩
      exact ⟨⟨ha, fun heq => hno (.inl heq)⟩, hn, fun hmem => hno (.inr hmem)⟩

theorem allRecorded_iff (s : SpaceState) (n va : Nat) :
    allRecorded s n va = true ↔
      ∀ a ∈ rangePages va n, a ∈ s.space.anonymousFrames.map (·.virtualAddress) := by
  induction n generalizing va with
  | zero => exact ⟨fun _ => forall_mem_nil _, fun _ => rfl⟩
  | succ n ih =>
    have hhead : (s.recordAt va).isSome = true ↔
        va ∈ s.space.anonymousFrames.map (·.virtualAddress) := by
      rw [SpaceState.recordAt, findIdx?_isSome, any_eq_true, mem_map]
      exact exists_congr fun r => and_congr_right fun _ => beq_iff_eq
    rw [allRecorded, Bool.and_eq_true, ih, hhead, rangePages_cons, forall_mem_cons]

/-- The second loop drops the pages of the range in order, up to the first that is not mapped. -/
theorem unmapAnonymousPages_spec (h : SpaceInv s) (hr : Records s)
    (hall : ∀ a ∈ rangePages va n, a ∈ s.space.anonymousFrames.map (·.virtualAddress)) :
    ∃ done s' gone, unmapAnonymousPages n va s = (done, s') ∧ Dropped s s' gone ∧
      ((done = true ∧ gone.map (·.virtualAddress) = rangePages va n) ∨
       (done = false ∧ ∃ k < n, gone.map (·.virtualAddress) = rangePages va k ∧
        (pageAccepted (va + k * pageSize) = true → s'.page (va + k * pageSize) = none))) := by
  induction n generalizing va s with
  | zero => exact ⟨true, s, [], rfl, Dropped.refl h hr, .inl ⟨rfl, rfl⟩⟩
  | succ n ih =>
    rw [rangePages_cons, forall_mem_cons] at hall
    obtain ⟨r, index, hfind, hat, rfl, _, hperm⟩ := recordAt_found hall.1
    rw [unmapAnonymousPages, hfind, hat]
    simp only []
    rcases dropRecord_spec h hr hperm with ⟨heq, hnone⟩ | ⟨s', heq, hanonymous, hdrop⟩
    · rw [heq]
      refine ⟨false, s, [], rfl, Dropped.refl h hr, .inr ⟨rfl, 0, Nat.succ_pos n, rfl, ?_⟩⟩
      rw [Nat.zero_mul, Nat.add_zero]
      exact hnone
    have hnodup := rangePages_nodup r.virtualAddress (n + 1)
    rw [rangePages_cons, nodup_cons] at hnodup
    have hnext : ∀ a ∈ rangePages (r.virtualAddress + pageSize) n,
        a ∈ (swapRemove s.space.anonymousFrames index).map (·.virtualAddress) := by
      intro a ha
      have hmem := (hperm.map AnonymousFrame.virtualAddress).mem_iff.mp (hall.2 a ha)
      rcases mem_cons.mp hmem with rfl | hmem
      · exact absurd ha hnodup.1
      · exact hmem
    obtain ⟨done, s'', gone, hrun, hdropped, hout⟩ := ih hdrop.inv hdrop.records hnext
    rw [heq]
    simp only [↓reduceIte, hanonymous]
    have hvirtual : gone.map (·.virtualAddress) ⊆ rangePages (r.virtualAddress + pageSize) n := by
      rcases hout with ⟨_, hgone⟩ | ⟨_, k, hk, hgone, _⟩
      · rw [hgone]
        exact Subset.refl _
      · rw [hgone]
        intro a ha
        obtain ⟨l, hl, rfl⟩ := mem_rangePages.mp ha
        exact mem_rangePages.mpr ⟨l, Nat.lt_trans hl hk, rfl⟩
    refine ⟨done, s'', r :: gone, hrun, hdrop.cons hdropped fun hmem => hnodup.1 (hvirtual hmem), ?_⟩
    rcases hout with ⟨hdone, hgone⟩ | ⟨hdone, k, hk, hgone, hnone⟩
    · exact .inl ⟨hdone, by rw [map_cons, hgone, rangePages_cons]⟩
    · refine .inr ⟨hdone, k + 1, Nat.succ_lt_succ hk, by rw [map_cons, hgone, rangePages_cons], ?_⟩
      rw [show r.virtualAddress + (k + 1) * pageSize = r.virtualAddress + pageSize + k * pageSize by
        rw [Nat.succ_mul]; omega]
      exact hnone

/-! ## Protecting a range -/

/-- From `s` to `s'` the entries of some pages are rewritten with other flags. -/
structure Reflagged (s s' : SpaceState) (pages : List Nat) (flags : Word) : Prop where
  inv : SpaceInv s'
  step : TableStep s s'
  space : s'.space = s.space
  allocator : SameAllocator s.physical s'.physical
  rewritten : ∀ a ∈ pages, s'.page a = (s.page a).map fun e => updatedEntry e flags
  rest : ∀ a, pageAccepted a = true → a ∉ pages → s'.page a = s.page a

theorem Reflagged.refl (h : SpaceInv s) (flags : Word) : Reflagged s s [] flags :=
  ⟨h, TableStep.refl s, rfl, ⟨rfl, rfl, rfl⟩, forall_mem_nil _, fun _ _ _ => rfl⟩

theorem userEntry_isSome (h : SpaceInv s) (ha : pageAccepted a = true) :
    (userEntry s a).isSome = true ↔ s.page a ≠ none := by
  unfold userEntry
  rw [if_neg h.root_ne_zero]
  rcases tables_spec s a with ⟨hnone, htable⟩ | ⟨tables, hsome, htable, _⟩
  · rw [hnone, page_of_no_table htable]
    exact ⟨fun hf => absurd hf Bool.false_ne_true, fun hf => absurd rfl hf⟩
  have huser := isPresentUser_eq h.toTreeInv
    (UserSlot.of_last (i := ptIndex a) (pathOf_inTree ha) rfl) htable
  rw [hsome, page_of_table htable, view]
  simp only [huser]
  cases isPresent (s.entry tables.pt (ptIndex a)) with
  | false => exact ⟨fun hf => absurd hf Bool.false_ne_true, fun hf => absurd rfl hf⟩
  | true => exact ⟨fun _ => Option.some_ne_none _, fun _ => rfl⟩

theorem saveEntries_isSome (h : SpaceInv s) (ha : ∀ a ∈ rangePages va n, pageAccepted a = true) :
    (saveEntries s n va).isSome = true ↔ ∀ a ∈ rangePages va n, s.page a ≠ none := by
  induction n generalizing va with
  | zero => exact ⟨fun _ => forall_mem_nil _, fun _ => rfl⟩
  | succ n ih =>
    rw [rangePages_cons, forall_mem_cons] at ha
    rw [rangePages_cons, forall_mem_cons, ← ih ha.2, ← userEntry_isSome h ha.1, saveEntries]
    cases userEntry s va with
    | none => exact ⟨fun hf => absurd hf Bool.false_ne_true, fun hf => absurd hf.1 Bool.false_ne_true⟩
    | some saved =>
      simp only [Option.isSome_map, Option.isSome_some, true_and]

/-- Once every page was found, no page is refused: the rollback is never taken. -/
theorem protectPages_spec {flags : Word} (hflags : flagsAccepted rangeFlags flags = true)
    (changed : Nat) (h : SpaceInv s) (ha : ∀ a ∈ rangePages va n, pageAccepted a = true)
    (hmapped : ∀ a ∈ rangePages va n, s.page a ≠ none) :
    ∃ s', protectPages flags n changed va s = (true, changed + n, s') ∧
      Reflagged s s' (rangePages va n) (flags ||| addressSpaceUser) := by
  induction n generalizing va changed s with
  | zero => exact ⟨s, rfl, Reflagged.refl h _⟩
  | succ n ih =>
    have hnodup := rangePages_nodup va (n + 1)
    rw [rangePages_cons, nodup_cons] at hnodup
    rw [rangePages_cons, forall_mem_cons] at ha hmapped
    rcases updatePageFlags_spec h va (flags ||| addressSpaceUser) with ⟨_, hnone⟩ |
      ⟨s₁, e, heq, _, _, hpage, hstep, hspace, hsame, _⟩
    · exact absurd (hnone ha.1 (rangeFlags_user hflags)) hmapped.1
    have hkept : ∀ a, pageAccepted a = true → a ≠ va → s₁.page a = s.page a := by
      intro a hacc hne
      rw [hstep.page ha.1 hacc, if_neg hne]
    have hother : ∀ a ∈ rangePages (va + pageSize) n, a ≠ va := fun a hmem heq => hnodup.1 (heq ▸ hmem)
    obtain ⟨s', hrun, hre⟩ := ih (changed + 1) hstep.inv ha.2 fun a hmem => by
      rw [hkept a (ha.2 a hmem) (hother a hmem)]
      exact hmapped.2 a hmem
    rw [protectPages, heq]
    simp only [↓reduceIte]
    refine ⟨s', by rw [hrun]; congr 2; omega, hre.inv, hstep.step.trans hre.step,
      hre.space.trans hspace, ?_, ?_, ?_⟩
    · exact ⟨hre.allocator.1.trans hsame.1, hre.allocator.2.1.trans hsame.2.1,
        hre.allocator.2.2.trans hsame.2.2⟩
    · intro a hmem
      rw [rangePages_cons] at hmem
      rcases mem_cons.mp hmem with rfl | hmem
      · rw [hre.rest a ha.1 hnodup.1, hstep.page ha.1 ha.1, if_pos rfl, hpage, Option.map_some]
      · rw [hre.rewritten a hmem, hkept a (ha.2 a hmem) (hother a hmem)]
    · intro a hacc hnot
      rw [rangePages_cons, mem_cons, not_or] at hnot
      rw [hre.rest a hacc hnot.2, hkept a hacc hnot.1]

/-- A protection request changes nothing, or rewrites every page of its range; it succeeds exactly
when the request is well formed and every page is mapped. -/
theorem protectRange_spec (h : SpaceInv s) (va n : Nat) (flags : Word) :
    (addressSpaceProtectRange s va n flags = (false, s) ∧
      ¬ (userRangeAccepted va n = true ∧ flagsAccepted rangeFlags flags = true ∧
        ∀ a ∈ rangePages va n, s.page a ≠ none)) ∨
    ∃ s', addressSpaceProtectRange s va n flags = (true, s') ∧ userRangeAccepted va n = true ∧
      flagsAccepted rangeFlags flags = true ∧ (∀ a ∈ rangePages va n, s.page a ≠ none) ∧
      Reflagged s s' (rangePages va n) (flags ||| addressSpaceUser) := by
  unfold addressSpaceProtectRange
  split
  next hguard =>
    refine .inl ⟨rfl, fun hall => ?_⟩
    rw [hall.1, hall.2.1] at hguard
    rcases hguard with hf | hf <;> cases hf
  next hguard =>
  simp only [not_or, Bool.not_eq_true', Bool.not_eq_false] at hguard
  have ha : ∀ a ∈ rangePages va n, pageAccepted a = true :=
    fun a hmem => rangePages_accepted hguard.1 hmem
  have hsome := saveEntries_isSome h ha
  cases hsave : saveEntries s n va with
  | none =>
    rw [hsave] at hsome
    exact .inl ⟨rfl, fun hall => absurd (hsome.mpr hall.2.2) Bool.false_ne_true⟩
  | some saved =>
    rw [hsave] at hsome
    have hmapped := hsome.mp rfl
    obtain ⟨s', hrun, hre⟩ := protectPages_spec hguard.2 0 h ha hmapped
    simp only [hrun, ↓reduceIte]
    exact .inr ⟨s', rfl, hguard.1, hguard.2, hmapped, hre⟩

/-! ## A new space -/

/-- A space just created: two tables of its own, no page, and nobody else's frame touched. -/
structure Created (s s' : SpaceState) : Prop where
  inv : SpaceInv s'
  anonymous : s'.space.anonymousFrames = []
  empty : ∀ p j, UserSlot p j → s'.slot p j = none
  accounted : Accounted s.physical s'.physical
  outside : ∀ a, (Held s'.physical a ∧ a ∉ s'.space.ownedFrames) ↔ Held s.physical a
  memory : ∀ a, Held s.physical a → s'.physical.memory a = s.physical.memory a

/-- A root whose only entry is the kernel's carries no table of the space. -/
theorem newRoot_inv {b₁ b₂ : Word} (hframes : FrameInv s.physical) (hroot : s.space.root = b₁)
    (howned : s.space.ownedFrames = [b₁, b₂]) (hne : b₁ ≠ b₂) (hheld₁ : Held s.physical b₁)
    (hheld₂ : Held s.physical b₂) (hzero : s.entry b₁ 0 = (b₂ ||| (pagePresent ||| pageWritable)))
    (hrest : ∀ j, j ≠ 0 → s.entry b₁ j = 0) :
    SpaceInv s ∧ ∀ p j, UserSlot p j → s.slot p j = none := by
  have hnil : s.table [] = some b₁ := by rw [table_nil, hroot]
  have hslot : ∀ j, j ≠ 0 → s.slot [] j = none := by
    intro j hj
    rw [slot_of_table hnil, hrest j hj, view_zero]
  have htable : ∀ p a, InTree p → s.table p = some a → p = [] := by
    intro p a hp ha
    cases p with
    | nil => rfl
    | cons i p =>
      have hi : i ≠ 0 := fun heq => hp.2 (congrArg some heq)
      have hone : s.table [i] = none := by
        rw [← nil_append [i], table_concat, hslot i hi, Option.map_none]
      have hbelow := table_below_none p hone
      rw [singleton_append, ha] at hbelow
      cases hbelow
  have hempty : ∀ p j, UserSlot p j → s.slot p j = none := by
    intro p j hp
    cases ht : s.table p with
    | none => exact slot_eq_none_of_table ht j
    | some a =>
      obtain rfl := htable p a hp.1 ht
      exact hslot j (hp.2 rfl)
  have hkernel : s.kernelTable = b₂ := by
    rw [SpaceState.kernelTable, hroot, hzero]
    exact tableOf_or (hframes.held_within hheld₂) (by decide)
  have hmem : ∀ a, a ∈ s.space.ownedFrames ↔ a = b₁ ∨ a = b₂ := by
    intro a
    rw [howned, mem_cons, mem_singleton]
  refine ⟨⟨⟨hframes, ?_, ?_, ?_, ?_, ?_, ?_, ?_⟩, ?_, ?_⟩, hempty⟩
  · intro a ha
    rcases (hmem a).mp ha with rfl | rfl
    · exact hheld₁
    · exact hheld₂
  · rw [howned]
    exact nodup_append_single (pairwise_singleton _ b₁) fun h => hne (mem_singleton.mp h).symm
  · intro p a hp ha
    obtain rfl := htable p a hp ha
    rw [hnil] at ha
    exact (hmem a).mpr (.inl (Option.some.inj ha).symm)
  · intro p q a hp hq hpa hqa
    rw [htable p a hp hpa, htable q a hq hqa]
  · intro p i e hp he
    rw [hempty p i hp] at he
    cases he
  · exact (hmem _).mpr (.inr hkernel)
  · intro p hp hk
    obtain rfl := htable p _ hp hk
    rw [hnil, hkernel] at hk
    exact hne (Option.some.inj hk)
  · intro a ha
    rcases (hmem a).mp ha with rfl | rfl
    · exact .inr ⟨[], inTree_nil, hnil⟩
    · exact .inl hkernel.symm
  · intro p a hp hpne _ ha
    exact absurd (htable p a hp ha) hpne

/-- Creating a space fails and gives back what it took, or makes a new one. -/
theorem create_spec (pdpt : Page) (hp : FrameInv s.physical) :
    (∃ s', addressSpaceCreate pdpt s = (false, s') ∧ s'.space.root = s.space.root ∧
      (s.space.root ≠ 0 → s' = s) ∧ Accounted s.physical s'.physical ∧
      (∀ a, Held s'.physical a ↔ Held s.physical a) ∧
      ∀ a, Held s.physical a → s'.physical.memory a = s.physical.memory a) ∨
    ∃ s', addressSpaceCreate pdpt s = (true, s') ∧ s.space.root = 0 ∧ Created s s' := by
  unfold addressSpaceCreate
  split
  next => exact .inl ⟨s, rfl, rfl, fun _ => rfl, Accounted.refl _, fun _ => Iff.rfl, fun _ _ => rfl⟩
  next hroot =>
  have hroot : s.space.root = 0 := not_not.mp hroot
  generalize hs₀ : ({ s with space :=
    { s.space with ownedFrames := [], anonymousFrames := [] } } : SpaceState) = s₀
  have hphysical₀ : s₀.physical = s.physical := by rw [← hs₀]
  have hspace₀ : s₀.space = ⟨s.space.root, [], []⟩ := by rw [← hs₀]
  have hp₀ : FrameInv s₀.physical := by rwa [hphysical₀]
  rw [← hphysical₀]
  rcases allocateTable_cases hp₀ with
    hnone | ⟨b₁, s₁, heq₁, hb₁, hfresh₁, hspace₁, hacc₁, hheld₁, hmemory₁⟩
  · -- the second attempt starts from the same state and fails as well
    refine .inl ⟨s₀, ?_, by rw [hspace₀], fun hne => absurd hroot hne, Accounted.refl _,
      fun _ => Iff.rfl, fun _ _ => rfl⟩
    simp only [hnone, true_or, ↓reduceIte, hspace₀, foldl_nil]
    rw [← hspace₀]
  rcases allocateTable_cases (hacc₁.inv hp₀) with
    hnone | ⟨b₂, s₂, heq₂, hb₂, hfresh₂, hspace₂, hacc₂, hheld₂, hmemory₂⟩
  · have howned : s₁.space.ownedFrames = [b₁] := by rw [hspace₁, hspace₀]; rfl
    have hfree := physicalFreeFrame_spec (hacc₁.inv hp₀) ((hheld₁ b₁).mpr (.inl rfl))
    refine Or.inl ⟨{ physical := physicalFreeFrame s₁.physical b₁
                     space := { s₁.space with ownedFrames := [] } }, ?_, ?_,
      fun hne => absurd hroot hne, ?_, fun a => ?_, fun a ha => ?_⟩
    · simp only [heq₁, hnone, or_true, ↓reduceIte, howned, foldl_cons, foldl_nil]
    · rw [hspace₁, hspace₀]
    · exact hacc₁.trans (accounted_physicalFreeFrames s₁.physical b₁ 1)
    · rw [hfree a, hheld₁ a]
      constructor
      · rintro ⟨ha | ha, hne⟩
        · exact absurd ha hne
        · exact ha
      · intro ha
        exact ⟨.inr ha, fun heq => hfresh₁ (heq ▸ ha)⟩
    · have hne : a ≠ b₁ := fun heq => hfresh₁ (heq ▸ ha)
      rw [physicalFreeFrame_memory, hmemory₁, update_of_ne hne]
  · have hne : b₁ ≠ b₂ := fun heq => hfresh₂ (heq ▸ (hheld₁ b₁).mpr (.inl rfl))
    have hheld : ∀ a, Held s₂.physical a ↔ a = b₂ ∨ a = b₁ ∨ Held s₀.physical a := by
      intro a
      rw [hheld₂ a, hheld₁ a]
    let s₃ : SpaceState := (s₂.setPage b₂ pdpt).setEntry b₁ 0 (b₂ ||| pagePresent ||| pageWritable)
    let s' : SpaceState := { s₃ with space := { s₃.space with root := b₁ } }
    have hspace : s'.space = ⟨b₁, [b₁, b₂], []⟩ := by
      change ({ s₂.space with root := b₁ } : AddressSpace) = _
      rw [hspace₂, hspace₁, hspace₀]
      rfl
    have hmemory : s'.physical.memory = write (Function.update (Function.update
        (Function.update s₀.physical.memory b₁ fun _ => 0) b₂ fun _ => 0) b₂ pdpt) b₁ 0
        (b₂ ||| pagePresent ||| pageWritable) := by
      change write (Function.update s₂.physical.memory b₂ pdpt) b₁ 0 _ = _
      rw [hmemory₂, hmemory₁]
    have hentries : ∀ j, j ≠ 0 → s'.entry b₁ j = 0 := by
      intro j hj
      rw [SpaceState.entry, hmemory, write_apart fun hboth => hj hboth.2,
        update_of_ne hne, update_of_ne hne, Function.update_self]
    have hzero : s'.entry b₁ 0 = (b₂ ||| (pagePresent ||| pageWritable)) := by
      rw [SpaceState.entry, hmemory, write_here, BitVec.or_assoc]
    have hacc : Accounted s₀.physical s'.physical :=
      (hacc₁.trans hacc₂).trans ((Accounted.withMemory _ _).trans (Accounted.withMemory _ _))
    obtain ⟨hinv, hempty⟩ := newRoot_inv (s := s') (hacc.inv hp₀) (by rw [hspace]) (by rw [hspace]) hne
      ((hheld b₁).mpr (.inr (.inl rfl))) ((hheld b₂).mpr (.inl rfl)) hzero hentries
    refine .inr ⟨s', ?_, hroot, hinv, by rw [hspace], hempty, hphysical₀ ▸ hacc, fun a => ?_,
      fun a ha => ?_⟩
    · simp only [heq₁, heq₂, hb₁, hb₂, or_self, ↓reduceIte]
      rfl
    · rw [hspace, mem_cons, mem_singleton, ← hphysical₀]
      change (Held s₂.physical a ∧ _) ↔ _
      rw [hheld a]
      constructor
      · rintro ⟨ha | ha | ha, hn⟩
        · exact absurd (.inr ha) hn
        · exact absurd (.inl ha) hn
        · exact ha
      · intro ha
        refine ⟨.inr (.inr ha), fun hor => hor.elim (fun heq => hfresh₁ (heq ▸ ha)) fun heq => ?_⟩
        exact hfresh₂ (heq ▸ (hheld₁ a).mpr (.inr ha))
    · rw [← hphysical₀] at ha ⊢
      have hne₁ : a ≠ b₁ := fun heq => hfresh₁ (heq ▸ ha)
      have hne₂ : a ≠ b₂ := fun heq => hfresh₂ (heq ▸ (hheld₁ a).mpr (.inr ha))
      rw [hmemory, write_other_table hne₁, update_of_ne hne₂, update_of_ne hne₂,
        update_of_ne hne₁]

theorem created_of_create {p : Physical} (hp : FrameInv p) {pdpt : Page} {space : AddressSpace}
    (h : addressSpaceCreate pdpt ⟨p, space⟩ = (true, s₀)) : Created ⟨p, space⟩ s₀ := by
  rcases create_spec pdpt (s := ⟨p, space⟩) hp with ⟨_, hfail, _⟩ | ⟨_, hdone, _, hnew⟩
  · cases hfail.symm.trans h
  · cases hdone.symm.trans h
    exact hnew

end KernelBoot.Mm
