import KernelBoot.Laws.Mm.PageTables

/-!
# Tables made and tables released

Tables come and go with the pages below them. `Shape s q` says that a space owns its tables, the
kernel's directory and nothing else, and that no table is empty, those on the path `q` excepted: a
walk that makes tables leaves them empty until it stores the page, and clearing a page may leave
empty tables until they are released bottom-up. A space between two calls has `Shape s []`.
-/

namespace KernelBoot.Mm

open Lib List

variable {s : SpaceState} {p q t : Path} {a b : Word} {i : Index}
variable {s' : SpaceState} {levels : List (Word × Word × Index)}

/-- Only tables of the tree are owned, and every one off the path `q` has an entry. -/
structure Shape (s : SpaceState) (q : Path) : Prop extends TreeInv s where
  owns : ∀ a ∈ s.space.ownedFrames, a = s.kernelTable ∨ ∃ p, InTree p ∧ s.table p = some a
  used : ∀ p a, InTree p → p ≠ [] → ¬ p <+: q → s.table p = some a → ∃ j, s.slot p j ≠ none

/-- A space between two calls. -/
abbrev SpaceInv (s : SpaceState) : Prop := Shape s []

theorem SpaceInv.shape (h : SpaceInv s) (q : Path) : Shape s q where
  toTreeInv := h.toTreeInv
  owns := h.owns
  used p a hp hne _ ha := h.used p a hp hne (fun hpre => hne (prefix_nil.mp hpre)) ha

/-- A table above another one has an entry. -/
theorem slot_above (hpre : p <+: q) (hne : p ≠ q) (h : s.table q = some b) :
    ∃ j, s.slot p j ≠ none := by
  obtain ⟨r, rfl⟩ := hpre
  cases r with
  | nil => exact absurd (append_nil p).symm hne
  | cons j r =>
    rw [← singleton_append, ← append_assoc] at h
    obtain ⟨a, ha⟩ := table_prefix h
    rw [table_concat] at ha
    refine ⟨j, fun hnone => ?_⟩
    rw [hnone] at ha
    cases ha

/-- Below every table but the root there is a page. -/
theorem SpaceInv.exists_page (h : SpaceInv s) (hp : InTree p) (hne : p ≠ [])
    (ha : s.table p = some a) : ∃ r j, p <+: r ∧ InTree r ∧ r.length = 3 ∧ s.slot r j ≠ none := by
  induction hgap : 3 - p.length generalizing p a with
  | zero =>
    obtain ⟨j, hj⟩ := h.used p a hp hne (fun hpre => hne (prefix_nil.mp hpre)) ha
    have hle := hp.1
    exact ⟨p, j, prefix_rfl, hp, by omega, hj⟩
  | succ gap ih =>
    obtain ⟨j, hj⟩ := h.used p a hp hne (fun hpre => hne (prefix_nil.mp hpre)) ha
    obtain ⟨e, he⟩ := Option.ne_none_iff_exists'.mp hj
    have htable : s.table (p ++ [j]) = some (tableOf e) := by
      rw [table_concat, he, Option.map_some]
    have hin : InTree (p ++ [j]) := inTree_concat.mpr ⟨UserSlot.of_ne_nil hp hne, by omega⟩
    obtain ⟨r, k, hpre, hr, hl, hk⟩ := ih hin (append_ne_nil_of_right_ne_nil p
      (cons_ne_nil j [])) htable (by rw [length_append, length_singleton]; omega)
    exact ⟨r, k, (prefix_append p [j]).trans hpre, hr, hl, hk⟩

/-- Another space with these pages has the tables above them too. -/
theorem SpaceInv.exists_table (h : SpaceInv s) (s' : SpaceState) (hp : InTree p)
    (ha : s.table p = some a)
    (hpages : ∀ q j, InTree q → q.length = 3 → s.slot q j ≠ none → s'.slot q j ≠ none) :
    ∃ b, s'.table p = some b := by
  by_cases hnil : p = []
  · exact ⟨s'.space.root, by rw [hnil, table_nil]⟩
  · obtain ⟨q, j, ⟨t, rfl⟩, hq, hl, hj⟩ := h.exists_page hp hnil ha
    obtain ⟨e, he⟩ := Option.ne_none_iff_exists'.mp (hpages _ j hq hl hj)
    obtain ⟨b, hb⟩ := table_isSome_of_slot he
    exact table_prefix hb

/-- The shape is one of the slots. -/
theorem Shape.congr (h : Shape s q) (htree : TreeInv s') (hroot : s'.space.root = s.space.root)
    (howned : s'.space.ownedFrames = s.space.ownedFrames) (hkernel : s'.kernelTable = s.kernelTable)
    (hslot : ∀ p i, UserSlot p i → s'.slot p i = s.slot p i) : Shape s' q := by
  have htable : ∀ p, InTree p → s'.table p = s.table p := fun p hp => table_congr hroot hp hslot
  refine ⟨htree, fun a ha => ?_, fun p a hp hne hnot ha => ?_⟩
  · rw [howned] at ha
    exact (h.owns a ha).imp (·.trans hkernel.symm) fun ⟨p, hp, hpa⟩ => ⟨p, hp, (htable p hp).trans hpa⟩
  · rw [htable p hp] at ha
    obtain ⟨j, hj⟩ := h.used p a hp hne hnot ha
    exact ⟨j, by rwa [hslot p j (UserSlot.of_ne_nil hp hne)]⟩

/-- A space whose tables are not written to stays one. -/
theorem SpaceInv.of_memory (h : SpaceInv s) (s' : SpaceState) (hroot : s'.space.root = s.space.root)
    (howned : s'.space.ownedFrames = s.space.ownedFrames)
    (hmemory : ∀ a ∈ s.space.ownedFrames, s'.physical.memory a = s.physical.memory a)
    (hframes : FrameInv s'.physical) (hheld : ∀ a ∈ s.space.ownedFrames, Held s'.physical a) :
    SpaceInv s' ∧ s'.kernelTable = s.kernelTable ∧
      ∀ p, InTree p → s'.table p = s.table p ∧ ∀ i, s'.slot p i = s.slot p i := by
  obtain ⟨htree, hkernel, hsame⟩ := h.toTreeInv.of_memory s' hroot hmemory hframes
    (by rw [howned]; exact hheld) (by rw [howned]; exact h.nodup)
    (by rw [howned]; exact h.reach) (by rw [howned]; exact h.kernel)
  exact ⟨h.congr htree hroot howned hkernel fun p i hp => (hsame p hp.1).2 i, hkernel, hsame⟩

/-! ## Changing one slot -/

section Change

variable {v : Option Word}

theorem SlotStep.owns (h : SlotStep s s' t i v)
    (ha : a = s.kernelTable ∨ ∃ p, InTree p ∧ s.table p = some a)
    (htables : ∀ p, InTree p → s.table p = some a → s'.table p = some a) :
    a = s'.kernelTable ∨ ∃ p, InTree p ∧ s'.table p = some a :=
  ha.imp (·.trans h.step.kernel.symm) fun ⟨p, hp, hpa⟩ => ⟨p, hp, htables p hp hpa⟩

/-- Another table than the changed one keeps its entries. -/
theorem SlotStep.used (h : SlotStep s s' t i v) (hp : InTree p) (hne : p ≠ []) (hpt : p ≠ t)
    (hused : ∃ j, s.slot p j ≠ none) : ∃ j, s'.slot p j ≠ none := by
  obtain ⟨j, hj⟩ := hused
  refine ⟨j, ?_⟩
  rwa [h.slot p j (UserSlot.of_ne_nil hp hne), if_neg fun hboth => hpt hboth.1]

theorem SlotStep.leaf_table (h : SlotStep s s' t i v) (hlength : t.length = 3) (hp : InTree p) :
    s'.table p = s.table p := by
  rw [h.table hp, if_neg (not_inTree_below hp hlength)]

end Change

/-! ## Making a table -/

/-- A new table at `t ++ [i]`. -/
structure Linked (s s' : SpaceState) (t : Path) (i : Index) (b : Word) : Prop where
  change : SlotStep s s' t i (some (b ||| linkFlags))
  names : tableOf (b ||| linkFlags) = b
  owned : s'.space.ownedFrames = s.space.ownedFrames ++ [b]
  fresh : b ∉ s.space.ownedFrames
  shape : Shape s' (t ++ [i])

theorem Linked.table (h : Linked s s' t i b) (hp : InTree p) :
    s'.table p = if p = t ++ [i] then some b else s.table p := by
  rw [h.change.table hp, Option.map_some, h.names]

/-- Allocating a table, unless there is no frame for it, and storing its entry. -/
theorem link_spec (h : Shape s t) (hslot : UserSlot t i) (hlength : t.length < 3)
    (ha : s.table t = some a) (hnone : s.slot t i = none) : addressSpaceAllocateTable s = (0, s) ∨
      ∃ b s₁, addressSpaceAllocateTable s = (b, s₁) ∧ b ≠ 0 ∧
        Linked s (s₁.setEntry a i (b ||| linkFlags)) t i b := by
  rcases allocateTable_spec h.toTreeInv with hzero | ⟨b, s₁, heq, hb, hfresh, howned, htree, hstep,
    hsame, hpage⟩
  · exact .inl hzero
  have hmem : b ∈ s₁.space.ownedFrames := by
    rw [howned]
    exact mem_append_right _ mem_cons_self
  have hnames : tableOf (b ||| linkFlags) = b :=
    tableOf_link (htree.frames.held_within (htree.held b hmem))
  have hview : view (b ||| linkFlags) = some (b ||| linkFlags) := view_of_present (isPresent_link b)
  have hhere : InTree (t ++ [i]) := inTree_concat.mpr ⟨hslot, hlength⟩
  have hempty : s.table (t ++ [i]) = none := by rw [table_concat, hnone, Option.map_none]
  have hbelow : ∀ j, s₁.slot (t ++ [i]) j = none := by
    intro j
    rw [(hsame _ hhere).2 j, slot_eq_none_of_table hempty]
  have hchild : FreshChild s₁ (b ||| linkFlags) := by
    intro c hc
    rw [childTable, hview, Option.map_some, hnames] at hc
    cases hc
    refine ⟨hmem, ?_, ?_, fun j => ?_⟩
    · intro p hp hpb
      rw [(hsame p hp).1] at hpb
      exact hfresh (h.reach p b hp hpb)
    · rw [hstep.kernel]
      exact fun heq => hfresh (heq ▸ h.kernel)
    · rw [hpage j, view_zero]
  have hset := setEntry_keeps htree hslot (((hsame t hslot.1).1).trans ha)
    (fun _ => ⟨hbelow, hchild⟩) fun _ => user_link b
  rw [hview] at hset
  have hchange : SlotStep s (s₁.setEntry a i (b ||| linkFlags)) t i (some (b ||| linkFlags)) := by
    refine ⟨hset.inv, hstep.trans hset.step, fun p j hp => ?_⟩
    rw [hset.slot p j hp, (hsame p hp.1).2 j]
  have htables : ∀ p, InTree p → p ≠ t ++ [i] →
      (s₁.setEntry a i (b ||| linkFlags)).table p = s.table p := by
    intro p hp hne
    rw [hchange.table hp, if_neg hne]
  refine .inr ⟨b, s₁, heq, hb, hchange, hnames, howned, hfresh, hset.inv, ?_, ?_⟩
  · intro c hc
    have hc' : c ∈ s.space.ownedFrames ++ [b] := howned ▸ hc
    rw [mem_append, mem_singleton] at hc'
    rcases hc' with hin | rfl
    · refine hchange.owns (h.owns c hin) fun p hp hpc => ?_
      rw [htables p hp, hpc]
      rintro rfl
      rw [hempty] at hpc
      cases hpc
    · refine .inr ⟨t ++ [i], hhere, ?_⟩
      rw [hchange.table hhere, if_pos rfl, Option.map_some, hnames]
  · intro p c hp hne hnot hpc
    have hpt : p ≠ t ++ [i] := fun heq => hnot (heq ▸ prefix_rfl)
    have hnott : ¬ p <+: t := fun hpre => hnot (hpre.trans (prefix_append t [i]))
    rw [htables p hp hpt] at hpc
    exact hchange.used hp hne (fun heq => hnott (heq ▸ prefix_rfl)) (h.used p c hp hne hnott hpc)

/-! ## Pages -/

/-- Storing a page fills the tables on its path. -/
theorem storePage_spec {e : Word} (h : Shape s t) (ht : InTree t) (hlength : t.length = 3)
    (ha : s.table t = some a) (hpresent : isPresent e = true) (huser : (e &&& pageUser) ≠ 0) :
    SlotStep s (s.setEntry a i e) t i (some e) ∧ SpaceInv (s.setEntry a i e) := by
  have hchange := setLeaf_keeps (i := i) (e := e) h.toTreeInv ht hlength ha fun _ => huser
  rw [view_of_present hpresent] at hchange
  refine ⟨hchange, hchange.inv, ?_, ?_⟩
  · exact fun c hc => hchange.owns (h.owns c hc) fun p hp hpc => (hchange.leaf_table hlength hp).trans hpc
  · intro p c hp hne _ hpc
    rw [hchange.leaf_table hlength hp] at hpc
    by_cases hpt : p = t
    · subst hpt
      refine ⟨i, ?_⟩
      rw [hchange.slot p i (UserSlot.of_ne_nil hp hne), if_pos ⟨rfl, rfl⟩]
      exact Option.some_ne_none e
    · refine hchange.used hp hne hpt ?_
      by_cases hpre : p <+: t
      · exact slot_above hpre hpt ha
      · exact h.used p c hp hne hpre hpc

/-- Clearing a page may leave the tables on its path empty. -/
theorem clearPage_spec (h : SpaceInv s) (ht : InTree t) (hlength : t.length = 3)
    (ha : s.table t = some a) :
    SlotStep s (s.setEntry a i 0) t i none ∧ Shape (s.setEntry a i 0) t ∧
      ∀ p, InTree p → (s.setEntry a i 0).table p = s.table p := by
  have hchange := setLeaf_keeps (i := i) (e := 0) h.toTreeInv ht hlength ha fun hp => by
    rw [isPresent_zero] at hp
    cases hp
  rw [view_zero] at hchange
  refine ⟨hchange, ⟨hchange.inv, ?_, ?_⟩, fun p hp => hchange.leaf_table hlength hp⟩
  · exact fun c hc => hchange.owns (h.owns c hc) fun p hp hpc => (hchange.leaf_table hlength hp).trans hpc
  · intro p c hp hne hnot hpc
    rw [hchange.leaf_table hlength hp] at hpc
    exact hchange.used hp hne (fun heq => hnot (heq ▸ prefix_rfl)) ((h.shape t).used p c hp hne hnot hpc)

/-! ## Releasing empty tables -/

/-- The slot a swap-removal frees is filled from the end: up to order, one element is erased. -/
theorem swapRemove_perm {α : Type} {list : List α} {index : Nat} (h : index < list.length) :
    (swapRemove list index).Perm (list.eraseIdx index) := by
  rcases list.eq_nil_or_concat' with rfl | ⟨front, last, rfl⟩
  · exact absurd h (Nat.not_lt_zero index)
  rw [length_append, length_singleton] at h
  rw [swapRemove, getLast?_concat]
  by_cases hlt : index < front.length
  · simp only [set_append, if_pos hlt, dropLast_concat,
      eraseIdx_append_of_lt_length hlt]
    exact (set_perm_cons_eraseIdx hlt last).trans (perm_append_singleton last _).symm
  · have heq : index = front.length := by omega
    subst heq
    simp [eraseIdx_append_of_length_le (Nat.le_refl front.length)]

theorem mem_swapRemove {list : List Word} (hnodup : list.Nodup) {index : Nat}
    (h : list.findIdx? (· == b) = some index) :
    (swapRemove list index).Nodup ∧ ∀ a, a ∈ swapRemove list index ↔ a ∈ list ∧ a ≠ b := by
  obtain ⟨hlt, hhere, _⟩ := findIdx?_eq_some_iff_getElem.mp h
  have hb : list[index] = b := beq_iff_eq.mp hhere
  have hperm := swapRemove_perm hlt
  rw [← hnodup.erase_getElem index hlt, hb] at hperm
  refine ⟨hperm.nodup_iff.mpr (hnodup.erase b), fun a => ?_⟩
  rw [hperm.mem_iff, hnodup.mem_erase_iff]
  exact and_comm

theorem tableEmpty_iff (ha : s.table p = some a) :
    addressSpaceTableEmpty (s.physical.memory a) = true ↔ ∀ j, s.slot p j = none := by
  rw [addressSpaceTableEmpty, all_eq_true]
  simp only [Bool.not_eq_true', mem_finRange, true_imp_iff, slot_of_table ha, view_eq_none,
    Bool.not_eq_true]
  rfl

/-- The tables of a path from the bottom up, as the conditionals of the unmapping name them. -/
inductive Levels (s : SpaceState) : Path → List (Word × Word × Index) → Prop
  | nil : Levels s [] []
  | cons {t : Path} {i : Index} {a b : Word} {rest : List (Word × Word × Index)}
      (table : s.table (t ++ [i]) = some a) (parent : s.table t = some b)
      (above : Levels s t rest) : Levels s (t ++ [i]) ((a, b, i) :: rest)

theorem Levels.congr (h : Levels s q levels) (hsame : ∀ p, p <+: q → s'.table p = s.table p) :
    Levels s' q levels := by
  induction h with
  | nil => exact Levels.nil
  | @cons t i a b rest htable hparent _ ih =>
    refine Levels.cons ((hsame _ prefix_rfl).trans htable)
      ((hsame t (prefix_append t [i])).trans hparent) (ih fun p hp => ?_)
    exact hsame p (hp.trans (prefix_append t [i]))

/-- Releasing an empty table and zeroing its entry takes one slot away, and with it the table. -/
theorem release_spec (h : Shape s (t ++ [i])) (hin : InTree (t ++ [i]))
    (ha : s.table (t ++ [i]) = some a) (hb : s.table t = some b)
    (hempty : ∀ j, s.slot (t ++ [i]) j = none) : ∃ s₁, addressSpaceReleaseTable s a = some s₁ ∧
      SlotStep s (s₁.setEntry b i 0) t i none ∧ Shape (s₁.setEntry b i 0) t := by
  obtain ⟨hslot, hlength⟩ := inTree_concat.mp hin
  have howned := h.reach _ a hin ha
  have hne : a ≠ 0 := (h.frames.held_address (h.held a howned)).2.2
  obtain ⟨index, hindex⟩ : ∃ index, s.space.ownedFrames.findIdx? (· == a) = some index := by
    rw [← Option.isSome_iff_exists, findIdx?_isSome, any_eq_true]
    exact ⟨a, howned, beq_self_eq_true a⟩
  obtain ⟨hnodup, hmem⟩ := mem_swapRemove h.nodup hindex
  let s₁ : SpaceState :=
    { physical := physicalFreeFrame s.physical a
      space := { s.space with ownedFrames := swapRemove s.space.ownedFrames index } }
  refine ⟨s₁, by rw [addressSpaceReleaseTable, if_neg hne, hindex], ?_⟩
  -- the frame is freed before its entry is zeroed; the two do not see each other
  have hunlink := unlink_keeps h.toTreeInv hslot hb hempty
  have hunreached : ∀ p, InTree p → (s.setEntry b i 0).table p ≠ some a := by
    intro p hp hpa
    rw [hunlink.table hp] at hpa
    split at hpa
    next => cases hpa
    next hpt => exact hpt (h.separated p (t ++ [i]) a hp hin hpa ha)
  have hkernel : a ≠ (s.setEntry b i 0).kernelTable := by
    rw [hunlink.step.kernel]
    exact fun heq => h.kernelApart _ hin (heq ▸ ha)
  have hphysical : (s₁.setEntry b i 0).physical = physicalFreeFrame (s.setEntry b i 0).physical a := by
    change ({ physicalFreeFrame s.physical a with
      memory := write (physicalFreeFrame s.physical a).memory b i 0 } : Physical) = _
    rw [physicalFreeFrame_memory]
    exact (physicalFreeFrame_withMemory s.physical a _).symm
  obtain ⟨htree, hstep, hsame⟩ := drop_keeps hunlink.inv (s₁.setEntry b i 0) howned hunreached
    hkernel hphysical rfl rfl hnodup hmem
  have hchange : SlotStep s (s₁.setEntry b i 0) t i none := by
    refine ⟨htree, hunlink.step.trans hstep, fun p j hp => ?_⟩
    rw [(hsame p hp.1).2 j, hunlink.slot p j hp]
  refine ⟨hchange, htree, ?_, ?_⟩
  · intro c hc
    obtain ⟨hcowned, hca⟩ := (hmem c).mp hc
    refine hchange.owns (h.owns c hcowned) fun p hp hpc => ?_
    rw [hchange.table hp, if_neg]
    · exact hpc
    · rintro rfl
      rw [ha] at hpc
      exact hca (Option.some.inj hpc).symm
  · intro p c hp hne' hnot hpc
    rw [hchange.table hp] at hpc
    split at hpc
    next => cases hpc
    next hpt =>
      -- a prefix of `t ++ [i]` other than the whole is one of `t`
      have hnot' : ¬ p <+: t ++ [i] := fun hpre => (prefix_concat_iff.mp hpre).elim hpt hnot
      exact hchange.used hp hne' (fun heq => hnot (heq ▸ prefix_rfl)) (h.used p c hp hne' hnot' hpc)

/-- What the pruning of a path may change: tables disappear, pages and other spaces do not. -/
structure Pruned (s s' : SpaceState) : Prop where
  step : TableStep s s'
  tables : ∀ p a, InTree p → s'.table p = some a → s.table p = some a
  pages : ∀ p j, InTree p → p.length = 3 → s'.slot p j = s.slot p j

theorem prune_spec (hlevels : Levels s q levels) (h : Shape s q) (hq : InTree q) :
    SpaceInv (addressSpacePrune levels s) ∧ Pruned s (addressSpacePrune levels s) := by
  induction levels generalizing q s with
  | nil =>
    cases hlevels
    exact ⟨h, TableStep.refl s, fun _ _ _ ha => ha, fun _ _ _ _ => rfl⟩
  | cons level rest ih =>
    cases hlevels with
    | @cons t i a b _ ha hb habove =>
      rw [addressSpacePrune]
      by_cases hempty : ∀ j, s.slot (t ++ [i]) j = none
      · rw [if_pos ((tableEmpty_iff ha).mpr hempty)]
        obtain ⟨s₁, hrelease, hchange, hshape⟩ := release_spec h hq ha hb hempty
        have hkept : ∀ p, p <+: t → (s₁.setEntry b i 0).table p = s.table p := by
          rintro p ⟨r, rfl⟩
          have hp : InTree p := inTree_prefixClosed p (r ++ [i]) (by rwa [← append_assoc])
          rw [hchange.table hp, if_neg]
          intro heq
          have hl := congrArg List.length heq
          simp only [length_append, length_singleton] at hl
          omega
        obtain ⟨hinv, hpruned⟩ := ih (habove.congr hkept) hshape (inTree_prefixClosed t [i] hq)
        rw [hrelease]
        refine ⟨hinv, hchange.step.trans hpruned.step, ?_, ?_⟩
        · intro p c hp hpc
          have hmid := hpruned.tables p c hp hpc
          rw [hchange.table hp] at hmid
          split at hmid
          next => cases hmid
          next => exact hmid
        · intro p j hp hl
          have hlt := (inTree_concat.mp hq).2
          rw [hpruned.pages p j hp hl, hchange.slot p j (UserSlot.of_last hp hl), if_neg]
          rintro ⟨rfl, _⟩
          omega
      · rw [if_neg fun hall => hempty ((tableEmpty_iff ha).mp hall)]
        refine ⟨⟨h.toTreeInv, h.owns, ?_⟩, TableStep.refl s, fun _ _ _ ha => ha, fun _ _ _ _ => rfl⟩
        intro p c hp hne _ hpc
        by_cases hpre : p <+: t ++ [i]
        · by_cases heq : p = t ++ [i]
          · rw [heq]
            exact not_forall.mp hempty
          · exact slot_above hpre heq ha
        · exact h.used p c hp hne hpre hpc

end KernelBoot.Mm
