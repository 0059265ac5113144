import KernelBoot.Laws.Mm.PageEntry
import KernelBoot.Lib.Radix

/-!
# The tables of a space as a tree

A space's tables form a radix tree of depth three below its root, with the kernel's directory hung
under index 0 of the root and left out. `slot` is the entry a path leads to, if it is present; it
determines which tables there are and, at the last level, which pages. `TreeInv` keeps the tree
apart: every table is an owned frame and no table is reached twice. Storing one entry then changes
one slot and nothing else, which `SlotStep` says together with what any change to the tables leaves
alone.
-/

namespace KernelBoot.Mm

open Lib List Option SpaceState

variable {e : Word} {i : Index} {s s' : SpaceState}

/-- The entry, if it is present. -/
def view (entry : Word) : Option Word := if isPresent entry then some entry else none

/-- The table an entry names. -/
def childTable (entry : Word) : Option Word := (view entry).map tableOf

abbrev Path := List Index

variable {p : Path}

/-- The paths of a space's own tables; index 0 of the root is the kernel's. -/
def InTree (path : Path) : Prop := path.length ≤ 3 ∧ path.head? ≠ some 0

/-- The entries of a space's own tables. -/
def UserSlot (path : Path) (index : Index) : Prop := InTree path ∧ (path = [] → index ≠ 0)

def SpaceState.table (s : SpaceState) (path : Path) : Option Word :=
  walk childTable s.physical.memory s.space.root path

def SpaceState.slot (s : SpaceState) (path : Path) (index : Index) : Option Word :=
  (s.table path).bind fun a => view (s.entry a index)

/-- The kernel's directory, as the space's root names it. -/
def SpaceState.kernelTable (s : SpaceState) : Word := tableOf (s.entry s.space.root 0)

/-! ## Paths -/

@[simp] theorem view_zero : view 0 = none := rfl

theorem view_of_present (h : isPresent e = true) : view e = some e := if_pos h

theorem view_eq_some {v : Word} (h : view e = some v) : isPresent e = true ∧ v = e := by
  unfold view at h
  split at h
  next hp => cases h; exact ⟨hp, rfl⟩
  next => cases h

theorem view_eq_none : view e = none ↔ ¬ isPresent e = true := by
  rw [view, ite_eq_right_iff]
  exact forall_congr' fun _ => iff_false_intro (some_ne_none e)

@[simp] theorem childTable_zero : childTable 0 = none := rfl

theorem inTree_nil : InTree [] := ⟨Nat.zero_le 3, fun h => by cases h⟩

theorem inTree_prefixClosed : PrefixClosed InTree := by
  rintro p q ⟨hlength, hhead⟩
  rw [length_append] at hlength
  refine ⟨by omega, ?_⟩
  cases p with
  | nil => exact fun h => by cases h
  | cons i p => exact hhead

theorem inTree_concat : InTree (p ++ [i]) ↔ UserSlot p i ∧ p.length < 3 := by
  constructor
  · intro h
    have hlength := h.1
    rw [length_append, length_singleton] at hlength
    refine ⟨⟨inTree_prefixClosed p [i] h, ?_⟩, by omega⟩
    rintro rfl rfl
    exact h.2 rfl
  · rintro ⟨⟨⟨_, hhead⟩, hroot⟩, hlength⟩
    refine ⟨by rw [length_append, length_singleton]; omega, ?_⟩
    cases p with
    | nil => exact fun h => hroot rfl (some.inj h)
    | cons j p => exact hhead

theorem UserSlot.of_ne_nil (h : InTree p) (hne : p ≠ []) : UserSlot p i :=
  ⟨h, fun hp => absurd hp hne⟩

/-- The entries of the last level are all the space's own. -/
theorem UserSlot.of_last (h : InTree p) (hlength : p.length = 3) : UserSlot p i := by
  refine UserSlot.of_ne_nil h ?_
  rintro rfl
  cases hlength

/-- Below the last level the tree has no paths. -/
theorem not_inTree_below {p t : Path} (hp : InTree p) (hlength : t.length = 3) : p ≠ t ++ [i] := by
  rintro rfl
  have hlt := (inTree_concat.mp hp).2
  omega

theorem concat_ne_self (t : Path) (i : Index) : t ++ [i] ≠ t := by
  intro heq
  have hl := congrArg List.length heq
  rw [length_append, length_singleton] at hl
  omega

@[simp] theorem table_nil (s : SpaceState) : s.table [] = some s.space.root := rfl

theorem table_concat (s : SpaceState) (p : Path) (i : Index) :
    s.table (p ++ [i]) = (s.slot p i).map tableOf := by
  rw [table, walk_concat, slot]
  cases h : s.table p with
  | none => rw [table] at h; rw [h]; rfl
  | some a => rw [table] at h; rw [h]; rfl

theorem slot_of_table {a : Word} (h : s.table p = some a) (i : Index) :
    s.slot p i = view (s.entry a i) := by
  rw [slot, h, bind_some]

theorem slot_eq_none_of_table (h : s.table p = none) (i : Index) :
    s.slot p i = none := by
  rw [slot, h, bind_none]

theorem table_isSome_of_slot (h : s.slot p i = some e) : ∃ a, s.table p = some a := by
  cases ht : s.table p with
  | none => rw [slot_eq_none_of_table ht] at h; cases h
  | some a => exact ⟨a, rfl⟩

theorem table_prefix {p q : Path} {b : Word} (h : s.table (p ++ q) = some b) :
    ∃ a, s.table p = some a := by
  have hsome : (s.table (p ++ q)).isSome := by rw [h]; rfl
  exact isSome_iff_exists.mp (walk_isSome_of_append hsome)

theorem table_below_none (q : Path) (h : s.table p = none) :
    s.table (p ++ q) = none := by
  cases ht : s.table (p ++ q) with
  | none => rfl
  | some b =>
    obtain ⟨a, ha⟩ := table_prefix ht
    rw [h] at ha
    cases ha

/-- Slots determine tables. -/
theorem table_congr (hroot : s'.space.root = s.space.root) (hp : InTree p)
    (h : ∀ q i, UserSlot q i → s'.slot q i = s.slot q i) : s'.table p = s.table p := by
  induction p using List.reverseRecOn with
  | nil => rw [table_nil, table_nil, hroot]
  | append_singleton p i ih =>
    obtain ⟨hslot, _⟩ := inTree_concat.mp hp
    rw [table_concat, table_concat, h p i hslot]

/-! ## The invariant -/

/-- The tables are owned frames, each reached once, and user entries carry the user bit. -/
structure TreeInv (s : SpaceState) : Prop where
  frames : FrameInv s.physical
  held : ∀ a ∈ s.space.ownedFrames, Held s.physical a
  nodup : s.space.ownedFrames.Nodup
  reach : ∀ p a, InTree p → s.table p = some a → a ∈ s.space.ownedFrames
  separated : Separated childTable s.physical.memory s.space.root InTree
  user : ∀ p i e, UserSlot p i → s.slot p i = some e → (e &&& pageUser) ≠ 0
  kernel : s.kernelTable ∈ s.space.ownedFrames
  kernelApart : ∀ p, InTree p → s.table p ≠ some s.kernelTable

theorem TreeInv.root_owned (h : TreeInv s) : s.space.root ∈ s.space.ownedFrames :=
  h.reach [] _ inTree_nil rfl

theorem TreeInv.root_ne_zero (h : TreeInv s) : s.space.root ≠ 0 :=
  (h.frames.held_address (h.held _ h.root_owned)).2.2

/-- What a change to a space's tables leaves alone: the frames of others and their contents, the
anonymous records and the kernel's directory. -/
structure TableStep (s s' : SpaceState) : Prop where
  accounted : Accounted s.physical s'.physical
  root : s'.space.root = s.space.root
  anonymous : s'.space.anonymousFrames = s.space.anonymousFrames
  outside : ∀ a, (Held s'.physical a ∧ a ∉ s'.space.ownedFrames) ↔
    (Held s.physical a ∧ a ∉ s.space.ownedFrames)
  memory : ∀ a, Held s.physical a → a ∉ s.space.ownedFrames →
    s'.physical.memory a = s.physical.memory a
  kernel : s'.kernelTable = s.kernelTable

theorem TableStep.refl (s : SpaceState) : TableStep s s :=
  ⟨Accounted.refl _, rfl, rfl, fun _ => Iff.rfl, fun _ _ _ => rfl, rfl⟩

theorem TableStep.trans {s'' : SpaceState} (h : TableStep s s') (h' : TableStep s' s'') :
    TableStep s s'' where
  accounted := h.accounted.trans h'.accounted
  root := h'.root.trans h.root
  anonymous := h'.anonymous.trans h.anonymous
  outside a := (h'.outside a).trans (h.outside a)
  memory a hheld howned := by
    obtain ⟨hheld', howned'⟩ := (h.outside a).mpr ⟨hheld, howned⟩
    exact (h'.memory a hheld' howned').trans (h.memory a hheld howned)
  kernel := h'.kernel.trans h.kernel

/-- One slot takes a new value. -/
structure SlotStep (s s' : SpaceState) (t : Path) (i : Index) (v : Option Word) : Prop where
  inv : TreeInv s'
  step : TableStep s s'
  slot : ∀ p j, UserSlot p j → s'.slot p j = if p = t ∧ j = i then v else s.slot p j

theorem SlotStep.table {t : Path} {v : Option Word} (h : SlotStep s s' t i v)
    (hp : InTree p) : s'.table p = if p = t ++ [i] then v.map tableOf else s.table p := by
  induction p using List.reverseRecOn with
  | nil =>
    have hne : ([] : Path) ≠ t ++ [i] := fun heq => by cases t <;> cases heq
    rw [if_neg hne, table_nil, table_nil, h.step.root]
  | append_singleton p j =>
    obtain ⟨hslot, _⟩ := inTree_concat.mp hp
    rw [table_concat, table_concat, h.slot p j hslot]
    by_cases heq : p = t ∧ j = i
    · rw [if_pos heq, if_pos (by rw [heq.1, heq.2])]
    · rw [if_neg heq, if_neg]
      intro hcat
      obtain ⟨hpt, hji⟩ := append_inj' hcat rfl
      exact heq ⟨hpt, singleton_inj.mp hji⟩

/-! ## Storing one entry -/

section Store

variable {s : SpaceState} {t : Path} {i : Index} {a e : Word}

theorem setEntry_memory (s : SpaceState) (a : Word) (i : Index) (e : Word) :
    (s.setEntry a i e).physical.memory = write s.physical.memory a i e := rfl

/-- Away from the paths through the entry, tables stay where they are. -/
theorem table_setEntry_apart (h : TreeInv s) (ht : InTree t) (ha : s.table t = some a)
    (hp : InTree p) (hnot : ¬ t ++ [i] <+: p) : (s.setEntry a i e).table p = s.table p :=
  walk_write_apart inTree_prefixClosed h.separated ht ha hp hnot

theorem slot_setEntry_apart (h : TreeInv s) (ht : InTree t) (ha : s.table t = some a)
    {j : Index} (hp : InTree p) (hnot : ¬ t ++ [i] <+: p) :
    (s.setEntry a i e).slot p j = if p = t ∧ j = i then view e else s.slot p j := by
  rw [slot, table_setEntry_apart h ht ha hp hnot, slot]
  cases hb : s.table p with
  | none =>
    have hne : ¬ (p = t ∧ j = i) := by
      rintro ⟨rfl, _⟩
      rw [hb] at ha
      cases ha
    rw [if_neg hne, bind_none, bind_none]
  | some b =>
    rw [bind_some, bind_some, entry, setEntry_memory]
    by_cases heq : p = t ∧ j = i
    · obtain ⟨rfl, rfl⟩ := heq
      rw [ha] at hb
      cases hb
      rw [write_here, if_pos ⟨rfl, rfl⟩]
    · rw [if_neg heq, write_apart]
      · rfl
      · rintro ⟨rfl, rfl⟩
        exact heq ⟨h.separated p t b hp ht hb ha, rfl⟩

/-- The child an entry names may be hung into the tree: an owned frame no path reaches, without
entries of its own. -/
def FreshChild (s : SpaceState) (e : Word) : Prop :=
  ∀ b, childTable e = some b → b ∈ s.space.ownedFrames ∧ (∀ p, InTree p → s.table p ≠ some b) ∧
    b ≠ s.kernelTable ∧ ∀ j, view (s.entry b j) = none

/-- Storing an entry changes one slot, provided nothing hangs below it before or after. -/
theorem slot_setEntry (h : TreeInv s) (hslot : UserSlot t i) (ha : s.table t = some a)
    (hbelow : t.length < 3 → (∀ j, s.slot (t ++ [i]) j = none) ∧ FreshChild s e) {j : Index} (hp : InTree p) :
    (s.setEntry a i e).slot p j = if p = t ∧ j = i then view e else s.slot p j := by
  by_cases hprefix : t ++ [i] <+: p
  · obtain ⟨r, rfl⟩ := hprefix
    have hlength : t.length < 3 := by
      have hle := hp.1
      rw [length_append, length_append, length_singleton] at hle
      omega
    obtain ⟨hold, hfresh⟩ := hbelow hlength
    have hne : ¬ (t ++ [i] ++ r = t ∧ j = i) := by
      rintro ⟨heq, _⟩
      have hl := congrArg List.length heq
      rw [length_append, length_append, length_singleton] at hl
      omega
    have hchild : ∀ b, childTable e = some b → b ≠ a ∧ ∀ j, childTable (s.physical.memory b j) = none := by
      intro b hb
      obtain ⟨_, hunreached, _, hempty⟩ := hfresh b hb
      refine ⟨fun heq => hunreached t hslot.1 (heq ▸ ha), fun j => ?_⟩
      rw [childTable, show view (s.physical.memory b j) = none from hempty j, map_none]
    rw [if_neg hne]
    cases r with
    | nil =>
      rw [append_nil, hold j, slot]
      have hhere : (s.setEntry a i e).table (t ++ [i]) = childTable e :=
        walk_write_here inTree_prefixClosed h.separated hslot.1 ha
      rw [hhere]
      cases hb : childTable e with
      | none => rfl
      | some b =>
        have hentry : (s.setEntry a i e).entry b j = s.entry b j :=
          congrFun (write_other_table (hchild b hb).1) j
        rw [bind_some, hentry]
        exact (hfresh b hb).2.2.2 j
    | cons k r =>
      have hnew : (s.setEntry a i e).table (t ++ [i] ++ k :: r) = none :=
        walk_write_below inTree_prefixClosed h.separated hslot.1 ha hchild
      have hwas : s.table (t ++ [i] ++ [k]) = none := by
        rw [table_concat, hold k, map_none]
      have hwasBelow := table_below_none r hwas
      rw [append_assoc, singleton_append] at hwasBelow
      rw [slot_eq_none_of_table hnew, slot_eq_none_of_table hwasBelow]
  · exact slot_setEntry_apart h hslot.1 ha hp hprefix

theorem TableStep.setEntry (h : TreeInv s) (hslot : UserSlot t i) (ha : s.table t = some a) :
    TableStep s (s.setEntry a i e) where
  accounted := Accounted.withMemory _ _
  root := rfl
  anonymous := rfl
  outside _ := Iff.rfl
  memory b _ howned := by
    have hne : b ≠ a := fun heq => howned (heq ▸ h.reach t a hslot.1 ha)
    exact write_other_table hne
  kernel := by
    have hentry : (s.setEntry a i e).entry s.space.root 0 = s.entry s.space.root 0 := by
      refine write_apart ?_
      rintro ⟨hroot, hzero⟩
      have hnil : t = [] := h.separated t [] a hslot.1 inTree_nil ha (congrArg some hroot)
      exact hslot.2 hnil hzero.symm
    exact congrArg tableOf hentry

/-- Storing an entry keeps the tree apart. -/
theorem setEntry_keeps (h : TreeInv s) (hslot : UserSlot t i) (ha : s.table t = some a)
    (hbelow : t.length < 3 → (∀ j, s.slot (t ++ [i]) j = none) ∧ FreshChild s e)
    (huser : isPresent e = true → (e &&& pageUser) ≠ 0) :
    SlotStep s (s.setEntry a i e) t i (view e) := by
  have hstep : TableStep s (s.setEntry a i e) := TableStep.setEntry h hslot ha
  have hslots : ∀ p j, UserSlot p j →
      (s.setEntry a i e).slot p j = if p = t ∧ j = i then view e else s.slot p j :=
    fun p j hp => slot_setEntry h hslot ha hbelow hp.1
  have htables : ∀ p, InTree p →
      (s.setEntry a i e).table p = s.table p ∨
        p = t ++ [i] ∧ t.length < 3 ∧ (s.setEntry a i e).table p = childTable e := by
    intro p hp
    cases p using List.reverseRecOn with
    | nil => exact .inl rfl
    | append_singleton p j =>
      obtain ⟨hpj, hlength⟩ := inTree_concat.mp hp
      rw [table_concat, table_concat, hslots p j hpj]
      by_cases heq : p = t ∧ j = i
      · obtain ⟨rfl, rfl⟩ := heq
        rw [if_pos ⟨rfl, rfl⟩]
        exact .inr ⟨rfl, hlength, rfl⟩
      · rw [if_neg heq]
        exact .inl rfl
  refine ⟨⟨hstep.accounted.inv h.frames, h.held, h.nodup, ?_, ?_, ?_, ?_, ?_⟩, hstep, hslots⟩
  · intro p b hp hb
    rcases htables p hp with hsame | ⟨_, hlength, hchild⟩
    · rw [hsame] at hb
      exact h.reach p b hp hb
    · rw [hchild] at hb
      exact ((hbelow hlength).2 b hb).1
  · intro p q b hp hq hpb hqb
    change (s.setEntry a i e).table p = some b at hpb
    change (s.setEntry a i e).table q = some b at hqb
    rcases htables p hp with hp' | ⟨rfl, hlength, hp'⟩ <;>
      rcases htables q hq with hq' | ⟨rfl, hlength', hq'⟩
    · rw [hp'] at hpb
      rw [hq'] at hqb
      exact h.separated p q b hp hq hpb hqb
    · rw [hq'] at hqb
      rw [hp'] at hpb
      exact absurd hpb (((hbelow hlength').2 b hqb).2.1 p hp)
    · rw [hp'] at hpb
      rw [hq'] at hqb
      exact absurd hqb (((hbelow hlength).2 b hpb).2.1 q hq)
    · rfl
  · intro p j v hp hv
    rw [hslots p j hp] at hv
    split at hv
    · obtain ⟨hpresent, rfl⟩ := view_eq_some hv
      exact huser hpresent
    · exact h.user p j v hp hv
  · rw [hstep.kernel]
    exact h.kernel
  · intro p hp hk
    rw [hstep.kernel] at hk
    rcases htables p hp with hsame | ⟨_, hlength, hchild⟩
    · rw [hsame] at hk
      exact h.kernelApart p hp hk
    · rw [hchild] at hk
      exact ((hbelow hlength).2 _ hk).2.2.1 rfl

/-- Storing into a table of the last level. -/
theorem setLeaf_keeps (h : TreeInv s) (ht : InTree t) (hlength : t.length = 3)
    (ha : s.table t = some a) (huser : isPresent e = true → (e &&& pageUser) ≠ 0) :
    SlotStep s (s.setEntry a i e) t i (view e) :=
  setEntry_keeps h (UserSlot.of_last ht hlength) ha (fun hlt => by omega) huser

/-- Zeroing the entry of an empty table. -/
theorem unlink_keeps (h : TreeInv s) (hslot : UserSlot t i) (ha : s.table t = some a)
    (hempty : ∀ j, s.slot (t ++ [i]) j = none) :
    SlotStep s (s.setEntry a i 0) t i none := by
  refine setEntry_keeps h hslot ha (fun _ => ⟨hempty, fun b hb => ?_⟩) fun hp => ?_
  · rw [childTable_zero] at hb
    cases hb
  · rw [isPresent_zero] at hp
    cases hp

end Store

/-! ## Frames joining and leaving -/

/-- The owned list changes, the memory of the tables does not. -/
theorem slots_of_memory (hroot : s'.space.root = s.space.root)
    (hmemory : ∀ p a, InTree p → s.table p = some a → s'.physical.memory a = s.physical.memory a)
    (hp : InTree p) : s'.table p = s.table p ∧ ∀ i, s'.slot p i = s.slot p i := by
  have htable : s'.table p = s.table p := by
    rw [table, hroot]
    exact walk_congr_tables inTree_prefixClosed hmemory hp
  refine ⟨htable, fun i => ?_⟩
  rw [slot, slot, htable]
  cases ha : s.table p with
  | none => rfl
  | some a => rw [bind_some, bind_some, entry, entry, hmemory p a hp ha]

/-- The tree part of the invariant follows the memory of the tables. -/
theorem TreeInv.of_memory (h : TreeInv s) (s' : SpaceState) (hroot : s'.space.root = s.space.root)
    (hmemory : ∀ a ∈ s.space.ownedFrames, s'.physical.memory a = s.physical.memory a)
    (hframes : FrameInv s'.physical) (hheld : ∀ a ∈ s'.space.ownedFrames, Held s'.physical a)
    (hnodup : s'.space.ownedFrames.Nodup)
    (hreach : ∀ p a, InTree p → s.table p = some a → a ∈ s'.space.ownedFrames)
    (hkernel : s.kernelTable ∈ s'.space.ownedFrames) : TreeInv s' ∧ s'.kernelTable = s.kernelTable ∧
      ∀ p, InTree p → s'.table p = s.table p ∧ ∀ i, s'.slot p i = s.slot p i := by
  have hsame : ∀ p, InTree p → s'.table p = s.table p ∧ ∀ i, s'.slot p i = s.slot p i :=
    fun p hp => slots_of_memory hroot (fun q a hq ha => hmemory a (h.reach q a hq ha)) hp
  have hkt : s'.kernelTable = s.kernelTable := by
    unfold kernelTable entry
    rw [hroot, hmemory _ h.root_owned]
  refine ⟨⟨hframes, hheld, hnodup, ?_, ?_, ?_, ?_, ?_⟩, hkt, hsame⟩
  · intro p a hp ha
    rw [(hsame p hp).1] at ha
    exact hreach p a hp ha
  · intro p q a hp hq hpa hqa
    change s'.table p = some a at hpa
    change s'.table q = some a at hqa
    rw [(hsame p hp).1] at hpa
    rw [(hsame q hq).1] at hqa
    exact h.separated p q a hp hq hpa hqa
  · intro p i e hp he
    rw [(hsame p hp.1).2 i] at he
    exact h.user p i e hp he
  · rw [hkt]
    exact hkernel
  · intro p hp
    rw [hkt, (hsame p hp).1]
    exact h.kernelApart p hp

theorem nodup_append_single {α : Type} {list : List α} {a : α} (h : list.Nodup) (ha : a ∉ list) :
    (list ++ [a]).Nodup := by
  rw [← concat_eq_append]
  exact List.Nodup.concat ha h

/-- A table frame: none is to be had and nothing changes, or a zeroed frame joins the owned ones. -/
theorem allocateTable_cases (h : FrameInv s.physical) : addressSpaceAllocateTable s = (0, s) ∨
    ∃ b s', addressSpaceAllocateTable s = (b, s') ∧ b ≠ 0 ∧ ¬ Held s.physical b ∧
      s'.space = { s.space with ownedFrames := s.space.ownedFrames ++ [b] } ∧
      Accounted s.physical s'.physical ∧
      (∀ a, Held s'.physical a ↔ a = b ∨ Held s.physical a) ∧
      s'.physical.memory = Function.update s.physical.memory b fun _ => 0 := by
  unfold addressSpaceAllocateTable
  split
  next => exact .inl rfl
  next hroom =>
  rcases physicalAllocFrame_spec h with hnone | ⟨b, q, heq, hb, hfresh, hheld, hmemory⟩
  · rw [hnone]
    exact .inl rfl
  · have hacc := accounted_physicalAllocFrames s.physical 1
    rw [show physicalAllocFrames s.physical 1 = (b, q) from heq] at hacc
    rw [heq]
    simp only [if_neg hb]
    refine .inr ⟨b, _, rfl, hb, hfresh, rfl, hacc.trans (Accounted.withMemory q _), hheld, ?_⟩
    change Function.update q.memory b (fun _ => 0) = _
    rw [hmemory, Function.update_idem]

theorem allocateTable_spec (h : TreeInv s) : addressSpaceAllocateTable s = (0, s) ∨
    ∃ b s', addressSpaceAllocateTable s = (b, s') ∧ b ≠ 0 ∧ b ∉ s.space.ownedFrames ∧
      s'.space.ownedFrames = s.space.ownedFrames ++ [b] ∧ TreeInv s' ∧ TableStep s s' ∧
      (∀ p, InTree p → s'.table p = s.table p ∧ ∀ i, s'.slot p i = s.slot p i) ∧
      ∀ j, s'.entry b j = 0 := by
  rcases allocateTable_cases h.frames with hnone | ⟨b, s', heq, hb, hfresh, hspace, hacc, hheld, hmemory⟩
  · exact .inl hnone
  have hnot : b ∉ s.space.ownedFrames := fun hmem => hfresh (h.held b hmem)
  have howned : s'.space.ownedFrames = s.space.ownedFrames ++ [b] := by rw [hspace]
  have hold : ∀ a, a ≠ b → s'.physical.memory a = s.physical.memory a := by
    intro a hne
    rw [hmemory, Function.update_of_ne hne]
  obtain ⟨htree, hkernel, hsame⟩ := h.of_memory s' (by rw [hspace])
    (fun a ha => hold a fun heq => hnot (heq ▸ ha)) (hacc.inv h.frames)
    (fun a ha => by
      rw [howned] at ha
      rcases mem_append.mp ha with hmem | hmem
      · exact (hheld a).mpr (.inr (h.held a hmem))
      · exact (hheld a).mpr (.inl (mem_singleton.mp hmem)))
    (by rw [howned]; exact nodup_append_single h.nodup hnot)
    (fun p a hp ha => by rw [howned]; exact mem_append_left _ (h.reach p a hp ha))
    (by rw [howned]; exact mem_append_left _ h.kernel)
  refine .inr ⟨b, s', heq, hb, hnot, howned, htree, ⟨hacc, by rw [hspace], by rw [hspace], fun a => ?_,
    fun a ha _ => hold a fun heq => hfresh (heq ▸ ha), hkernel⟩, hsame, fun j => ?_⟩
  · rw [hheld a, howned, mem_append, mem_singleton]
    constructor
    · rintro ⟨rfl | ha, hn⟩
      · exact absurd (.inr rfl) hn
      · exact ⟨ha, fun hmem => hn (.inl hmem)⟩
    · rintro ⟨ha, hn⟩
      exact ⟨.inr ha, fun hor => hor.elim hn fun heq => hfresh (heq ▸ ha)⟩
  · rw [entry, hmemory, Function.update_self]

/-- An owned frame no path reaches may leave. -/
theorem drop_keeps (h : TreeInv s) (s' : SpaceState) {b : Word} (hb : b ∈ s.space.ownedFrames)
    (hunreached : ∀ p, InTree p → s.table p ≠ some b) (hkernel : b ≠ s.kernelTable)
    (hphysical : s'.physical = physicalFreeFrame s.physical b)
    (hroot : s'.space.root = s.space.root)
    (hanonymous : s'.space.anonymousFrames = s.space.anonymousFrames)
    (hnodup : s'.space.ownedFrames.Nodup)
    (hmem : ∀ a, a ∈ s'.space.ownedFrames ↔ a ∈ s.space.ownedFrames ∧ a ≠ b) :
    TreeInv s' ∧ TableStep s s' ∧
      ∀ p, InTree p → s'.table p = s.table p ∧ ∀ i, s'.slot p i = s.slot p i := by
  have hheldb := h.held b hb
  have hfree := physicalFreeFrame_spec h.frames hheldb
  have hmemory : s'.physical.memory = s.physical.memory := by
    rw [hphysical, physicalFreeFrame_memory]
  have hacc : Accounted s.physical s'.physical := by
    rw [hphysical]
    exact accounted_physicalFreeFrames s.physical b 1
  obtain ⟨htree, hkt, hsame⟩ := h.of_memory s' hroot (fun a _ => by rw [hmemory])
    (hacc.inv h.frames)
    (fun a ha => by
      obtain ⟨howned, hne⟩ := (hmem a).mp ha
      rw [hphysical]
      exact (hfree a).mpr ⟨h.held a howned, hne⟩)
    hnodup
    (fun p a hp ha => (hmem a).mpr ⟨h.reach p a hp ha, fun heq => hunreached p hp (heq ▸ ha)⟩)
    ((hmem _).mpr ⟨h.kernel, hkernel.symm⟩)
  refine ⟨htree, ⟨hacc, hroot, hanonymous, ?_, fun a _ _ => by rw [hmemory], hkt⟩, hsame⟩
  intro a
  rw [hphysical, hfree a, hmem a]
  constructor
  · rintro ⟨⟨ha, hne⟩, hnot⟩
    exact ⟨ha, fun howned => hnot ⟨howned, hne⟩⟩
  · rintro ⟨ha, hnot⟩
    exact ⟨⟨ha, fun heq => hnot (heq ▸ hb)⟩, fun hboth => hnot hboth.1⟩

end KernelBoot.Mm
