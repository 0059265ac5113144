import KernelBoot.Laws.Mm.TableShape

/-!
# One page of a space

What mapping, unmapping and re-flagging one page do to the tree, and what the kernel's checks read
from it. `page s va` is the present entry of the page at `va`. Every operation either fails and
leaves the tree, the owned frames and the allocator as they were, or changes the entry of that one
page.
-/

namespace KernelBoot.Mm

open Lib List

variable {p : Path} {a b : Word} {i : Index} {s' : SpaceState}
variable {ownedBefore va : Nat} {s : SpaceState} {rest : List Word} (made : List (Word × Index))

/-! ## Addresses and paths -/

/-- The indices of the levels above the last. -/
def pathOf (virtualAddress : Nat) : Path :=
  [pml4Index virtualAddress, pdptIndex virtualAddress, pdIndex virtualAddress]

/-- The present entry of a page. -/
def SpaceState.page (s : SpaceState) (virtualAddress : Nat) : Option Word :=
  s.slot (pathOf virtualAddress) (ptIndex virtualAddress)

theorem pageAccepted_iff (va : Nat) :
    pageAccepted va = true ↔ va % 4096 = 0 ∧ 2 ^ 39 ≤ va ∧ va < 2 ^ 48 := by
  simp only [pageAccepted, pageSize, Bool.and_eq_true, beq_iff_eq, decide_eq_true_eq, and_assoc]

theorem tableIndex_val (va shift : Nat) : (tableIndex va shift).val = va / 2 ^ shift % 512 := by
  rw [tableIndex, Fin.val_ofNat, Nat.shiftRight_eq_div_pow]

@[simp] theorem pathOf_length (va : Nat) : (pathOf va).length = 3 := rfl

theorem pathOf_inTree (h : pageAccepted va = true) : InTree (pathOf va) := by
  obtain ⟨_, hlow, hhigh⟩ := (pageAccepted_iff va).mp h
  refine ⟨Nat.le_refl 3, fun hzero => ?_⟩
  have hindex : (pml4Index va).val = 0 := congrArg Fin.val (Option.some.inj hzero)
  rw [pml4Index, tableIndex_val] at hindex
  omega

/-- Two pages with the same indices are one page. -/
theorem pathOf_injective {va' : Nat} (h : pageAccepted va = true) (h' : pageAccepted va' = true)
    (hpath : pathOf va = pathOf va') (hleaf : ptIndex va = ptIndex va') : va = va' := by
  obtain ⟨haligned, hlow, hhigh⟩ := (pageAccepted_iff va).mp h
  obtain ⟨haligned', hlow', hhigh'⟩ := (pageAccepted_iff va').mp h'
  simp only [pathOf, cons.injEq, and_true] at hpath
  obtain ⟨h4, h3, h2⟩ := hpath
  have h4 := congrArg Fin.val h4
  have h3 := congrArg Fin.val h3
  have h2 := congrArg Fin.val h2
  have h1 := congrArg Fin.val hleaf
  rw [pml4Index, pml4Index, tableIndex_val, tableIndex_val] at h4
  rw [pdptIndex, pdptIndex, tableIndex_val, tableIndex_val] at h3
  rw [pdIndex, pdIndex, tableIndex_val, tableIndex_val] at h2
  rw [ptIndex, ptIndex, tableIndex_val, tableIndex_val] at h1
  omega

/-! ## Walks -/

theorem table_child (ha : s.table p = some a) (h : isPresent (s.entry a i) = true) :
    s.table (p ++ [i]) = some (tableOf (s.entry a i)) := by
  rw [table_concat, slot_of_table ha, view_of_present h, Option.map_some]

theorem table_child_none (ha : s.table p = some a) (h : ¬ isPresent (s.entry a i) = true) :
    s.table (p ++ [i]) = none := by
  rw [table_concat, slot_of_table ha, view_eq_none.mpr h, Option.map_none]

/-- The walk finds the tables of the path, or the last of them is missing. -/
theorem tables_spec (s : SpaceState) (va : Nat) :
    (s.tables isPresent va = none ∧ s.table (pathOf va) = none) ∨
    ∃ tables, s.tables isPresent va = some tables ∧ s.table (pathOf va) = some tables.pt ∧
      Levels s (pathOf va) [(tables.pt, tables.pd, pdIndex va), (tables.pd, tables.pdpt, pdptIndex va),
        (tables.pdpt, s.space.root, pml4Index va)] := by
  have hroot := table_nil s
  simp only [SpaceState.tables, Bool.not_eq_true', ← Bool.not_eq_true, ite_not]
  split
  case isFalse h4 =>
    exact .inl ⟨rfl, table_below_none [pdptIndex va, pdIndex va] (table_child_none hroot h4)⟩
  case isTrue h4 =>
  have hone := table_child hroot h4
  split
  case isFalse h3 => exact .inl ⟨rfl, table_below_none [pdIndex va] (table_child_none hone h3)⟩
  case isTrue h3 =>
  have htwo := table_child hone h3
  split
  case isFalse h2 => exact .inl ⟨rfl, table_child_none htwo h2⟩
  case isTrue h2 =>
  have hthree := table_child htwo h2
  exact .inr ⟨_, rfl, hthree, Levels.cons (t := [pml4Index va, pdptIndex va]) hthree htwo
    (Levels.cons (t := [pml4Index va]) htwo hone (Levels.cons (t := []) hone hroot Levels.nil))⟩

theorem page_of_table {pt : Word} (h : s.table (pathOf va) = some pt) :
    s.page va = view (s.entry pt (ptIndex va)) := slot_of_table h (ptIndex va)

theorem page_of_no_table (h : s.table (pathOf va) = none) :
    s.page va = none := slot_eq_none_of_table h (ptIndex va)

/-- On a space's own entries the two tests of the walks agree. -/
theorem isPresentUser_eq (h : TreeInv s) (hslot : UserSlot p i) (ha : s.table p = some a) :
    isPresentUser (s.entry a i) = isPresent (s.entry a i) := by
  rw [Bool.eq_iff_iff, isPresentUser_iff]
  refine ⟨And.left, fun hp => ⟨hp, h.user p i _ hslot ?_⟩⟩
  rw [slot_of_table ha, view_of_present hp]

theorem tables_user (h : TreeInv s) (hva : pageAccepted va = true) :
    s.tables isPresentUser va = s.tables isPresent va := by
  have hpath := pathOf_inTree hva
  have hin1 : InTree [pml4Index va] := inTree_prefixClosed _ [pdptIndex va, pdIndex va] hpath
  have hin2 : InTree [pml4Index va, pdptIndex va] := inTree_prefixClosed _ [pdIndex va] hpath
  have hslot4 : UserSlot [] (pml4Index va) := (inTree_concat.mp hin1).1
  have hroot := table_nil s
  simp only [SpaceState.tables, Bool.not_eq_true', ← Bool.not_eq_true, ite_not]
  rw [isPresentUser_eq h hslot4 hroot]
  refine ite_congr rfl (fun h4 => ?_) fun _ => rfl
  have hone := table_child hroot h4
  rw [isPresentUser_eq h (UserSlot.of_ne_nil hin1 (cons_ne_nil _ _)) hone]
  refine ite_congr rfl (fun h3 => ?_) fun _ => rfl
  rw [isPresentUser_eq h (UserSlot.of_ne_nil hin2 (cons_ne_nil _ _)) (table_child hone h3)]

/-! ## What the checks read -/

/-- An accepted page of a space passes the guard that opens every page operation. -/
theorem page_guard (h : TreeInv s) (hva : pageAccepted va = true) :
    ¬ (s.space.root = 0 ∨ (!pageAccepted va) = true) := by
  rintro (hzero | hrefused)
  · exact h.root_ne_zero hzero
  · rw [hva] at hrefused
    cases hrefused

section Checks

variable {s : SpaceState} (h : TreeInv s) {va : Nat} (hva : pageAccepted va = true)

include h hva

/-- A check on the last entry of a walk is a check on the page. -/
theorem user_walk_iff (test : Word → Bool) (htest : ∀ e, test e = true → isPresentUser e = true) :
    (match s.tables isPresentUser va with
      | none => false
      | some tables => test (s.entry tables.pt (ptIndex va))) = true ↔
    ∃ e, s.page va = some e ∧ test e = true := by
  rw [tables_user h hva]
  rcases tables_spec s va with ⟨hnone, htable⟩ | ⟨tables, hsome, htable, _⟩
  · rw [hnone, page_of_no_table htable]
    refine ⟨fun hf => absurd hf Bool.false_ne_true, ?_⟩
    rintro ⟨e, he, _⟩
    cases he
  rw [hsome, page_of_table htable]
  constructor
  · intro ht
    have hpresent := ((isPresentUser_iff _).mp (htest _ ht)).1
    exact ⟨_, view_of_present hpresent, ht⟩
  · rintro ⟨e, he, ht⟩
    rw [(view_eq_some he).2] at ht
    exact ht

theorem page_user {e : Word} (he : s.page va = some e) : isPresentUser e = true := by
  have hpath := UserSlot.of_ne_nil (i := ptIndex va) (pathOf_inTree hva) (cons_ne_nil _ _)
  obtain ⟨pt, hpt⟩ := table_isSome_of_slot he
  have hview := (slot_of_table hpt (ptIndex va)).symm.trans he
  exact (isPresentUser_iff e).mpr ⟨(view_eq_some hview).2 ▸ (view_eq_some hview).1,
    h.user _ _ e hpath he⟩

theorem pageExecutable_iff :
    addressSpacePageExecutable s va = true ↔ ∃ e, s.page va = some e ∧ (e &&& pageNx) = 0 := by
  rw [addressSpacePageExecutable, if_neg (page_guard h hva)]
  refine (user_walk_iff h hva (fun e => isPresentUser e && (e &&& pageNx) == 0) ?_).trans ?_
  · intro e he
    exact (Bool.and_eq_true_iff.mp he).1
  · refine exists_congr fun e => and_congr_right fun he => ?_
    rw [Bool.and_eq_true, page_user h hva he, beq_iff_eq]
    exact ⟨And.right, fun hx => ⟨rfl, hx⟩⟩

theorem userPageValid_iff (writable : Bool) :
    userPageValid s writable va = true ↔
      ∃ e, s.page va = some e ∧ (writable = true → (e &&& pageWritable) ≠ 0) := by
  have hiff : ∀ e, hasAll (if writable then pagePresent ||| pageUser ||| pageWritable
      else pagePresent ||| pageUser) e = true ↔
      isPresentUser e = true ∧ (writable = true → (e &&& pageWritable) ≠ 0) := by
    intro e
    cases writable with
    | false => exact ⟨fun he => ⟨he, fun hf => by cases hf⟩, And.left⟩
    | true =>
      rw [if_pos rfl, hasAll_writable_iff]
      exact and_congr_right fun _ => ⟨fun hw _ => hw, fun hw => hw rfl⟩
  refine (user_walk_iff h hva _ fun e he => ((hiff e).mp he).1).trans ?_
  refine exists_congr fun e => and_congr_right fun he => ?_
  rw [hiff e]
  exact ⟨And.right, fun hw => ⟨page_user h hva he, hw⟩⟩

end Checks

/-! ## Undoing a walk -/

/-- The tree, the owned frames and everything a table change leaves alone are back. -/
structure Restored (s s' : SpaceState) : Prop where
  inv : TreeInv s'
  step : TableStep s s'
  owned : s'.space.ownedFrames = s.space.ownedFrames
  slot : ∀ p i, UserSlot p i → s'.slot p i = s.slot p i

theorem Restored.refl (h : TreeInv s) : Restored s s :=
  ⟨h, TableStep.refl s, rfl, fun _ _ _ => rfl⟩

theorem Restored.table (h : Restored s s') (hp : InTree p) :
    s'.table p = s.table p := table_congr h.step.root hp h.slot

theorem Restored.held (h : Restored s s') (hs : TreeInv s) (a : Word) :
    Held s'.physical a ↔ Held s.physical a := by
  by_cases hmem : a ∈ s.space.ownedFrames
  · exact ⟨fun _ => hs.held a hmem, fun _ => h.inv.held a (h.owned ▸ hmem)⟩
  · have houtside := h.step.outside a
    rw [h.owned] at houtside
    exact ⟨fun ha => (houtside.mp ⟨ha, hmem⟩).1, fun ha => (houtside.mpr ⟨ha, hmem⟩).1⟩

/-- A restored space is as well formed as it was, with the allocator untouched. -/
theorem Restored.spaceInv (h : Restored s s') (hs : SpaceInv s) : SpaceInv s' :=
  hs.congr h.inv h.step.root h.owned h.step.kernel h.slot

theorem Restored.allocator (h : Restored s s') (hs : TreeInv s) :
    SameAllocator s.physical s'.physical :=
  h.step.accounted.same hs.frames (h.held hs)

theorem popOwned_nil (h : s.space.ownedFrames = []) : s.popOwned = s := by
  rw [SpaceState.popOwned, h, getLast?_nil]

theorem popOwned_concat (h : s.space.ownedFrames = rest ++ [b]) :
    s.popOwned = { physical := physicalFreeFrame s.physical b
                   space := { s.space with ownedFrames := rest } } := by
  rw [SpaceState.popOwned, h, getLast?_concat, dropLast_concat]

theorem popOwned_setEntry (s : SpaceState) (a : Word) (i : Index) (e : Word) :
    (s.setEntry a i e).popOwned = s.popOwned.setEntry a i e := by
  -- Writing an entry leaves the list of tables alone, so both sides pop the same frame.
  have hsame : (s.setEntry a i e).space.ownedFrames = s.space.ownedFrames := rfl
  rcases eq_nil_or_concat' s.space.ownedFrames with hnil | ⟨rest, b, hconcat⟩
  · rw [popOwned_nil hnil, popOwned_nil (hsame.trans hnil)]
  · rw [popOwned_concat hconcat, popOwned_concat (hsame.trans hconcat)]
    simp only [SpaceState.setEntry, physicalFreeFrame_withMemory, physicalFreeFrame_memory]

theorem popOwned_clearEntries (s : SpaceState) :
    (s.clearEntries made).popOwned = s.popOwned.clearEntries made := by
  induction made generalizing s with
  | nil => rfl
  | cons entry made ih =>
    rw [SpaceState.clearEntries, ih, popOwned_setEntry, SpaceState.clearEntries]

/-- The last table made is the first undone. -/
theorem rollback_cons {made : List (Word × Index)} (howned : s.space.ownedFrames = rest ++ [b])
    (hle : ownedBefore ≤ rest.length) : addressSpaceRollbackTables ownedBefore ((a, i) :: made) s =
      addressSpaceRollbackTables ownedBefore made (s.setEntry a i 0).popOwned := by
  have hlength : s.space.ownedFrames.length - ownedBefore = (rest.length - ownedBefore) + 1 := by
    rw [howned, length_append, length_singleton]
    omega
  have hpopped : (s.setEntry a i 0).popOwned.space.ownedFrames = rest := by
    rw [popOwned_concat (show (s.setEntry a i 0).space.ownedFrames = rest ++ [b] from howned)]
  rw [addressSpaceRollbackTables, addressSpaceRollbackTables, hlength, hpopped,
    SpaceState.popOwnedTimes, SpaceState.clearEntries, popOwned_clearEntries]

/-- Zeroing the entry of a table just made, and freeing it, restores the space. -/
theorem undo_link {s₁ s₂ : SpaceState} {t : Path} (hs : TreeInv s) (hslot : UserSlot t i)
    (hlength : t.length < 3) (ha : s.table t = some a) (hnone : s.slot t i = none)
    (hlink : Linked s s₁ t i b) (hrest : Restored s₁ s₂) :
    Restored s (s₂.setEntry a i 0).popOwned := by
  have hin : InTree (t ++ [i]) := inTree_concat.mpr ⟨hslot, hlength⟩
  have hne := concat_ne_self t i
  have ha₂ : s₂.table t = some a := by
    rw [hrest.table hslot.1, hlink.table hslot.1, if_neg hne.symm, ha]
  have hb₂ : s₂.table (t ++ [i]) = some b := by
    rw [hrest.table hin, hlink.table hin, if_pos rfl]
  have hempty : ∀ j, s₂.slot (t ++ [i]) j = none := by
    intro j
    have hus : UserSlot (t ++ [i]) j := UserSlot.of_ne_nil hin (append_ne_nil_of_right_ne_nil _
      (cons_ne_nil i []))
    rw [hrest.slot _ j hus, hlink.change.slot _ j hus, if_neg fun hboth => hne hboth.1]
    exact slot_eq_none_of_table (by rw [table_concat, hnone, Option.map_none]) j
  have hunlink := unlink_keeps hrest.inv hslot ha₂ hempty
  have howned : (s₂.setEntry a i 0).space.ownedFrames = s.space.ownedFrames ++ [b] :=
    hrest.owned.trans hlink.owned
  generalize s₂.setEntry a i 0 = s₃ at hunlink howned ⊢
  have hmem : b ∈ s₃.space.ownedFrames := by
    rw [howned]
    exact mem_append_right _ mem_cons_self
  have hunreached : ∀ p, InTree p → s₃.table p ≠ some b := by
    intro p hp hpb
    rw [hunlink.table hp] at hpb
    split at hpb
    next => cases hpb
    next hpt => exact hpt (hrest.inv.separated p (t ++ [i]) b hp hin hpb hb₂)
  have hkernel : b ≠ s₃.kernelTable := by
    rw [hunlink.step.kernel, hrest.step.kernel, hlink.change.step.kernel]
    exact fun heq => hlink.fresh (heq ▸ hs.kernel)
  have hpop : s₃.popOwned =
      { physical := physicalFreeFrame s₃.physical b
        space := { s₃.space with ownedFrames := s.space.ownedFrames } } := popOwned_concat howned
  obtain ⟨htree, hstep, hsame⟩ := drop_keeps hunlink.inv s₃.popOwned hmem hunreached hkernel (by rw [hpop]) (by rw [hpop]) (by rw [hpop]) (by rw [hpop]; exact hs.nodup)
    (fun c => by
      rw [hpop, howned, mem_append, mem_singleton]
      refine ⟨fun hc => ⟨.inl hc, fun heq => hlink.fresh (heq ▸ hc)⟩, fun hc => ?_⟩
      exact hc.1.resolve_right hc.2)
  refine ⟨htree, ((hlink.change.step.trans hrest.step).trans hunlink.step).trans hstep,
    by rw [hpop], fun p j hp => ?_⟩
  rw [(hsame p hp.1).2 j, hunlink.slot p j hp]
  by_cases heq : p = t ∧ j = i
  · rw [if_pos heq, heq.1, heq.2, hnone]
  · rw [if_neg heq, hrest.slot p j hp, hlink.change.slot p j hp, if_neg heq]

/-! ## Making the tables of a path -/

/-- The outcome of a walk that makes tables: they are there and the pages are as they were, or the
rollback starts from a restored space. -/
theorem makeTables_spec (rest : List Index) {t : Path} (made : List (Word × Index)) (h : Shape s t)
    (hin : InTree (t ++ rest)) (ha : s.table t = some a)
    (hle : ownedBefore ≤ s.space.ownedFrames.length) :
    (∃ s', addressSpaceMakeTables linkFlags ownedBefore rest a made s =
        .error (addressSpaceRollbackTables ownedBefore made s') ∧ Restored s s') ∨
    ∃ pt s', addressSpaceMakeTables linkFlags ownedBefore rest a made s = .ok (pt, s') ∧
      Shape s' (t ++ rest) ∧ TableStep s s' ∧ s'.table (t ++ rest) = some pt ∧
      (∀ p b, InTree p → s.table p = some b → s'.table p = some b) ∧
      ∀ p j, InTree p → p.length = 3 → s'.slot p j = s.slot p j := by
  induction rest generalizing t a s made with
  | nil =>
    rw [append_nil]
    exact .inr ⟨a, s, rfl, h, TableStep.refl s, ha, fun _ _ _ hb => hb, fun _ _ _ _ => rfl⟩
  | cons i rest ih =>
    have hassoc : t ++ i :: rest = t ++ [i] ++ rest := by
      rw [append_assoc, singleton_append]
    have hhere : InTree (t ++ [i]) := inTree_prefixClosed _ rest (hassoc ▸ hin)
    obtain ⟨hslot, hlength⟩ := inTree_concat.mp hhere
    rw [addressSpaceMakeTables]
    by_cases hpresent : isPresent (s.entry a i) = true
    · have hshape : Shape s (t ++ [i]) := by
        refine ⟨h.toTreeInv, h.owns, fun p b hp hpne hnot hb => ?_⟩
        exact h.used p b hp hpne (fun hpre => hnot (hpre.trans (prefix_append t [i]))) hb
      rw [if_pos hpresent, hassoc]
      exact ih made hshape (hassoc ▸ hin) (table_child ha hpresent) hle
    have hnone : s.slot t i = none := by rw [slot_of_table ha, view_eq_none.mpr hpresent]
    rw [if_neg hpresent]
    rcases link_spec h hslot hlength ha hnone with hzero | ⟨b, s₁, hallocate, hb, hlink⟩
    · rw [hzero]
      exact .inl ⟨s, rfl, Restored.refl h.toTreeInv⟩
    rw [hallocate]
    simp only [if_neg hb]
    have hentry : (s₁.setEntry a i (b ||| linkFlags)).entry a i = b ||| linkFlags := write_here
    have htable : (s₁.setEntry a i (b ||| linkFlags)).table (t ++ [i]) = some b := by
      rw [hlink.table hhere, if_pos rfl]
    have hroom : ownedBefore ≤ (s₁.setEntry a i (b ||| linkFlags)).space.ownedFrames.length := by
      rw [hlink.owned, length_append]
      omega
    rw [hentry, hlink.names, hassoc]
    rcases ih ((a, i) :: made) hlink.shape (hassoc ▸ hin) htable hroom with
      ⟨s', heq, hrest⟩ | ⟨pt, s', heq, hshape, hstep, hpt, htables, hpages⟩
    · refine .inl ⟨_, ?_, undo_link h.toTreeInv hslot hlength ha hnone hlink hrest⟩
      rw [heq, rollback_cons (hrest.owned.trans hlink.owned) hle]
    refine .inr ⟨pt, s', heq, hshape, hlink.change.step.trans hstep, hpt, ?_, ?_⟩
    · intro p c hp hc
      apply htables p c hp
      rw [hlink.table hp, if_neg]
      · exact hc
      · rintro rfl
        rw [table_concat, hnone] at hc
        cases hc
    · intro p j hp hl
      rw [hpages p j hp hl, hlink.change.slot p j (UserSlot.of_last hp hl), if_neg]
      rintro ⟨rfl, _⟩
      omega

/-! ## The three page operations -/

/-- A request to map a page the code goes on with. -/
def MapAccepted (va : Nat) (pa flags : Word) : Prop :=
  pageAccepted va = true ∧ (pa &&& 0xfff#64) = 0 ∧ pa.toNat < 0x100000000 ∧
    flagsAccepted pageFlags flags = true

/-- One page changes: its entry becomes `v`, no other page's does. -/
structure PageStep (s s' : SpaceState) (va : Nat) (v : Option Word) : Prop where
  inv : SpaceInv s'
  step : TableStep s s'
  pages : ∀ p j, InTree p → p.length = 3 →
    s'.slot p j = if p = pathOf va ∧ j = ptIndex va then v else s.slot p j

theorem PageStep.page {v : Option Word} (h : PageStep s s' va v) (hva : pageAccepted va = true)
    {va' : Nat} (hva' : pageAccepted va' = true) :
    s'.page va' = if va' = va then v else s.page va' := by
  rw [SpaceState.page, h.pages _ _ (pathOf_inTree hva') (pathOf_length va')]
  by_cases heq : va' = va
  · rw [if_pos heq, heq, if_pos ⟨rfl, rfl⟩]
  · rw [if_neg heq, if_neg]
    · rfl
    · exact fun hboth => heq (pathOf_injective hva' hva hboth.1 hboth.2)

theorem mapped_iff (s : SpaceState) (va : Nat) :
    addressSpaceMapped s va = true ↔ s.page va ≠ none := by
  unfold addressSpaceMapped
  rcases tables_spec s va with ⟨hnone, htable⟩ | ⟨tables, hsome, htable, _⟩
  · rw [hnone, page_of_no_table htable]
    exact ⟨fun hf => absurd hf Bool.false_ne_true, fun hf => absurd rfl hf⟩
  · rw [hsome, page_of_table htable, ne_eq, view_eq_none, not_not]

/-- Mapping a page fails and restores the space, or stores the entry of an accepted page that was
not mapped; tables only join. -/
theorem mapPage_spec (h : SpaceInv s) (va : Nat) (pa : Word) {flags : Word}
    (huser : (flags &&& addressSpaceUser) ≠ 0) :
    (∃ s', addressSpaceMapPage s va pa flags = (false, s') ∧ Restored s s') ∨
    ∃ s', addressSpaceMapPage s va pa flags = (true, s') ∧ MapAccepted va pa flags ∧
      s.page va = none ∧ PageStep s s' va (some (mappedEntry pa flags)) ∧
      ∀ p b, InTree p → s.table p = some b → s'.table p = some b := by
  unfold addressSpaceMapPage
  split
  next => exact .inl ⟨s, rfl, Restored.refl h.toTreeInv⟩
  next hguard =>
  simp only [not_or, Bool.not_eq_true', Bool.not_eq_false, ne_eq, not_not, ge_iff_le, not_le]
    at hguard
  obtain ⟨_, hva, haligned, hlow, hflags⟩ := hguard
  have hpath := pathOf_inTree hva
  split
  next => exact .inl ⟨s, rfl, Restored.refl h.toTreeInv⟩
  next hmapped =>
  have hnone : s.page va = none := not_not.mp fun hne => hmapped ((mapped_iff s va).mpr hne)
  have htableFlags : (if (flags &&& pageUser) ≠ 0 then pagePresent ||| pageWritable ||| pageUser
      else pagePresent ||| pageWritable) = linkFlags := if_pos huser
  rw [htableFlags]
  rcases makeTables_spec (pathOf va) (t := []) [] h hpath
    (table_nil s) (Nat.le_refl s.space.ownedFrames.length) with
    ⟨s', heq, hrest⟩ | ⟨pt, s', heq, hshape, hstep, hpt, htables, hpages⟩
  · have hundo : addressSpaceRollbackTables s.space.ownedFrames.length [] s' = s' := by
      rw [addressSpaceRollbackTables, hrest.owned, Nat.sub_self]
      rfl
    rw [hundo] at heq
    refine .inl ⟨s', ?_, hrest⟩
    rw [pathOf] at heq
    simp only [heq]
  obtain ⟨hchange, hinv⟩ := storePage_spec (i := ptIndex va) hshape hpath rfl hpt
    (isPresent_mappedEntry pa flags) (user_mappedEntry pa huser)
  refine .inr ⟨s'.setEntry pt (ptIndex va) (mappedEntry pa flags), ?_,
    ⟨hva, haligned, hlow, hflags⟩, hnone, ⟨hinv, hstep.trans hchange.step, ?_⟩, ?_⟩
  · rw [pathOf] at heq
    simp only [heq]
  · intro p j hp hl
    rw [hchange.slot p j (UserSlot.of_last hp hl), hpages p j hp hl]
    rfl
  · intro p b hp hb
    rw [hchange.table hp, if_neg (not_inTree_below hp rfl)]
    exact htables p b hp hb

/-- Unmapping a page fails and changes nothing, or clears the entry of a mapped page; tables only
leave. -/
theorem unmapPage_spec (h : SpaceInv s) (va : Nat) :
    (addressSpaceUnmapPage s va = (false, s) ∧ (pageAccepted va = true → s.page va = none)) ∨
    ∃ s', addressSpaceUnmapPage s va = (true, s') ∧ pageAccepted va = true ∧
      s.page va ≠ none ∧ PageStep s s' va none ∧
      ∀ p b, InTree p → s'.table p = some b → s.table p = some b := by
  unfold addressSpaceUnmapPage
  split
  next hguard => exact .inl ⟨rfl, fun hva => absurd hguard (page_guard h.toTreeInv hva)⟩
  next hguard =>
  have hva : pageAccepted va = true := by
    rw [not_or, Bool.not_eq_true', Bool.not_eq_false] at hguard
    exact hguard.2
  have hpath := pathOf_inTree hva
  rcases tables_spec s va with ⟨hnone, htable⟩ | ⟨tables, hsome, htable, hlevels⟩
  · rw [hnone]
    exact .inl ⟨rfl, fun _ => page_of_no_table htable⟩
  rw [hsome]
  simp only []
  have hpage := page_of_table htable
  cases hpresent : isPresent (s.entry tables.pt (ptIndex va)) with
  | false =>
    refine .inl ⟨rfl, fun _ => ?_⟩
    rw [hpage, view, hpresent]
    rfl
  | true =>
    rw [view_of_present hpresent] at hpage
    obtain ⟨hclear, hshape, hkept⟩ := clearPage_spec (i := ptIndex va) h hpath rfl htable
    obtain ⟨hinv, hpruned⟩ := prune_spec
      (hlevels.congr fun p hpre => hkept p (by
        obtain ⟨r, hr⟩ := hpre
        exact inTree_prefixClosed p r (hr ▸ hpath))) hshape hpath
    refine .inr ⟨_, rfl, hva, ?_, ⟨hinv, hclear.step.trans hpruned.step, ?_⟩, ?_⟩
    · rw [hpage]
      exact Option.some_ne_none _
    · intro p j hp hl
      exact (hpruned.pages p j hp hl).trans (hclear.slot p j (UserSlot.of_last hp hl))
    · intro p b hp hb
      rw [← hkept p hp]
      exact hpruned.tables p b hp hb

/-- Re-flagging a page fails and changes nothing, or rewrites the entry of a mapped page; the owned
frames and the allocator are not touched. -/
theorem updatePageFlags_spec (h : SpaceInv s) (va : Nat) (flags : Word) :
    (addressSpaceUpdatePageFlags s va flags = (false, s) ∧
      (pageAccepted va = true → flagsAccepted pageFlags flags = true → s.page va = none)) ∨
    ∃ s' e, addressSpaceUpdatePageFlags s va flags = (true, s') ∧ pageAccepted va = true ∧
      flagsAccepted pageFlags flags = true ∧ s.page va = some e ∧
      PageStep s s' va (some (updatedEntry e flags)) ∧
      s'.space = s.space ∧ SameAllocator s.physical s'.physical ∧
      ∀ p, InTree p → s'.table p = s.table p := by
  unfold addressSpaceUpdatePageFlags
  split
  next hguard =>
    refine .inl ⟨rfl, fun hva hflags => ?_⟩
    rcases hguard with hzero | hrefused | hrefused
    · exact absurd hzero h.root_ne_zero
    · rw [hva] at hrefused
      cases hrefused
    · rw [hflags] at hrefused
      cases hrefused
  next hguard =>
    simp only [not_or, Bool.not_eq_true', Bool.not_eq_false] at hguard
    obtain ⟨_, hva, hflags⟩ := hguard
    have hpath := pathOf_inTree hva
    rcases tables_spec s va with ⟨hnone, htable⟩ | ⟨tables, hsome, htable, _⟩
    · rw [hnone]
      exact .inl ⟨rfl, fun _ _ => page_of_no_table htable⟩
    rw [hsome]
    have hpage := page_of_table htable
    have huser := isPresentUser_eq h.toTreeInv
      (UserSlot.of_ne_nil (i := ptIndex va) hpath (cons_ne_nil _ _)) htable
    simp only [huser]
    cases hpresent : isPresent (s.entry tables.pt (ptIndex va)) with
    | false =>
      refine .inl ⟨rfl, fun _ _ => ?_⟩
      rw [hpage, view, hpresent]
      rfl
    | true =>
      rw [view_of_present hpresent] at hpage
      obtain ⟨hchange, hinv⟩ := storePage_spec (i := ptIndex va) (h.shape (pathOf va)) hpath rfl
        htable (isPresent_updatedEntry (s.entry tables.pt (ptIndex va)) flags)
        (user_updatedEntry (s.entry tables.pt (ptIndex va)) flags)
      refine .inr ⟨_, _, rfl, hva, hflags, hpage, ⟨hinv, hchange.step, ?_⟩, rfl, ⟨rfl, rfl, rfl⟩, ?_⟩
      · intro p j hp hl
        exact hchange.slot p j (UserSlot.of_last hp hl)
      · intro p hp
        rw [hchange.table hp, if_neg (not_inTree_below hp rfl)]

end KernelBoot.Mm
