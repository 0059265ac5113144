import KernelBoot.Process.Handle
import Mathlib.Tactic.Common

/-!
# What one handle call does

The codec first: a handle names a slot below 31 together with a generation, and nothing else decodes.
Slot 31 has no handle: its encoded slot, 32, does not fit the five bits. Then, for every operation, what
it can do to a table, success and failure both.
-/

namespace KernelBoot.Process

open List Nat

variable {slot : Slot} {handle : Nat} {table : HandleTable}

/-! ## The codec -/

/-- A slot below 31 and its generation sit side by side in a handle. -/
theorem makeHandle_eq (h : slot.val < 31) (generation : Nat) :
    makeHandle slot generation = generation * 32 + (slot.val + 1) := by
  have hlt : slot.val + 1 < 2 ^ 5 := by omega
  rw [makeHandle, show handleSlotBits = 5 from rfl, ← shiftLeft_add_eq_or_of_lt hlt,
    shiftLeft_eq]

/-- The last slot's encoding spills into the generation and leaves the slot field empty. -/
theorem makeHandle_last (h : slot.val = 31) (generation : Nat) :
    makeHandle slot generation % 32 = 0 := by
  rw [makeHandle, show handleSlotBits = 5 from rfl, show (32 : Nat) = 2 ^ 5 from rfl, h,
    or_mod_two_pow, shiftLeft_eq, mul_mod_left]
  rfl

theorem makeHandle_ne_zero (slot : Slot) (generation : Nat) : makeHandle slot generation ≠ 0 := by
  intro h
  have := (or_eq_zero_iff.mp h).2
  omega

theorem decodeHandle_eq (handle : Nat) :
    decodeHandle handle =
      if handle % 32 = 0 ∨ handle / 32 = 0 ∨ handle / 32 > uint16Max then none
      else some (Fin.ofNat handleCapacity (handle % 32 - 1), handle / 32) := by
  have hslot : handle &&& handleSlotMask = handle % 32 := and_two_pow_sub_one_eq_mod handle 5
  have hgeneration : handle >>> handleSlotBits = handle / 32 := shiftRight_eq_div_pow handle 5
  simp only [decodeHandle, hslot, hgeneration]
  -- the other two tests never decide: a zero handle has no slot, and five bits stay below 32
  refine if_congr ?_ rfl rfl
  have hcapacity : handleCapacity = 32 := rfl
  omega

/-- What decodes is the handle made of what it decodes to. -/
theorem decodeHandle_eq_some {generation : Nat} : decodeHandle handle = some (slot, generation) ↔
      handle = makeHandle slot generation ∧ slot.val < 31 ∧ 1 ≤ generation ∧
        generation ≤ uint16Max := by
  rw [decodeHandle_eq]
  constructor
  · intro h
    split at h
    · cases h
    next hvalid =>
    simp only [Option.some.injEq, Prod.mk.injEq] at h
    obtain ⟨hslot, rfl⟩ := h
    have hval : slot.val = handle % 32 - 1 := by
      rw [← hslot, Fin.val_ofNat, mod_eq_of_lt (by change _ < 32; omega)]
    have hlt : slot.val < 31 := by omega
    refine ⟨?_, hlt, by omega, by omega⟩
    rw [makeHandle_eq hlt]
    omega
  · rintro ⟨rfl, hlt, hone, hmax⟩
    rw [makeHandle_eq hlt, if_neg (by omega)]
    simp only [Option.some.injEq, Prod.mk.injEq]
    refine ⟨?_, by omega⟩
    apply Fin.ext
    rw [Fin.val_ofNat, mod_eq_of_lt (by omega)]
    omega

theorem decodeHandle_makeHandle_last (h : slot.val = 31) (generation : Nat) :
    decodeHandle (makeHandle slot generation) = none := by
  rw [decodeHandle_eq, if_pos (.inl (makeHandle_last h generation))]

/-! ## Lookup -/

/-- A live entry that a handle of this table can name. -/
structure HandleTable.Live (table : HandleTable) (slot : Slot) : Prop where
  object : (table.entries slot).object ≠ 0
  opened : (table.entries slot).closing = false

/-- A table whose generations fit the 16 bits they are stored in and are never 0. -/
def HandleTable.Numbered (table : HandleTable) : Prop :=
  ∀ slot, 1 ≤ table.generations slot ∧ table.generations slot ≤ uint16Max

theorem resolve_eq_some : table.resolve handle = some slot ↔
      decodeHandle handle = some (slot, table.generations slot) ∧ table.Live slot := by
  unfold HandleTable.resolve
  split
  next hnone => simp [hnone]
  next s g hsome =>
  rw [hsome]
  constructor
  · intro h
    split at h
    next hlive =>
      cases h
      exact ⟨by rw [hlive.1], hlive.2.2, hlive.2.1⟩
    · cases h
  · rintro ⟨h, hlive⟩
    simp only [Option.some.injEq, Prod.mk.injEq] at h
    obtain ⟨rfl, hg⟩ := h
    rw [if_pos ⟨hg.symm, hlive.opened, hlive.object⟩]

/-- In a numbered table a live slot below 31 is what its own handle resolves to. -/
theorem resolve_makeHandle (hnum : table.Numbered) (hlt : slot.val < 31)
    (hlive : table.Live slot) :
    table.resolve (makeHandle slot (table.generations slot)) = some slot :=
  resolve_eq_some.mpr
    ⟨decodeHandle_eq_some.mpr ⟨rfl, hlt, (hnum slot).1, (hnum slot).2⟩, hlive⟩

theorem resolve_live (h : table.resolve handle = some slot) :
    table.Live slot :=
  (resolve_eq_some.mp h).2

theorem resolve_handle (h : table.resolve handle = some slot) :
    handle = makeHandle slot (table.generations slot) :=
  (decodeHandle_eq_some.mp (resolve_eq_some.mp h).1).1

theorem freeSlot_eq_some (h : freeSlot table = some slot) :
    (table.entries slot).object = 0 := by
  have := find?_some h
  simpa using this

/-- The search takes the last slot only when every other one is in use. -/
theorem freeSlot_lt_iff (h : freeSlot table = some slot) :
    slot.val < 31 ↔ ∃ other : Slot, other.val < 31 ∧ (table.entries other).object = 0 := by
  constructor
  · exact fun hlt => ⟨slot, hlt, freeSlot_eq_some h⟩
  · rintro ⟨other, hlt, hfree⟩
    obtain ⟨-, before, after, hsplit, hbefore⟩ := find?_eq_some_iff_append.mp h
    -- slots are searched in increasing order, and `other` is not among those passed over
    have hsorted : (List.finRange handleCapacity).Pairwise (· < ·) := pairwise_lt_finRange _
    have hmem : other ∈ before ++ slot :: after := hsplit ▸ mem_finRange other
    rw [hsplit, pairwise_append] at hsorted
    rcases mem_append.mp hmem with hb | hb
    · have := hbefore other hb
      simp [hfree] at this
    · rcases mem_cons.mp hb with rfl | ha
      · exact hlt
      · have := (pairwise_cons.mp hsorted.2.1).1 other ha
        omega

/-! ## Entries after an update -/

@[simp] theorem setEntry_entries (table : HandleTable) (slot : Slot) (entry : ProcessHandle)
    (s : Slot) :
    (table.setEntry slot entry).entries s = if s = slot then entry else table.entries s := by
  simp only [HandleTable.setEntry, Function.update_apply]

@[simp] theorem setEntry_generations (table : HandleTable) (slot : Slot) (entry : ProcessHandle) :
    (table.setEntry slot entry).generations = table.generations := rfl

/-! ## What each operation can do -/

section Operations

variable (table : HandleTable)

/-- An open fails, or fills the first free slot with what it was given. -/
theorem openOwnedKind_cases (object : Pointer) (rights : Rights) (release retain : Pointer)
    (kind : ObjectKind) :
    processHandleOpenOwnedKind table object rights release retain kind = (0, table) ∨
    ∃ slot, freeSlot table = some slot ∧ object ≠ 0 ∧ rightsOutside rights = false ∧
      processHandleOpenOwnedKind table object rights release retain kind =
        (makeHandle slot (table.generations slot),
          table.setEntry slot { table.entries slot with
            object, rights, release, retain, closing := false, inheritable := true, kind }) := by
  fun_cases processHandleOpenOwnedKind table object rights release retain kind
  · exact .inl rfl
  · exact .inl rfl
  next hargs slot hslot =>
    push Not at hargs
    exact .inr ⟨slot, hslot, hargs.1, Bool.eq_false_of_not_eq_true hargs.2.2, rfl⟩

/-- A duplicate fails, or fills the first free slot from a live entry and retains its object. -/
theorem duplicate_cases (handle : Nat) (rights : Rights) :
    processHandleDuplicate table handle rights = (0, table, []) ∨
    ∃ source slot, table.resolve handle = some source ∧ freeSlot table = some slot ∧
      (rights ≠ 0 → rights &&& ~~~(table.entries source).rights = 0) ∧
      processHandleDuplicate table handle rights =
        (makeHandle slot (table.generations slot),
          table.setEntry slot { table.entries slot with
            object := (table.entries source).object
            rights := if rights = 0 then (table.entries source).rights else rights
            release := (table.entries source).release
            retain := (table.entries source).retain
            closing := false
            inheritable := (table.entries source).inheritable
            kind := (table.entries source).kind },
          [.retain source (table.entries source).retain (table.entries source).object]) := by
  fun_cases processHandleDuplicate table handle rights
  · exact .inl rfl
  · exact .inl rfl
  · exact .inl rfl
  next source hsource _ hallowed slot hslot =>
    push Not at hallowed
    exact .inr ⟨source, slot, hsource, hslot, hallowed.2, rfl⟩

theorem setInheritable_cases (handle : Nat) (inheritable : Int) :
    processHandleSetInheritable table handle inheritable = (false, table) ∨
    ∃ slot, table.resolve handle = some slot ∧
      processHandleSetInheritable table handle inheritable =
        (true, table.setEntry slot
          { table.entries slot with inheritable := inheritable == 1 }) := by
  fun_cases processHandleSetInheritable table handle inheritable
  · exact .inl rfl
  · exact .inl rfl
  next slot hslot => exact .inr ⟨slot, hslot, rfl⟩

theorem close_cases (handle : Nat) :
    (table.resolve handle = none ∧ processHandleClose table handle = (false, table, [])) ∨
    ∃ slot, table.resolve handle = some slot ∧
      processHandleClose table handle =
        (true,
          { table.setEntry slot (closeEntry (table.entries slot)) with
            generations := Function.update table.generations slot
              (nextGeneration (table.generations slot)) },
          closeCalls slot (table.entries slot)) := by
  unfold processHandleClose
  split
  next hnone => exact .inl ⟨hnone, rfl⟩
  next slot hslot => exact .inr ⟨slot, hslot, rfl⟩

/-- A reference is refused, or counted on the slot the handle resolves to. -/
theorem getRetain_cases (handle : Nat) (required : Rights) (name : Nat) :
    processHandleGetRetain table handle required name = none ∨
    ∃ slot, table.resolve handle = some slot ∧
      processHandleGetRetain table handle required name = some
        ({ table.setEntry slot { table.entries slot with
            retainedReferences := (table.entries slot).retainedReferences + 1 } with
            retainedReferences := table.retainedReferences + 1 },
          { table := name, entry := slot, object := (table.entries slot).object,
            release := (table.entries slot).release, kind := (table.entries slot).kind,
            active := true }) := by
  fun_cases processHandleGetRetain table handle required name
  · exact .inl rfl
  · exact .inl rfl
  · exact .inl rfl
  next slot hslot _ _ => exact .inr ⟨slot, hslot, rfl⟩

end Operations

/-- An inheritance fails, or finds the destination empty and copies the inherited entries. -/
theorem tableInherit_cases (destination source : HandleTable) :
    processHandleTableInherit destination source = (false, destination, []) ∨
    ((∀ slot, (destination.entries slot).object = 0) ∧
      processHandleTableInherit destination source =
        (true,
          { destination with entries := fun slot =>
              if (source.entries slot).inherited then
                { source.entries slot with retainedReferences := 0, closing := false }
              else destination.entries slot },
          (List.finRange handleCapacity).filterMap fun slot =>
            if (source.entries slot).inherited then
              some (.retain slot (source.entries slot).retain (source.entries slot).object)
            else none)) := by
  fun_cases processHandleTableInherit destination source
  · exact .inl rfl
  next hany =>
    refine .inr ⟨fun slot => ?_, rfl⟩
    rw [any_eq_true] at hany
    push Not at hany
    have := hany slot (mem_finRange slot)
    simp only [Bool.or_eq_true, bne_iff_ne, ne_eq, not_or, not_not] at this
    exact this.1

theorem inherited_iff (entry : ProcessHandle) :
    entry.inherited = true ↔ entry.object ≠ 0 ∧ entry.closing = false ∧ entry.inheritable = true := by
  simp [ProcessHandle.inherited, and_assoc]

/-! ## Rights -/

theorem rightsOutside_of_within {rights wider : Rights} (hwider : rightsOutside wider = false)
    (h : rights &&& wider = rights) : rightsOutside rights = false := by
  simp only [rightsOutside, bne_eq_false_iff_eq] at hwider ⊢
  rw [← h, BitVec.and_assoc, hwider]
  exact BitVec.and_zero

/-- Asking for no right the source lacks is asking for rights within the source's. -/
theorem and_eq_of_and_not_eq_zero {rights wider : Rights} (h : rights &&& ~~~wider = 0) :
    rights &&& wider = rights := by
  ext i hi
  have hbit : (rights &&& ~~~wider)[i] = false := by rw [h]; simp
  simp only [BitVec.getElem_and, BitVec.getElem_not] at hbit ⊢
  cases hr : rights[i] <;> simp_all

/-! ## Generations -/

theorem nextGeneration_range {g : Nat} (h : 1 ≤ g ∧ g ≤ uint16Max) :
    1 ≤ nextGeneration g ∧ nextGeneration g ≤ uint16Max := by
  unfold nextGeneration uint16Max at *
  split <;> omega

theorem closeEntry_closing (entry : ProcessHandle) : (closeEntry entry).closing = true := by
  unfold closeEntry
  split <;> rfl

end KernelBoot.Process
