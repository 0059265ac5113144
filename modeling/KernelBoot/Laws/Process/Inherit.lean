import KernelBoot.Process.Process
import KernelBoot.Laws.Process.HandleSystem

/-!
# What a handle means in a child

Inheritance copies entries slot by slot but not the slots' generations, and a child's generations
all start at 1. So a handle of the parent means the same in the child exactly when its own generation
is 1, that is when its slot had never been closed before, or a whole cycle of generations ago.
-/

namespace KernelBoot.Process

open Lib

variable {handle : Nat} {slot : Slot} {child parent : ProcessT} {callbacks : List Callback}
variable {table : HandleTable} {required : Rights}

/-- The generation field of a handle. -/
def handleGeneration (handle : Nat) : Nat := handle >>> handleSlotBits

theorem decodeHandle_generation {generation : Nat}
    (h : decodeHandle handle = some (slot, generation)) : handleGeneration handle = generation := by
  rw [decodeHandle] at h
  split at h
  · cases h
  · simp only [Option.some.injEq, Prod.mk.injEq] at h
    exact h.2

/-! ## Tables whose entries are all inheritable -/

/-- The calls a process makes on its own table. -/
def HandleCall.OpensClosesDuplicates : HandleCall → Prop
  | .openKind _ _ _ _ _ _ => True
  | .close _ _ => True
  | .duplicate _ _ _ => True
  | _ => False

def HandleTable.AllInheritable (table : HandleTable) : Prop :=
  ∀ slot, (table.entries slot).inheritable = true

theorem HandleTable.AllInheritable.setEntry (h : table.AllInheritable) {entry : ProcessHandle}
    (hentry : entry.inheritable = true) : (table.setEntry slot entry).AllInheritable := by
  intro s
  rw [setEntry_entries]
  split
  · exact hentry
  · exact h s

theorem closeEntry_inheritable (entry : ProcessHandle) :
    (closeEntry entry).inheritable = entry.inheritable := by
  unfold closeEntry
  split <;> rfl

theorem HandleCall.Does.allInheritable {s s' : Handles} {call : HandleCall}
    {callbacks : List (Nat × Callback)} (hdoes : call.Does s s' callbacks)
    (hcall : call.OpensClosesDuplicates) (h : ∀ t, (s.tables t).AllInheritable) :
    ∀ t, (s'.tables t).AllInheritable := by
  have hset : ∀ {t : Nat} {table : HandleTable}, table.AllInheritable →
      ∀ t', ((s.setTable t table).tables t').AllInheritable := by
    intro t table ht t'
    rw [setTable_tables]
    split
    · exact ht
    · exact h t'
  cases hdoes with
  | nothing => exact h
  | @opened t object rights release retain kind slot => exact hset ((h t).setEntry rfl)
  | @duplicated t handle rights source slot => exact hset ((h t).setEntry (h t source))
  | @closed t handle slot =>
    exact hset (((h t).setEntry ((closeEntry_inheritable _).trans (h t slot))))
  | flagged | closedAll | taken | dropped | inherited => exact hcall.elim

theorem allInheritable_run {calls : List HandleCall}
    (hcalls : ∀ call ∈ calls, call.OpensClosesDuplicates) (t : Nat) :
    ((run HandleCall.step .initial calls).tables t).AllInheritable := by
  suffices hrun : ∀ s : Handles, (∀ t, (s.tables t).AllInheritable) →
      ∀ t, ((run HandleCall.step s calls).tables t).AllInheritable from
    hrun _ (fun _ _ => rfl) t
  induction calls with
  | nil => exact fun s h => h
  | cons call calls ih =>
    intro s h
    refine ih (fun c hc => hcalls c (List.mem_cons_of_mem call hc)) _ ?_
    exact (call.does s).allInheritable (hcalls call List.mem_cons_self) h

/-! ## The child -/

section

variable (h : processInheritHandles processCreate parent = (true, child, callbacks))

include h

/-- What a successful inheritance into a new process leaves. -/
theorem processInheritHandles_spec :
    (∀ slot, child.handles.generations slot = 1) ∧
    (∀ slot, (parent.handles.entries slot).inherited = true →
      child.handles.entries slot = { parent.handles.entries slot with
        retainedReferences := 0, closing := false }) ∧
    child.standardInputHandle = parent.standardInputHandle ∧
    child.standardOutputHandle = parent.standardOutputHandle := by
  unfold processInheritHandles at h
  split at h
  · cases h
  · split at h
    · cases h
    · rcases tableInherit_cases processCreate.handles parent.handles with heq | ⟨-, heq⟩
      · rw [heq] at h
        cases h
      · rw [heq] at h
        cases h
        exact ⟨fun _ => rfl, fun slot hslot => if_pos hslot, rfl, rfl⟩

/-- The handle of an inherited entry resolves in the child, to that entry, exactly when its
generation is 1. -/
theorem resolve_child_iff (hres : parent.handles.resolve handle = some slot)
    (hinheritable : (parent.handles.entries slot).inheritable = true) :
    child.handles.resolve handle = some slot ↔ handleGeneration handle = 1 := by
  obtain ⟨hgenerations, hentries, -, -⟩ := processInheritHandles_spec h
  obtain ⟨hdecode, hlive⟩ := resolve_eq_some.mp hres
  have hentry := hentries slot ((inherited_iff _).mpr ⟨hlive.object, hlive.opened, hinheritable⟩)
  have hchild : child.handles.Live slot := by
    refine ⟨?_, ?_⟩ <;> rw [hentry]
    exact hlive.object
  rw [resolve_eq_some, hdecode, hgenerations, decodeHandle_generation hdecode]
  simp [hchild]

/-- In the child a handle can only resolve to its own slot, and only with generation 1. -/
theorem resolve_child_slot {slot' : Slot}
    (hres : parent.handles.resolve handle = some slot)
    (hchild : child.handles.resolve handle = some slot') :
    slot' = slot ∧ handleGeneration handle = 1 := by
  have hdecode := (resolve_eq_some.mp hres).1
  have hdecode' := (resolve_eq_some.mp hchild).1
  rw [(processInheritHandles_spec h).1 slot'] at hdecode'
  refine ⟨?_, decodeHandle_generation hdecode'⟩
  rw [hdecode] at hdecode'
  simp only [Option.some.injEq, Prod.mk.injEq] at hdecode'
  exact hdecode'.1.symm

end

theorem processHandleGet_ne_zero (h : processHandleGet table handle required ≠ 0) :
    ∃ slot, table.resolve handle = some slot ∧ rightsOutside required = false ∧
      (table.entries slot).rights &&& required = required := by
  revert h
  fun_cases processHandleGet table handle required
  · exact absurd rfl
  · exact absurd rfl
  next hin slot hslot hrights =>
    exact fun _ => ⟨slot, hslot, Bool.eq_false_of_not_eq_true hin, hrights⟩
  · exact absurd rfl

section

variable (h : processInheritHandles processCreate parent = (true, child, callbacks))

include h

/-- A handle the parent's lookup accepts is accepted in the child exactly with generation 1. -/
theorem processHandleGet_child_iff (hall : parent.handles.AllInheritable)
    (hget : processHandleGet parent.handles handle required ≠ 0) :
    processHandleGet child.handles handle required ≠ 0 ↔ handleGeneration handle = 1 := by
  obtain ⟨slot, hres, hin, hrights⟩ := processHandleGet_ne_zero hget
  constructor
  · intro hchild
    obtain ⟨slot', hres', -, -⟩ := processHandleGet_ne_zero hchild
    exact (resolve_child_slot h hres hres').2
  · intro hone
    have hlive := resolve_live hres
    have hentry := (processInheritHandles_spec h).2.1 slot
      ((inherited_iff _).mpr ⟨hlive.object, hlive.opened, hall slot⟩)
    rw [processHandleGet, if_neg (by rw [hin]; simp),
      (resolve_child_iff h hres (hall slot)).mpr hone]
    simp only [hentry, if_pos hrights]
    exact hlive.object

/-- The child accepts a redirection the parent's table accepts exactly when each of its handles has
generation 1. -/
theorem processSetStandardHandles_child_iff
    (hall : parent.handles.AllInheritable) {input output : Nat}
    (hvalid : redirectValid parent input output = true) :
    (processSetStandardHandles child input output).1 = true ↔
      (input ≠ 0 → handleGeneration input = 1) ∧ (output ≠ 0 → handleGeneration output = 1) := by
  simp only [redirectValid, Bool.and_eq_true, Bool.or_eq_true, bne_iff_ne, beq_iff_eq] at hvalid
  obtain ⟨⟨-, hin⟩, hout⟩ := hvalid
  have hone : ∀ handle required,
      handle = 0 ∨ processHandleGet parent.handles handle required ≠ 0 →
      (¬ (handle ≠ 0 ∧ processHandleGet child.handles handle required = 0) ↔
        (handle ≠ 0 → handleGeneration handle = 1)) := by
    intro handle required hget
    by_cases hz : handle = 0
    · simp [hz]
    · rw [← processHandleGet_child_iff h hall (hget.resolve_left hz)]
      simp [hz]
  rw [← hone input handleRead hin, ← hone output handleWrite hout, ← not_or]
  unfold processSetStandardHandles
  split <;> simp_all

/-- With the redirection checked and the table inherited, SPAWN stands or falls with setting the
child's standard handles. -/
theorem spawnHandles_isSome {input output : Nat}
    (hvalid : redirectValid parent input output = true) :
    (spawnHandles parent (some (input, output))).isSome =
      (processSetStandardHandles child input output).1 := by
  simp only [spawnHandles, Option.getD_some, hvalid, h, Bool.not_true, Bool.and_false,
    Bool.false_eq_true, if_false]
  split
  next hset => simp [hset]
  next hset => simp [hset]

end

/-- For every parent whose table was reached by opens, closes and duplicates, and every inheritance of
it by a new child: a handle that resolves in the parent resolves in the child to an entry with the same
object and rights exactly when its generation is 1; the standard handles are the parent's, and one that
resolves in the parent resolves in the child under the same condition; and a redirection that SPAWN
has checked against the parent is accepted for the child exactly when each of its handles has
generation 1. -/
theorem inherited_handles_iff {calls : List HandleCall}
    (hcalls : ∀ call ∈ calls, call.OpensClosesDuplicates) {t : Nat} {parent child : ProcessT}
    {callbacks : List Callback}
    (hparent : parent.handles = (run HandleCall.step .initial calls).tables t)
    (h : processInheritHandles processCreate parent = (true, child, callbacks)) :
    (∀ handle slot, parent.handles.resolve handle = some slot →
      ((∃ slot', child.handles.resolve handle = some slot' ∧
          (child.handles.entries slot').object = (parent.handles.entries slot).object ∧
          (child.handles.entries slot').rights = (parent.handles.entries slot).rights) ↔
        handleGeneration handle = 1)) ∧
    (child.standardInputHandle = parent.standardInputHandle ∧
      ∀ slot, parent.handles.resolve parent.standardInputHandle = some slot →
        (child.handles.resolve child.standardInputHandle = some slot ↔
          handleGeneration parent.standardInputHandle = 1)) ∧
    (child.standardOutputHandle = parent.standardOutputHandle ∧
      ∀ slot, parent.handles.resolve parent.standardOutputHandle = some slot →
        (child.handles.resolve child.standardOutputHandle = some slot ↔
          handleGeneration parent.standardOutputHandle = 1)) ∧
    (∀ input output, redirectValid parent input output = true →
      ((processSetStandardHandles child input output).1 = true ↔
        (input ≠ 0 → handleGeneration input = 1) ∧ (output ≠ 0 → handleGeneration output = 1)) ∧
      (spawnHandles parent (some (input, output))).isSome =
        (processSetStandardHandles child input output).1) := by
  have hall : parent.handles.AllInheritable := hparent ▸ allInheritable_run hcalls t
  obtain ⟨-, hentries, hinput, houtput⟩ := processInheritHandles_spec h
  refine ⟨fun handle slot hres => ?_, ⟨hinput, fun slot hres => ?_⟩, ⟨houtput, fun slot hres => ?_⟩,
    fun input output hvalid =>
      ⟨processSetStandardHandles_child_iff h hall hvalid, spawnHandles_isSome h hvalid⟩⟩
  · constructor
    · rintro ⟨slot', hres', -, -⟩
      exact (resolve_child_slot h hres hres').2
    · intro hone
      have hlive := resolve_live hres
      have hentry := hentries slot
        ((inherited_iff _).mpr ⟨hlive.object, hlive.opened, hall slot⟩)
      exact ⟨slot, (resolve_child_iff h hres (hall slot)).mpr hone, by rw [hentry], by rw [hentry]⟩
  · rw [hinput]
    exact resolve_child_iff h hres (hall slot)
  · rw [houtput]
    exact resolve_child_iff h hres (hall slot)

/-- A parent that opened, closed and opened again: its handle carries generation 2. -/
def reopenedCalls : List HandleCall :=
  [.openKind 0 4096 handleRead 0 8192 .generic, .close 0 33,
    .openKind 0 4096 handleRead 0 8192 .generic]

def reopenedParent : ProcessT where
  state := .running
  handles := (run HandleCall.step .initial reopenedCalls).tables 0
  standardInputHandle := 65
  standardOutputHandle := 0

/-- The law at a parent with one entry: the handle of a first open is accepted in the child. -/
theorem inherited_handles_firstOpen :
    (∀ call ∈ [HandleCall.openKind 0 4096 handleRead 0 8192 .generic],
      call.OpensClosesDuplicates) ∧
    (processSetStandardHandles (processInheritHandles processCreate
      { processCreate with
        handles := (run HandleCall.step .initial
          [.openKind 0 4096 handleRead 0 8192 .generic]).tables 0 }).2.1 33 0).1 = true := by
  have hlegal : ∀ call ∈ [HandleCall.openKind 0 4096 handleRead 0 8192 .generic],
      call.OpensClosesDuplicates := by
    intro call hcall
    rw [List.mem_singleton.mp hcall]
    trivial
  refine ⟨hlegal, ?_⟩
  have hlaw := @inherited_handles_iff _ hlegal 0 { processCreate with
    handles := (run HandleCall.step .initial
      [.openKind 0 4096 handleRead 0 8192 .generic]).tables 0 } _ _ rfl rfl
  exact (hlaw.2.2.2 33 0 (by decide +kernel)).1.mpr ⟨fun _ => by decide, fun h => absurd rfl h⟩

/-- Handle 65 resolves in the parent and is its checked redirection; the child inherits the entry, but
there the handle resolves to nothing and SPAWN fails. -/
theorem inherited_handles_fails_reopened :
    (∀ call ∈ reopenedCalls, call.OpensClosesDuplicates) ∧
    reopenedParent.handles.resolve 65 = some 0 ∧
    (reopenedParent.handles.entries 0).inheritable = true ∧
    redirectValid reopenedParent 65 0 = true ∧
    (processInheritHandles processCreate reopenedParent).1 = true ∧
    (processInheritHandles processCreate reopenedParent).2.1.standardInputHandle = 65 ∧
    (processInheritHandles processCreate reopenedParent).2.1.handles.resolve 65 = none ∧
    (processSetStandardHandles (processInheritHandles processCreate reopenedParent).2.1 65 0).1 =
      false ∧
    (spawnHandles reopenedParent (some (65, 0))).isNone = true := by
  refine ⟨?_, by decide +kernel⟩
  simp [reopenedCalls, HandleCall.OpensClosesDuplicates]

end KernelBoot.Process
