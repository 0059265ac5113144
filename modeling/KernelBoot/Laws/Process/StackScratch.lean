import KernelBoot.Process.UserStack
import KernelBoot.Laws.Mm.HeapLive
import KernelBoot.Laws.Process.Environment

/-!
# The scratch buffer of the stack preparation

`process_prepare_user_stack` allocates a buffer and leaves by many exits. All but one of those behind
the allocation free it: an environment with more than sixteen entries makes the function return
without.
-/

namespace KernelBoot.Process

open Lib Mm List Option

/-! ## The entries of an environment block -/

/-- The entries of a block, in order. -/
def environmentEntries (rest : List UInt8) : List (List UInt8) :=
  if h : entryFollows rest = true then
    entryAt rest :: environmentEntries (rest.drop ((entryAt rest).length + 1))
  else []
termination_by rest.length
decreasing_by exact entryAt_shortens h

theorem environmentScan_isNone_iff (behind : UInt8) (rest : List UInt8) (entries : List (List UInt8))
    (h : entries.length ≤ 16) :
    environmentScan behind rest entries = none ↔
      16 < entries.length + (environmentEntries rest).length := by
  fun_induction environmentScan behind rest entries with
  | case1 rest entries hfollows hfull =>
    rw [environmentEntries, dif_pos hfollows, length_cons]
    exact iff_of_true rfl (by omega)
  | case2 rest entries hfollows hfull ih =>
    rw [environmentEntries, dif_pos hfollows, length_cons,
      ih (by rw [length_append, length_singleton]; omega), length_append, length_singleton]
    omega
  | case3 rest entries hend =>
    rw [environmentEntries, dif_neg hend, length_nil]
    exact iff_of_false (some_ne_none _) (by omega)

/-! ## The exits -/

/-- The call gets as far as the environment, with a buffer to free. -/
structure Allocates (process : StackOwner) (path arguments : CString) (heap : Heap) : Prop where
  stack : process.stack.isSome
  path : path.bytes.length ≤ 256
  arguments : arguments.bytes.length ≤ 256
  kmalloc : ∃ build heap', kmalloc heap sizeofProcessStackBuild = some (build, heap') ∧ build ≠ 0

/-- The environment has no more entries than the vector has room for. -/
def EntriesFit (process : StackOwner) : Prop := (environmentEntries process.environment.bytes).length ≤ 16

variable {process : StackOwner} {path arguments : CString} {heap heap' : Heap} {bs : List Header}
  {build : Nat} {before after : List Nat}

/-- The call behind the allocation. -/
theorem prepareUserStack_of_allocates (h : Allocates process path arguments heap)
    (hkmalloc : kmalloc heap sizeofProcessStackBuild = some (build, heap')) (hbuild : build ≠ 0)
    (hholds : Holds heap' build before after) :
    ∃ result heap'', processPrepareUserStack process path arguments heap = some (result, heap'') ∧
      liveAllocations heap'' = (if (environmentScan process.behind process.environment.bytes []).isSome
        then before ++ after else before ++ build :: after) := by
  obtain ⟨stack, hstack⟩ := isSome_iff_exists.mp h.stack
  have hpath := h.path
  have harguments := h.arguments
  rw [processPrepareUserStack, hstack]
  simp only
  rw [if_neg (by omega), hkmalloc]
  simp only
  rw [if_neg hbuild]
  cases environmentScan process.behind process.environment.bytes [] with
  | none => exact ⟨_, _, rfl, hholds.live⟩
  | some environment =>
    cases argumentTokens arguments.bytes [] with
    | none =>
      obtain ⟨freed, hfree, hlive⟩ := hholds.kfree
      exact ⟨none, freed, by simp only [hfree, map_some], hlive⟩
    | some tokens =>
      simp only
      generalize buildUserStack stack (path.bytes ++ [0]) (tokens.map terminated) environment
        heap'.physical.memory = built
      have hholds' : Holds (withMemory heap' built.2) build before after := hholds.withPhysical _
      obtain ⟨freed, hfree, hlive⟩ := hholds'.kfree
      exact ⟨built.1, freed, by rw [hfree, map_some], hlive⟩

/-- The call that leaves before the allocation, or because of it. -/
theorem prepareUserStack_of_not_allocates (hheap : IsHeap heap bs)
    (h : ¬Allocates process path arguments heap) :
    ∃ result heap', processPrepareUserStack process path arguments heap = some (result, heap') ∧
      liveAllocations heap' = liveAllocations heap := by
  rw [processPrepareUserStack]
  cases hstack : process.stack with
  | none => exact ⟨none, heap, rfl, rfl⟩
  | some stack =>
    simp only
    split
    · exact ⟨none, heap, rfl, rfl⟩
    next hlengths =>
    obtain ⟨build, heap', hkmalloc, ⟨rfl, hlive⟩ | ⟨hbuild, -⟩⟩ :=
      kmalloc_live hheap sizeofProcessStackBuild
    · rw [hkmalloc]
      exact ⟨none, heap', rfl, hlive⟩
    · refine absurd ⟨?_, ?_, ?_, build, heap', hkmalloc, hbuild⟩ h
      · rw [hstack]
        rfl
      · omega
      · omega

/-- With every heap: the call returns, and the live allocations are those from before exactly if the
call did not get as far as allocating, or the environment has at most sixteen entries. -/
theorem prepareUserStack_keeps_live_iff (process : StackOwner) (path arguments : CString)
    (hheap : IsHeap heap bs) :
    ∃ result heap', processPrepareUserStack process path arguments heap = some (result, heap') ∧
      (liveAllocations heap' = liveAllocations heap ↔
        (Allocates process path arguments heap → EntriesFit process)) := by
  by_cases h : Allocates process path arguments heap
  · obtain ⟨build, heap', hkmalloc, hbuild⟩ := h.kmalloc
    obtain ⟨_, _, hkmalloc', ⟨rfl, -⟩ | ⟨-, before, after, hlive, hholds⟩⟩ :=
      kmalloc_live hheap sizeofProcessStackBuild
    · cases hkmalloc.symm.trans hkmalloc'
      exact absurd rfl hbuild
    · cases hkmalloc.symm.trans hkmalloc'
      obtain ⟨result, heap'', heq, hafter⟩ := prepareUserStack_of_allocates h hkmalloc hbuild hholds
      refine ⟨result, heap'', heq, ?_⟩
      have hscan := environmentScan_isNone_iff process.behind process.environment.bytes [] (by decide)
      rw [length_nil, Nat.zero_add] at hscan
      rw [hafter, hlive, EntriesFit, ← Nat.not_lt, ← hscan]
      cases environmentScan process.behind process.environment.bytes [] with
      | none =>
        refine iff_of_false (fun hsame => ?_) fun hfit => hfit h rfl
        simpa using congrArg List.length hsame
      | some environment => exact iff_of_true rfl fun _ => some_ne_none environment
  · obtain ⟨result, heap', heq, hlive⟩ := prepareUserStack_of_not_allocates hheap h
    exact ⟨result, heap', heq, iff_of_true hlive fun h' => absurd h' h⟩

/-! ## A process at boot -/

/-- A stack at the lowest user address, in the frames from 1 MiB on. -/
def sampleStack : UserStack where
  pages i := BitVec.ofNat 64 (0x100000 + 0x1000 * i.val)
  base := 2 ^ 39
  distinct := by decide
  aligned := by decide
  user := by decide

/-- A process with these entries in its environment. -/
def sampleOwner (entries : List (List UInt8)) : StackOwner where
  environment := .ofWritten (entries.flatMap fun entry => entry ++ [0])
  behind := 0
  stack := some sampleStack

def emptyString : CString := ⟨[], not_mem_nil⟩

theorem bootHeap_isHeap : IsHeap bootHeap [pageBlock] :=
  (heapInitialize_spec heapInitialize_coldHeap).2.heap

theorem sampleOwner_allocates (entries : List (List UInt8)) :
    Allocates (sampleOwner entries) emptyString emptyString bootHeap := by
  refine ⟨rfl, Nat.zero_le _, Nat.zero_le _, ?_⟩
  have hpointer : (kmalloc bootHeap sizeofProcessStackBuild).map Prod.fst = some (heapBase + 32) := by
    decide +kernel
  obtain ⟨⟨build, heap'⟩, heq, rfl⟩ := map_eq_some_iff.mp hpointer
  exact ⟨_, heap', heq, by decide⟩

/-- Entries of non-zero bytes are found again. -/
theorem environmentEntries_flatMap {entries : List (List UInt8)}
    (h : ∀ entry ∈ entries, entry ≠ [] ∧ (0 : UInt8) ∉ entry) (n : Nat) :
    environmentEntries (entries.flatMap (fun entry => entry ++ [0]) ++ List.replicate n 0) = entries := by
  induction entries with
  | nil =>
    rw [flatMap_nil, nil_append, environmentEntries, dif_neg]
    cases n with
    | zero => decide
    | succ n => exact Bool.false_ne_true
  | cons entry entries ih =>
    obtain ⟨hne, hzero⟩ := h entry mem_cons_self
    have hrest := ih fun e he => h e (mem_cons_of_mem entry he)
    rw [flatMap_cons, append_assoc, append_assoc, singleton_append]
    have hentry : entryAt (entry ++ 0 :: (entries.flatMap (fun entry => entry ++ [0]) ++
        List.replicate n 0)) = entry := by
      rw [entryAt, takeWhile_append_of_pos, takeWhile_cons_of_neg (by decide),
        append_nil]
      intro byte hbyte
      rw [decide_eq_true_eq]
      rintro rfl
      exact hzero hbyte
    have hfollows : entryFollows (entry ++ 0 :: (entries.flatMap (fun entry => entry ++ [0]) ++
        List.replicate n 0)) = true := by
      obtain ⟨byte, entry, rfl⟩ := exists_cons_of_ne_nil hne
      rw [cons_append, entryFollows, decide_eq_true_eq]
      rintro rfl
      exact hzero mem_cons_self
    rw [environmentEntries, dif_pos hfollows, hentry, drop_append, drop_of_length_le
      (Nat.le_succ _), nil_append, Nat.add_sub_cancel_left, drop_one, tail_cons, hrest]

theorem sampleOwner_entries {entries : List (List UInt8)}
    (h : ∀ entry ∈ entries, entry ≠ [] ∧ (0 : UInt8) ∉ entry)
    (hfits : (entries.flatMap fun entry => entry ++ [0]).length ≤ processEnvironmentSize) :
    environmentEntries (sampleOwner entries).environment.bytes = entries := by
  have hbytes : (sampleOwner entries).environment.bytes = _ := ofWritten_bytes hfits
  rw [hbytes, environmentEntries_flatMap h]

/-- With an empty environment the buffer is freed. -/
theorem prepareUserStack_keeps_live_iff_boot :
    IsHeap bootHeap [pageBlock] ∧
    ∃ result heap', processPrepareUserStack (sampleOwner []) emptyString emptyString bootHeap =
      some (result, heap') ∧ liveAllocations heap' = liveAllocations bootHeap := by
  refine ⟨bootHeap_isHeap, ?_⟩
  obtain ⟨result, heap', heq, hiff⟩ :=
    prepareUserStack_keeps_live_iff (sampleOwner []) emptyString emptyString bootHeap_isHeap
  refine ⟨result, heap', heq, hiff.mpr fun _ => ?_⟩
  rw [EntriesFit, sampleOwner_entries (forall_mem_nil _) (Nat.zero_le _)]
  exact Nat.zero_le 16

/-- Seventeen variables, `a=` to `q=`. -/
def seventeenEntries : List (List UInt8) :=
  (List.range 17).map fun i => [UInt8.ofNat (97 + i), equalsSign]

/-- With seventeen variables the buffer stays allocated. -/
theorem seventeen_entries_leak :
    ∃ result heap', processPrepareUserStack (sampleOwner seventeenEntries) emptyString emptyString
      bootHeap = some (result, heap') ∧ liveAllocations heap' ≠ liveAllocations bootHeap := by
  have hallocates := sampleOwner_allocates seventeenEntries
  have hentries : environmentEntries (sampleOwner seventeenEntries).environment.bytes =
      seventeenEntries := sampleOwner_entries (by decide) (by decide)
  have hscan := environmentScan_isNone_iff (sampleOwner seventeenEntries).behind
    (sampleOwner seventeenEntries).environment.bytes [] (by decide)
  rw [hentries] at hscan
  obtain ⟨build, heap', hkmalloc, ⟨rfl, -⟩ | ⟨hbuild, before, after, hlive, hholds⟩⟩ :=
    kmalloc_live bootHeap_isHeap sizeofProcessStackBuild
  · obtain ⟨_, _, hkmalloc', hbuild⟩ := hallocates.kmalloc
    cases hkmalloc.symm.trans hkmalloc'
    exact absurd rfl hbuild
  · obtain ⟨result, heap'', heq, hafter⟩ :=
      prepareUserStack_of_allocates hallocates hkmalloc hbuild hholds
    refine ⟨result, heap'', heq, fun hsame => ?_⟩
    rw [hafter, hscan.mpr (by decide), hlive] at hsame
    simpa using congrArg List.length hsame

end KernelBoot.Process
