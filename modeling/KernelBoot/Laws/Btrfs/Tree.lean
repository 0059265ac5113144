import KernelBoot.Laws.Btrfs.Integrity
import KernelBoot.Lib.Best

/-!
# Searches in a well-formed btrfs tree

`TreeAt` says which items the tree below a node holds: a leaf holds its own, in the order of their keys,
and an inner node those of its children, whose keys it separates. In such a tree
`btrfs_read_item_full` finds every item (`btrfsReadItemFull_of_mem`), within as many steps as the tree
has levels, and `btrfs_scan_extents` sees all of them in order (`btrfsScanExtents_eq`).
-/

namespace KernelBoot.Btrfs

open Lib Lib.Attempt Drivers List

section Keys

/-- A key as a triple in lexicographic order. -/
def Key.rank (key : Key) : Nat ×ₗ Nat ×ₗ Nat := toLex (key.objectid, toLex (key.type, key.offset))

theorem Key.rank_injective : Function.Injective Key.rank := by
  rintro ⟨a, b, c⟩ ⟨a', b', c'⟩ h
  simp only [Key.rank, EmbeddingLike.apply_eq_iff_eq, Prod.mk.injEq] at h
  obtain ⟨rfl, rfl, rfl⟩ := h
  rfl

instance : LinearOrder Key := LinearOrder.lift' Key.rank Key.rank_injective

theorem Key.lt_iff {a b : Key} : a < b ↔ a.objectid < b.objectid ∨ a.objectid = b.objectid ∧
    (a.type < b.type ∨ a.type = b.type ∧ a.offset < b.offset) := by
  change a.rank < b.rank ↔ _
  simp only [Key.rank, Prod.Lex.toLex_lt_toLex]

theorem keyCompare_eq_iff {key : Bytes} {wanted : Key} :
    keyCompare key wanted = .eq ↔ Key.at key = wanted := by
  cases wanted
  simp only [keyCompare, Key.at, Key.mk.injEq]
  split_ifs <;> simp_all

theorem keyCompare_gt_iff {key : Bytes} {wanted : Key} :
    keyCompare key wanted = .gt ↔ wanted < Key.at key := by
  rw [Key.lt_iff]
  simp only [keyCompare, Key.at]
  split_ifs <;> simp_all <;> omega

end Keys

variable {fs : BtrfsFs} {s : Storage} {height bytenr : Nat} {items : List Item}

section Trees

/-- An item with the bytes it has in its leaf. -/
structure Item where
  key : Key
  data : Bytes
  size : Nat

def leafEntry (node : Bytes) (i : Nat) : Item :=
  ⟨Key.at (leafItem node i), node.window (itemOffset (leafItem node i)), itemSize (leafItem node i)⟩

def leafEntries (node : Bytes) : List Item := (List.range (nodeCount node)).map (leafEntry node)

/-- The items of a well-formed tree of some height, in order. -/
inductive TreeAt (fs : BtrfsFs) (s : Storage) : (height bytenr : Nat) → List Item → Prop where
  | leaf {bytenr node} (hread : (btrfsReadNode fs bytenr s).1 = some node) (hlevel : node 100 = 0)
      (hcount : nodeCount node ≤ (fs.nodeSize - 101) / 25)
      (hbounds : ∀ i < nodeCount node, itemOffset (leafItem node i) ≤ fs.nodeSize ∧
        itemSize (leafItem node i) ≤ fs.nodeSize - itemOffset (leafItem node i))
      (hsorted : (leafEntries node).Pairwise fun a b => a.key < b.key) :
      TreeAt fs s 0 bytenr (leafEntries node)
  | branch {height bytenr node} {children : Nat → List Item}
      (hread : (btrfsReadNode fs bytenr s).1 = some node) (hlevel : node 100 ≠ 0)
      (hcount : nodeCount node ≠ 0 ∧ nodeCount node ≤ (fs.nodeSize - 101) / 33)
      (hchild : ∀ i < nodeCount node, TreeAt fs s height (childBytenr node i) (children i))
      (hlow : ∀ i < nodeCount node, ∀ item ∈ children i, Key.at (childItem node i) ≤ item.key)
      (hhigh : ∀ i j, i < j → j < nodeCount node → ∀ item ∈ children i,
        item.key < Key.at (childItem node j))
      (hkeys : ∀ i j, i < j → j < nodeCount node →
        Key.at (childItem node i) < Key.at (childItem node j)) :
      TreeAt fs s (height + 1) bytenr ((List.range (nodeCount node)).flatMap children)

theorem TreeAt.read (h : TreeAt fs s height bytenr items) :
    ∃ node, (btrfsReadNode fs bytenr s).1 = some node := by
  cases h with
  | leaf hread => exact ⟨_, hread⟩
  | branch hread => exact ⟨_, hread⟩

theorem TreeAt.size_le (h : TreeAt fs s height bytenr items) :
    ∀ item ∈ items, item.size ≤ fs.nodeSize := by
  induction h with
  | leaf _ _ _ hbounds =>
    intro item hitem
    obtain ⟨i, hi, rfl⟩ := mem_map.mp hitem
    exact (hbounds i (mem_range.mp hi)).2.trans (Nat.sub_le _ _)
  | branch _ _ _ _ _ _ _ ih =>
    intro item hitem
    obtain ⟨i, hi, hmem⟩ := mem_flatMap.mp hitem
    exact ih i (mem_range.mp hi) item hmem

/-- A leaf finds its own items. -/
theorem leafFind_of_mem {node : Bytes} (hsorted : (leafEntries node).Pairwise fun a b => a.key < b.key)
    {i : Nat} (hi : i < nodeCount node) : leafFind node (leafEntry node i).key = some i := by
  have hlt : ∀ j < i, (leafEntry node j).key < (leafEntry node i).key := by
    intro j hj
    have hpair := pairwise_iff_getElem.mp hsorted j i
      (by rw [leafEntries, length_map, length_range]; omega)
      (by rw [leafEntries, length_map, length_range]; omega) hj
    simpa [leafEntries] using hpair
  rw [leafFind, find?_range_eq_some]
  refine ⟨decide_eq_true (keyCompare_eq_iff.mpr rfl), mem_range.mpr hi, fun j hj => ?_⟩
  have hne : keyCompare (leafItem node j) (leafEntry node i).key ≠ .eq := fun heq =>
    (hlt j hj).ne (keyCompare_eq_iff.mp heq)
  simpa using hne

/-- A branch chooses the child that holds the item. -/
theorem childFind_of_mem {node : Bytes} {wanted : Key} {i : Nat} (hi : i < nodeCount node)
    (hlow : Key.at (childItem node i) ≤ wanted)
    (hhigh : ∀ j, i < j → j < nodeCount node → wanted < Key.at (childItem node j))
    (hkeys : ∀ i j, i < j → j < nodeCount node →
      Key.at (childItem node i) < Key.at (childItem node j)) :
    childFind node wanted = some i := by
  have hrange : List.range (nodeCount node) =
      List.range (i + 1) ++ (List.range (nodeCount node - (i + 1))).map (i + 1 + ·) := by
    rw [← range_add]
    congr 1
    omega
  have hfirst : ∀ j ∈ List.range (i + 1),
      decide (keyCompare (childItem node j) wanted ≠ .gt) = true := by
    intro j hj
    rw [decide_eq_true_eq, Ne, keyCompare_gt_iff, not_lt]
    rcases Nat.lt_or_ge j i with hlt | hge
    · exact (hkeys j i hlt hi).le.trans hlow
    · obtain rfl : j = i := by have := mem_range.mp hj; omega
      exact hlow
  have hrest : ((List.range (nodeCount node - (i + 1))).map (i + 1 + ·)).takeWhile
      (fun j => decide (keyCompare (childItem node j) wanted ≠ .gt)) = [] := by
    cases hcount : nodeCount node - (i + 1) with
    | zero => rfl
    | succ n =>
      rw [range_succ_eq_map, map_cons, takeWhile_cons_of_neg]
      rw [decide_eq_true_eq, not_not, keyCompare_gt_iff]
      exact hhigh _ (by omega) (by omega)
  rw [childFind, hrange, takeWhile_append_of_pos hfirst, hrest, append_nil,
    range_succ, getLast?_append]
  rfl

/-- What `btrfs_read_item_full` answers for an item of the tree. -/
theorem readItemLoop_of_mem (htree : TreeAt fs s height bytenr items)
    {node : Bytes} (hnode : (btrfsReadNode fs bytenr s).1 = some node) {item : Item}
    (hitem : item ∈ items) (capacity : Nat) :
    ∀ fuel, height < fuel → (readItemLoop fs item.key capacity fuel node s).1 =
      if item.size ≤ capacity then some (item.data, item.size) else none := by
  induction htree generalizing node with
  | @leaf bytenr leafNode hread hlevel hcount hbounds hsorted =>
    rintro (_ | fuel) hfuel
    · exact absurd hfuel (Nat.not_lt_zero _)
    obtain rfl : leafNode = node := Option.some.inj (hread.symm.trans hnode)
    obtain ⟨i, hi, rfl⟩ := mem_map.mp hitem
    rw [mem_range] at hi
    rw [readItemLoop, if_pos hlevel, bind_of_some (check_of_true hcount s), leafFind_of_mem hsorted hi]
    by_cases hsize : (leafEntry leafNode i).size ≤ capacity
    · rw [if_pos hsize]
      exact congrArg Prod.fst
        (bind_of_some (check_of_true ⟨(hbounds i hi).1, (hbounds i hi).2, hsize⟩ s))
    · rw [if_neg hsize]
      exact congrArg Prod.fst (bind_of_none (check_of_false (fun h => hsize h.2.2) s))
  | @branch height bytenr branchNode children hread hlevel hcount hchild hlow hhigh hkeys ih =>
    rintro (_ | fuel) hfuel
    · exact absurd hfuel (Nat.not_lt_zero _)
    obtain rfl : branchNode = node := Option.some.inj (hread.symm.trans hnode)
    obtain ⟨i, hi, hmem⟩ := mem_flatMap.mp hitem
    rw [mem_range] at hi
    have hfind := childFind_of_mem hi (hlow i hi item hmem)
      (fun j hij hj => hhigh i j hij hj item hmem) hkeys
    obtain ⟨child, hchildRead⟩ := (hchild i hi).read
    rw [readItemLoop, if_neg hlevel, bind_of_some (check_of_true hcount s), hfind]
    have hstep := ((btrfsReadNode_readOnly (childBytenr branchNode i)).eq_some_iff).mpr hchildRead
    rw [← ih i hi hchildRead hmem fuel (by omega)]
    exact congrArg Prod.fst (bind_of_some hstep)

/-- `btrfs_read_item_full` finds every item of the tree. -/
theorem btrfsReadItemFull_of_mem
    (htree : TreeAt fs s height bytenr items) (hnodeSize : fs.nodeSize ≤ 65536) {item : Item}
    (hitem : item ∈ items) {fuel : Nat} (hfuel : height < fuel) :
    (btrfsReadItemFull fuel fs bytenr item.key 4096 s).1 =
      if item.size ≤ 4096 then some (item.data, item.size) else none := by
  obtain ⟨node, hnode⟩ := htree.read
  rw [← readItemLoop_of_mem htree hnode hitem 4096 fuel hfuel, btrfsReadItemFull,
    bind_of_some (check_of_true ⟨by decide, hnodeSize⟩ s),
    bind_of_some ((btrfsReadNode_readOnly bytenr).eq_some_iff.mpr hnode)]

/-- `btrfs_read_item` for an item of the tree. -/
theorem btrfsReadItem_of_mem
    (htree : TreeAt fs s height bytenr items) (hnodeSize : fs.nodeSize ≤ 65536) {item : Item}
    (hitem : item ∈ items) {fuel : Nat} (hfuel : height < fuel) {size : Nat} (hsize : size ≠ 0) :
    (btrfsReadItem fuel fs bytenr item.key size s).1 =
      if size ≤ item.size ∧ item.size ≤ 4096 then some item.data else none := by
  have hfull := btrfsReadItemFull_of_mem htree hnodeSize hitem hfuel
  apply Option.ext
  intro found
  rw [btrfsReadItem_fst, hfull]
  by_cases hcap : item.size ≤ 4096
  · by_cases hle : size ≤ item.size
    · simp [hsize, hcap, hle]
    · simp [hcap, hle]
  · simp [hcap]

/-- One item in the scan of `btrfs_scan_extents`. -/
def scanEntry (inode fileOffset : Nat) (next : Bool) (best : Option Nat) (item : Item) : Option Nat :=
  if item.key.objectid = inode ∧ item.key.type = extentDataType ∧
      ((next = false ∧ item.key.offset ≤ fileOffset ∧ (∀ b ∈ best, b < item.key.offset)) ∨
        (next = true ∧ fileOffset < item.key.offset ∧ (∀ b ∈ best, item.key.offset < b))) then
    some item.key.offset
  else best

/-- `btrfs_scan_extents` looks at every item, in order. -/
theorem btrfsScanExtents_eq (htree : TreeAt fs s height bytenr items) (hnodeSize : fs.nodeSize ≤ 65536)
    (inode fileOffset : Nat) (next : Bool) :
    ∀ levels best, height < levels →
      (btrfsScanExtents fs inode fileOffset next levels bytenr best s).1 =
        some (items.foldl (scanEntry inode fileOffset next) best) := by
  induction htree with
  | @leaf bytenr node hread hlevel hcount hbounds hsorted =>
    rintro (_ | levels) best hlevels
    · exact absurd hlevels (Nat.not_lt_zero _)
    rw [btrfsScanExtents, bind_of_some (check_of_true hnodeSize s),
      bind_of_some ((btrfsReadNode_readOnly bytenr).eq_some_iff.mpr hread), if_pos hlevel,
      bind_of_some (check_of_true hcount s), leafEntries, foldl_map]
    rfl
  | @branch height bytenr node children hread hlevel hcount hchild hlow hhigh hkeys ih =>
    rintro (_ | levels) best hlevels
    · exact absurd hlevels (Nat.not_lt_zero _)
    rw [btrfsScanExtents, bind_of_some (check_of_true hnodeSize s),
      bind_of_some ((btrfsReadNode_readOnly bytenr).eq_some_iff.mpr hread), if_neg hlevel,
      bind_of_some (check_of_true hcount s), foldl_flatMap]
    apply ReadOnly.foldAll_fst fun best i => btrfsScanExtents_readOnly _ _ _ _ _ _
    intro i hi best
    exact ih i (mem_range.mp hi) levels best (by omega)

end Trees

end KernelBoot.Btrfs
