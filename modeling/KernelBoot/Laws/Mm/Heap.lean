import KernelBoot.Mm.Heap
import KernelBoot.Lib.Segment
import KernelBoot.Laws.Mm.Frame

/-!
# The heap as a list of blocks

What the heap is for, on a plain list of block headers: take the first block that fits, grow the last
one by a page, merge neighbours in one pass. The rest of the module shows that the functions that
chase links and write header cells do exactly that to the list the links spell out, and that their
loops end.
-/

namespace KernelBoot.Mm

open Lib List

variable {a e p : Nat}
variable {m : Cells} {h : Heap} {bs : List Header} {b : Header} {before after : List Header} {size : Nat}

/-! ## Blocks -/

/-- A block header, its link apart. -/
@[ext] structure Header where
  magic : Nat
  size : Nat
  free : Nat
  deriving DecidableEq

/-- Header and payload. -/
def Header.width (b : Header) : Nat := sizeofHeapBlock + b.size

open Header

/-- The headers in the heap window. -/
def headers (m : Cells) : Nodes Header where
  item block := ⟨blockMagic m block, blockSize m block, blockFree m block⟩
  next := blockNext m

/-- The block of a fresh page. -/
def pageBlock : Header := ⟨heapBlockMagic, heapPageSize - sizeofHeapBlock, 1⟩

/-- One more page at the end of the list. -/
def appendPage : List Header → List Header
  | [] => [pageBlock]
  | [b] => if b.free ≠ 0 then [{ b with size := b.size + heapPageSize }] else [b, pageBlock]
  | b :: c :: rest => b :: appendPage (c :: rest)

/-- A free block after `size` bytes of it were taken. -/
def taken (b : Header) (size : Nat) : List Header :=
  if b.size - size > sizeofHeapBlock + heapAlignment then
    [{ b with size, free := 0 }, ⟨heapBlockMagic, b.size - size - sizeofHeapBlock, 1⟩]
  else [{ b with free := 0 }]

/-- One pass of merging: a merged block is not looked at again. -/
def sweepBlocks : List Header → List Header
  | b :: c :: rest =>
    if b.free ≠ 0 ∧ c.free ≠ 0 then
      { b with size := b.size + (sizeofHeapBlock + c.size) } :: sweepBlocks rest
    else b :: sweepBlocks (c :: rest)
  | bs => bs

/-- Free, and of at least `size` bytes. -/
def Header.Fits (b : Header) (size : Nat) : Prop := b.free ≠ 0 ∧ size ≤ b.size

/-- A header as the heap writes it. -/
structure Header.Ok (b : Header) : Prop where
  magic : b.magic = heapBlockMagic
  size : b.size % heapAlignment = 0
  pos : 0 < b.size
  flag : b.free = 0 ∨ b.free = 1

theorem Header.width_pos (b : Header) : 0 < b.width := by
  unfold width sizeofHeapBlock
  omega

theorem pageBlock_ok : pageBlock.Ok := by
  constructor <;> decide

theorem Header.Ok.grow (hb : b.Ok) {n : Nat} (hn : n % heapAlignment = 0) :
    Ok { b with size := b.size + n } := by
  refine ⟨hb.magic, ?_, Nat.add_pos_left hb.pos n, hb.flag⟩
  have hsize := hb.size
  simp only [heapAlignment] at hsize hn ⊢
  omega

theorem appendPage_last (front : List Header) (last : Header) :
    appendPage (front ++ [last]) = front ++ appendPage [last] := by
  induction front with
  | nil => rfl
  | cons b front ih =>
    cases front with
    | nil => rfl
    | cons c front => exact congrArg (b :: ·) ih

theorem appendPage_ok (h : ∀ b ∈ bs, b.Ok) : ∀ b ∈ appendPage bs, b.Ok := by
  rcases eq_nil_or_concat' bs with rfl | ⟨front, last, rfl⟩
  · simpa [appendPage] using pageBlock_ok
  obtain ⟨hfront, hlast⟩ := forall_mem_append.mp h
  rw [forall_mem_singleton] at hlast
  rw [appendPage_last, forall_mem_append, appendPage]
  refine ⟨hfront, ?_⟩
  split
  · exact forall_mem_singleton.mpr (hlast.grow rfl)
  · exact forall_mem_cons.mpr ⟨hlast, forall_mem_singleton.mpr pageBlock_ok⟩

theorem taken_ok (hb : b.Ok) (hsize : size % heapAlignment = 0)
    (hpos : 0 < size) : ∀ c ∈ taken b size, c.Ok := by
  intro c hc
  unfold taken at hc
  split at hc
  next hsplit =>
    have hbs := hb.size
    unfold heapAlignment sizeofHeapBlock at hsplit
    rcases mem_cons.mp hc with rfl | hc
    · exact ⟨hb.magic, hsize, hpos, .inl rfl⟩
    · rw [mem_singleton.mp hc]
      refine ⟨rfl, ?_, ?_, .inr rfl⟩
      · simp only [heapAlignment, sizeofHeapBlock] at hbs hsize ⊢
        omega
      · simp only [sizeofHeapBlock]
        omega
  · rw [mem_singleton.mp hc]
    exact ⟨hb.magic, hb.size, hb.pos, .inl rfl⟩

theorem sweepBlocks_ok (h : ∀ b ∈ bs, b.Ok) : ∀ b ∈ sweepBlocks bs, b.Ok := by
  fun_induction sweepBlocks bs with
  | case1 b c rest hboth ih =>
    obtain ⟨hb, hrest⟩ := forall_mem_cons.mp h
    obtain ⟨hc, hrest⟩ := forall_mem_cons.mp hrest
    rw [forall_mem_cons]
    refine ⟨hb.grow ?_, ih hrest⟩
    have hsize := hc.size
    simp only [heapAlignment, sizeofHeapBlock] at hsize ⊢
    omega
  | case2 b c rest hboth ih =>
    obtain ⟨hb, hrest⟩ := forall_mem_cons.mp h
    exact forall_mem_cons.mpr ⟨hb, ih hrest⟩
  | case3 => exact h

/-! ## Blocks in use stay where they are -/

section Offsets

variable {off : Nat} {u : Header}

theorem at_appendPage (h : At width bs off u) (hu : u.free = 0) :
    At width (appendPage bs) off u := by
  rcases eq_nil_or_concat' bs with rfl | ⟨front, last, rfl⟩
  · exact absurd h not_at_nil
  rw [appendPage_last]
  rcases at_append.mp h with hin | ⟨hle, hin⟩
  · exact at_append.mpr (.inl hin)
  · rcases at_cons.mp hin with ⟨h0, rfl⟩ | ⟨-, hin⟩
    · rw [appendPage, if_neg (not_not.mpr hu)]
      exact at_append.mpr (.inr ⟨hle, at_cons.mpr (.inl ⟨h0, rfl⟩)⟩)
    · exact absurd hin not_at_nil

theorem span_taken (b : Header) (h : size ≤ b.size) :
    span width (taken b size) = b.width := by
  unfold taken
  split
  next hsplit =>
    simp only [span_cons, span_nil, width, sizeofHeapBlock] at hsplit ⊢
    omega
  · simp [width]

/-- Replacing one block by others of the same total width leaves the rest in place. -/
theorem at_replace {xs ys : List Header} (bs : List Header)
    (hwidth : span width bs = b.width) (h : At width (xs ++ b :: ys) off u)
    (hne : off ≠ span width xs) : At width (xs ++ (bs ++ ys)) off u := by
  rcases at_append.mp h with h | ⟨hle, h⟩
  · exact at_append.mpr (.inl h)
  · rcases at_cons.mp h with ⟨h0, -⟩ | ⟨hle', h⟩
    · omega
    · refine at_append.mpr (.inr ⟨hle, at_append.mpr (.inr ⟨by omega, ?_⟩)⟩)
      rw [hwidth]
      exact h

theorem at_sweepBlocks (h : At width bs off u) (hu : u.free = 0) :
    At width (sweepBlocks bs) off u := by
  fun_induction sweepBlocks bs generalizing off with
  | case1 b c rest hboth ih =>
    rcases at_cons.mp h with ⟨-, rfl⟩ | ⟨hle, h⟩
    · exact absurd hu hboth.1
    rcases at_cons.mp h with ⟨-, rfl⟩ | ⟨hle', h⟩
    · exact absurd hu hboth.2
    refine at_cons.mpr (.inr ⟨?_, ?_⟩)
    · simp only [width] at hle hle' ⊢
      omega
    · have := ih h
      simp only [width] at this ⊢
      rwa [show off - (sizeofHeapBlock + (b.size + (sizeofHeapBlock + c.size))) =
        off - (sizeofHeapBlock + b.size) - (sizeofHeapBlock + c.size) by omega]
  | case2 b c rest hboth ih =>
    rcases at_cons.mp h with hhere | ⟨hle, h⟩
    · exact at_cons.mpr (.inl hhere)
    · exact at_cons.mpr (.inr ⟨hle, ih h⟩)
  | case3 => exact h

end Offsets

/-! ## Writing headers -/

/-- Two memories with the same cells in a range hold the same headers there. -/
theorem headers_congr {m' : Cells} {block : Nat}
    (h : ∀ cell, block ≤ cell → cell < block + sizeofHeapBlock → m' cell = m cell) :
    (headers m').item block = (headers m).item block ∧
      (headers m').next block = (headers m).next block := by
  have h0 := h block (Nat.le_refl _) (by unfold sizeofHeapBlock; omega)
  have h8 := h (block + 8) (by omega) (by unfold sizeofHeapBlock; omega)
  have h16 := h (block + 16) (by omega) (by unfold sizeofHeapBlock; omega)
  have h24 := h (block + 24) (by omega) (by unfold sizeofHeapBlock; omega)
  simp only [headers, blockMagic, blockSize, blockFree, blockNext, h0, h8, h16, h24, and_self]

/-- The cells of a header. -/
theorem cells_of_item {x : Nat} (h : (headers m).item x = b) :
    m x = b.magic ∧ m (x + 8) = b.size ∧ m (x + 16) = b.free := by
  subst h
  exact ⟨rfl, rfl, rfl⟩

/-- Cells outside a segment are none of its business. -/
theorem segment_cells {m' : Cells} {q : Nat} (h : Segment width (headers m) p a bs e q)
    (hcells : ∀ cell, a ≤ cell → cell < e → m' cell = m cell) :
    Segment width (headers m') p a bs e q := by
  refine h.congr fun x hle hend => headers_congr fun cell hx hlt => hcells cell (by omega) ?_
  have hlt' : cell < x + ((headers m).item x).width := by
    unfold width
    omega
  omega

section Writes

variable (m : Cells) (block value other : Nat)

@[simp] theorem setMagic_apply :
    setMagic m block value other = if other = block then value else m other := by
  simp only [setMagic, Function.update_apply]

@[simp] theorem setSize_apply :
    setSize m block value other = if other = block + 8 then value else m other := by
  simp only [setSize, Function.update_apply]

@[simp] theorem setFree_apply :
    setFree m block value other = if other = block + 16 then value else m other := by
  simp only [setFree, Function.update_apply]

@[simp] theorem setNext_apply :
    setNext m block value other = if other = block + 24 then value else m other := by
  simp only [setNext, Function.update_apply]

end Writes

/-! ## The loops follow the list -/

/-- A null link ends the list, and only that. -/
theorem segment_null (ha : 0 < a)
    (h : Segment width (headers m) p a bs e 0) : p = 0 ↔ bs = [] := by
  cases bs with
  | nil => exact ⟨fun _ => rfl, fun _ => h.1⟩
  | cons b bs =>
    have := h.1
    constructor
    · intro hp; omega
    · intro hb; cases hb

theorem findTail_eq {fuel : Nat} {front : List Header} {last : Header} (ha : 0 < a)
    (h : Segment width (headers m) p a (front ++ [last]) e 0) (hfuel : front.length < fuel) :
    findTail m fuel p = some (a + span width front) := by
  induction front generalizing fuel p a with
  | nil =>
    obtain ⟨rfl, -, hnext, -⟩ := h
    obtain ⟨fuel, rfl⟩ := Nat.exists_eq_add_one.mpr (Nat.zero_lt_of_lt hfuel)
    exact if_pos hnext
  | cons b front ih =>
    obtain ⟨rfl, hb, hrest⟩ := h
    have hwidth := b.width_pos
    have hnext : blockNext m p ≠ 0 := by
      intro hz
      have := (segment_null (by omega) hrest).mp hz
      simp at this
    obtain ⟨fuel, rfl⟩ := Nat.exists_eq_add_one.mpr (Nat.zero_lt_of_lt hfuel)
    rw [findTail, if_neg hnext]
    have := ih (p := (headers m).next p) (by omega) hrest (by simpa using hfuel)
    rw [show blockNext m p = (headers m).next p from rfl, this, span_cons, Nat.add_assoc]

/-- The search answers null when nothing fits, and otherwise the first block that does. -/
theorem findBlock_eq (size : Nat) {fuel : Nat} (ha : 0 < a)
    (h : Segment width (headers m) p a bs e 0) (hfuel : bs.length < fuel) :
    (findBlock m size fuel p = some 0 ∧ ∀ b ∈ bs, ¬ b.Fits size) ∨
    ∃ before b after, bs = before ++ b :: after ∧ b.Fits size ∧ (∀ c ∈ before, ¬ c.Fits size) ∧
      findBlock m size fuel p = some (a + span width before) := by
  induction bs generalizing fuel p a with
  | nil =>
    obtain ⟨fuel, rfl⟩ := Nat.exists_eq_add_one.mpr (Nat.zero_lt_of_lt hfuel)
    rw [findBlock, if_pos h.1]
    exact .inl ⟨rfl, forall_mem_nil _⟩
  | cons b bs ih =>
    obtain ⟨rfl, hb, hrest⟩ := h
    obtain ⟨-, hsize, hfree⟩ := cells_of_item hb
    obtain ⟨fuel, rfl⟩ := Nat.exists_eq_add_one.mpr (Nat.zero_lt_of_lt hfuel)
    rw [findBlock, if_neg (by omega), blockSize, blockFree, hsize, hfree]
    by_cases hskip : b.free = 0 ∨ b.size < size
    · have hno : ¬ b.Fits size := fun hfits => by
        obtain ⟨hf, hs⟩ := hfits
        omega
      rw [if_pos hskip]
      rcases ih (p := (headers m).next p) (by have := b.width_pos; omega) hrest
          (by simpa using hfuel) with ⟨hnull, hnone⟩ | ⟨before, c, after, rfl, hc, hbefore, hfound⟩
      · exact .inl ⟨hnull, forall_mem_cons.mpr ⟨hno, hnone⟩⟩
      · refine .inr ⟨b :: before, c, after, rfl, hc, forall_mem_cons.mpr ⟨hno, hbefore⟩, ?_⟩
        rw [span_cons, ← Nat.add_assoc]
        exact hfound
    · rw [if_neg hskip]
      push Not at hskip
      exact .inr ⟨[], b, bs, rfl, ⟨hskip.1, by omega⟩, forall_mem_nil _, rfl⟩

/-- Taking a block writes its header, the header of what is split off, and nothing else. -/
theorem segment_takeBlock
    (h : Segment width (headers m) p a (before ++ b :: after) e 0) (hsize : size ≤ b.size) :
    Segment width (headers (takeBlock m (a + span width before) size)) p a
      (before ++ (taken b size ++ after)) e 0 := by
  obtain ⟨hbefore, hitem, hafter⟩ := segment_middle.mp h
  set x := a + span width before with hx
  obtain ⟨hmagic, hmsize, -⟩ := cells_of_item hitem
  have hbsize : blockSize m x = b.size := hmsize
  -- the cells that are written lie inside the block
  have hcells : ∀ cell, cell < x ∨ x + b.width ≤ cell → takeBlock m x size cell = m cell := by
    intro cell hout
    unfold width sizeofHeapBlock at hout
    unfold takeBlock
    simp only [hbsize, sizeofHeapBlock, heapAlignment]
    split
    next hsplit =>
      simp only [setFree_apply, setSize_apply, setNext_apply, setMagic_apply]
      repeat rw [if_neg (by omega)]
    next hsplit =>
      rw [setFree_apply, if_neg (by omega)]
  refine segment_append.mpr ⟨x, segment_cells hbefore fun cell _ hlt => hcells cell (.inl (by omega)),
    ?_⟩
  rw [← hx]
  have hafter' : Segment width (headers (takeBlock m x size)) ((headers m).next x)
      (x + b.width) after e 0 :=
    segment_cells hafter fun cell hle _ => hcells cell (.inr hle)
  have hspan := span_taken b hsize
  refine segment_append.mpr ⟨(headers m).next x, ?_, by rw [hspan]; exact hafter'⟩
  rw [hspan]
  unfold taken takeBlock
  simp only [hbsize]
  by_cases hsplit : b.size - size > sizeofHeapBlock + heapAlignment
  · simp only [if_pos hsplit]
    unfold sizeofHeapBlock heapAlignment at hsplit
    refine ⟨rfl, ?_, ?_, ?_, ?_, ?_⟩ <;>
      simp only [headers, blockMagic, blockSize, blockFree, blockNext, setFree_apply, setSize_apply,
        setNext_apply, setMagic_apply, width, sizeofHeapBlock, mk.injEq] <;> grind
  · simp only [if_neg hsplit]
    refine ⟨rfl, ?_, ?_, ?_⟩
    · simp [headers, blockMagic, blockSize, blockFree, hmagic, hmsize]
    · simp [headers, blockNext]
    · rfl

/-- The fresh page is one block, and the committed part of the window keeps its cells. -/
theorem newPageBlock_spec (m : Cells) (block : Nat) :
    (∀ cell, cell < block → newPageBlock m block cell = m cell) ∧
    (headers (newPageBlock m block)).item block = pageBlock ∧
    (headers (newPageBlock m block)).next block = 0 := by
  refine ⟨fun cell hlt => ?_, ?_, ?_⟩
  · simp only [newPageBlock, setFree_apply, setSize_apply, setNext_apply, setMagic_apply]
    repeat rw [if_neg (by omega)]
  · simp [newPageBlock, headers, blockMagic, blockSize, blockFree, pageBlock]
  · simp [newPageBlock, headers, blockNext]

/-- Behind the last block the new page either widens it or is linked to it. -/
theorem segment_linkPage {block : Nat} {front : List Header} {last : Header}
    (h : Segment width (headers m) p a (front ++ [last]) block 0)
    (hitem : (headers m).item block = pageBlock) (hnext : (headers m).next block = 0) :
    Segment width (headers (linkPage m (a + span width front) block)) p a
      (appendPage (front ++ [last])) (block + heapPageSize) 0 := by
  have hend := h.end_eq
  obtain ⟨hfront, hlast, hnull, -⟩ := segment_middle.mp h
  set x := a + span width front with hx
  have hblock : block = x + (sizeofHeapBlock + last.size) := by
    rw [hend, span_append, span_cons, span_nil, width]
    omega
  obtain ⟨hmagic, hsize, hfree⟩ := cells_of_item hlast
  obtain ⟨hbmagic, hbsize, hbfree⟩ := cells_of_item hitem
  have hbnext : m (block + 24) = 0 := hnext
  have hcells : ∀ cell, cell < x → linkPage m x block cell = m cell := by
    intro cell hlt
    unfold linkPage
    split
    · rw [setSize_apply, if_neg (by omega)]
    · rw [setNext_apply, if_neg (by omega)]
  rw [appendPage_last]
  refine segment_append.mpr ⟨x, segment_cells hfront fun cell _ hlt => hcells cell hlt, ?_⟩
  rw [← hx]
  unfold linkPage appendPage
  simp only [blockFree, blockSize, hfree, hsize]
  by_cases hf : last.free ≠ 0
  · rw [if_pos hf, if_pos ⟨hf, by omega⟩]
    refine ⟨rfl, ?_, ?_, ?_⟩ <;>
      simp only [headers, blockMagic, blockSize, blockFree, blockNext, setSize_apply,
        width, mk.injEq, hmagic, hfree, hbsize, pageBlock, sizeofHeapBlock,
        heapPageSize] at hblock hnull ⊢ <;> grind
  · rw [if_neg hf, if_neg (fun hand => hf hand.1)]
    have hsz : sizeofHeapBlock = 32 := rfl
    refine ⟨rfl, ?_, ?_, ?_, ?_, ?_⟩ <;>
      simp only [headers, blockMagic, blockSize, blockFree, blockNext, setNext_apply,
        width, pageBlock, sizeofHeapBlock, heapPageSize] at * <;> grind

/-- The pass over the list; the cells below it stay as they are. -/
theorem sweep_eq {fuel : Nat} (ha : 0 < a)
    (h : Segment width (headers m) p a bs e 0) (hfuel : bs.length < fuel) :
    ∃ m', sweep fuel m p = some m' ∧
      Segment width (headers m') p a (sweepBlocks bs) e 0 ∧
      ∀ cell, cell < a → m' cell = m cell := by
  induction fuel generalizing p a m bs with
  | zero => exact absurd hfuel (Nat.not_lt_zero _)
  | succ fuel ih =>
    match bs, h, hfuel with
    | [], h, _ =>
      refine ⟨m, ?_, h, fun _ _ => rfl⟩
      rw [sweep, if_pos (.inl h.1)]
    | [b], h, _ =>
      refine ⟨m, ?_, h, fun _ _ => rfl⟩
      rw [sweep, if_pos (.inr (by rw [h.1]; exact h.2.2.1))]
    | b :: c :: rest, h, hfuel =>
      obtain ⟨rfl, hb, hnext, hc, hrest⟩ := h
      have hbw := b.width_pos
      have hnext' : blockNext m p = p + b.width := hnext
      obtain ⟨hbmagic, hbsize, hbfree⟩ := cells_of_item hb
      obtain ⟨-, hcsize, hcfree⟩ := cells_of_item (x := p + b.width) hc
      rw [sweep, if_neg (by rw [hnext']; omega), hnext', blockFree, blockFree, hbfree, hcfree]
      by_cases hboth : b.free ≠ 0 ∧ c.free ≠ 0
      · -- merged: the pass goes on behind the second block
        rw [if_neg (by omega), sweepBlocks, if_pos hboth, blockSize, blockSize, hbsize, hcsize]
        simp only
        set m1 := setSize m p (b.size + (sizeofHeapBlock + c.size)) with hm1
        have hlink : blockNext m1 (blockNext m1 p) = blockNext m (p + b.width) := by
          have h1 : blockNext m1 p = p + b.width := by
            rw [← hnext', hm1, blockNext, setSize_apply, if_neg (by omega)]
            rfl
          rw [h1, hm1, blockNext, setSize_apply, if_neg (by unfold width at *; omega)]
          rfl
        rw [hlink]
        set m2 := setNext m1 p (blockNext m (p + b.width)) with hm2
        have hcells : ∀ cell, cell ≠ p + 8 → cell ≠ p + 24 → m2 cell = m cell := by
          intro cell h8 h24
          rw [hm2, setNext_apply, if_neg h24, hm1, setSize_apply, if_neg h8]
        have hm2next : blockNext m2 p = blockNext m (p + b.width) := by
          rw [hm2, blockNext, setNext_apply, if_pos rfl]
        have hwidth : p + b.width + c.width =
            p + width { b with size := b.size + (sizeofHeapBlock + c.size) } := by
          simp only [width]
          omega
        have hrest' : Segment width (headers m2) (blockNext m2 p)
            (p + b.width + c.width) rest e 0 := by
          rw [hm2next]
          refine segment_cells hrest fun cell hle _ => hcells cell ?_ ?_ <;>
            · unfold width sizeofHeapBlock at hle
              omega
        obtain ⟨m', hsweep, hseg, hbelow⟩ := ih (by omega) hrest' (by
          simp only [length_cons] at hfuel
          omega)
        refine ⟨m', hsweep, ⟨rfl, ?_, ?_⟩, fun cell hlt => ?_⟩
        · have hsize' : m2 (p + 8) = b.size + (sizeofHeapBlock + c.size) := by
            rw [hm2, setNext_apply, if_neg (by omega), hm1, setSize_apply, if_pos rfl]
          have hin : ∀ cell, cell < p + sizeofHeapBlock → m' cell = m2 cell := fun cell hlt =>
            hbelow cell (by unfold width; omega)
          simp only [headers, blockMagic, blockSize, blockFree]
          rw [hin p (by unfold sizeofHeapBlock; omega), hin (p + 8) (by unfold sizeofHeapBlock; omega),
            hin (p + 16) (by unfold sizeofHeapBlock; omega), hsize',
            hcells p (by omega) (by omega), hcells (p + 16) (by omega) (by omega), hbmagic,
            hbfree]
        · rw [← hwidth]
          have : (headers m').next p = blockNext m2 p :=
            hbelow (p + 24) (by unfold width sizeofHeapBlock; omega)
          rw [this]
          exact hseg
        · rw [hbelow cell (by omega), hcells cell (by omega) (by omega)]
      · rw [if_pos (by omega), sweepBlocks, if_neg hboth]
        have htail : Segment width (headers m) (p + b.width) (p + b.width) (c :: rest) e 0 :=
          ⟨rfl, hc, hrest⟩
        obtain ⟨m', hsweep, hseg, hbelow⟩ := ih (by omega) htail (by
          simp only [length_cons] at hfuel ⊢
          omega)
        have hsame : (headers m').item p = (headers m).item p ∧
            (headers m').next p = (headers m).next p :=
          headers_congr fun cell _ hlt => hbelow cell (by unfold width; omega)
        refine ⟨m', hsweep, ⟨rfl, hsame.1.trans hb, ?_⟩, fun cell hlt => hbelow cell (by omega)⟩
        rw [hsame.2, show (headers m).next p = p + b.width from hnext]
        exact hseg

/-! ## The heap and its list -/

/-- The links of the heap spell out the list `bs`, which tiles the committed pages. -/
structure IsHeap (h : Heap) (bs : List Header) : Prop where
  list : Segment Header.width (headers h.cells) h.firstBlock heapBase bs h.committedEnd 0
  ok : ∀ b ∈ bs, b.Ok
  pages : ∃ n ≤ heapPageCount, h.committedEnd = heapBase + n * heapPageSize

theorem heapBase_pos : 0 < heapBase := by decide

theorem length_le_span (bs : List Header) : bs.length ≤ span width bs := by
  induction bs with
  | nil => exact Nat.le_refl _
  | cons b bs ih =>
    have := b.width_pos
    rw [length_cons, span_cons]
    omega

/-- Every walk has fuel for the whole list. -/
theorem IsHeap.fuel (hh : IsHeap h bs) : bs.length < walkFuel h := by
  have := length_le_span bs
  have := hh.list.end_eq
  unfold walkFuel
  omega

theorem IsHeap.of_cells {bs bs' : List Header} (hh : IsHeap h bs) {cells : Cells}
    (hlist : Segment width (headers cells) h.firstBlock heapBase bs' h.committedEnd 0)
    (hok : ∀ b ∈ bs', b.Ok) : IsHeap { h with cells } bs' :=
  ⟨hlist, hok, hh.pages⟩

/-- `commit_page` always returns; it leaves the list alone or appends one page to it. -/
theorem commitPage_spec (hh : IsHeap h bs) :
    ∃ r h', commitPage h = some (r, h') ∧
      ((r = false ∧ IsHeap h' bs) ∨
       (r = true ∧ IsHeap h' (appendPage bs) ∧
        h'.committedEnd = h.committedEnd + heapPageSize ∧ h.committedEnd < heapLimit)) := by
  have hsame : ∀ (physical : Physical) (kernel : KernelTables),
      IsHeap { h with physical := physical, kernel := kernel } bs := fun _ _ => ⟨hh.list, hh.ok, hh.pages⟩
  unfold commitPage
  split
  · exact ⟨false, h, rfl, .inl ⟨rfl, hh⟩⟩
  next hlimit =>
  simp only
  split
  · exact ⟨false, _, rfl, .inl ⟨rfl, hsame _ _⟩⟩
  · split
    · exact ⟨false, _, rfl, .inl ⟨rfl, hsame _ _⟩⟩
    next kernel hkernel =>
      obtain ⟨hbelow, hitem, hnext⟩ := newPageBlock_spec h.cells h.committedEnd
      have hpages : ∃ n ≤ heapPageCount,
          h.committedEnd + heapPageSize = heapBase + n * heapPageSize := by
        obtain ⟨n, hn, heq⟩ := hh.pages
        refine ⟨n + 1, ?_, ?_⟩
        · unfold heapLimit heapPageSize at *
          omega
        · unfold heapPageSize at *
          omega
      have hlist := segment_cells hh.list fun cell _ hlt => hbelow cell hlt
      have hlt : h.committedEnd < heapLimit := by omega
      split
      next hfirst =>
        -- nothing was committed before: the page's block is the list
        have hnil : bs = [] := (segment_null heapBase_pos hh.list).mp hfirst
        subst hnil
        refine ⟨true, _, rfl, .inr ⟨rfl, ⟨?_, appendPage_ok hh.ok, hpages⟩, rfl, hlt⟩⟩
        have hstart := hh.list.2
        exact ⟨hstart.symm, by rw [hstart]; exact hitem, by rw [hstart]; exact hnext,
          by rw [hstart]; rfl⟩
      next hfirst =>
        obtain ⟨front, last, rfl⟩ := (eq_nil_or_concat' bs).resolve_left fun hnil =>
          hfirst ((segment_null heapBase_pos hh.list).mpr hnil)
        have hfuel := hh.fuel
        rw [length_append] at hfuel
        rw [findTail_eq heapBase_pos hlist (by omega)]
        exact ⟨true, _, rfl, .inr ⟨rfl,
          ⟨segment_linkPage hlist hitem hnext, appendPage_ok hh.ok, hpages⟩, rfl, hlt⟩⟩

/-- `kmalloc`'s loop always returns: pages are appended, then nothing fits and no page is to be had, or
the first block that fits is taken. -/
theorem kmallocLoop_spec (hsize : size % heapAlignment = 0) (hpos : 0 < size)
    {fuel n : Nat} (hh : IsHeap h bs)
    (hn : h.committedEnd = heapBase + n * heapPageSize) (hfuel : heapPageCount < fuel + n) :
    ∃ pointer h' pages, kmallocLoop size fuel h = some (pointer, h') ∧
      ((pointer = 0 ∧ IsHeap h' (appendPage^[pages] bs)) ∨
       ∃ before b after, appendPage^[pages] bs = before ++ b :: after ∧ b.Fits size ∧
        pointer = heapBase + span width before + sizeofHeapBlock ∧
        IsHeap h' (before ++ (taken b size ++ after))) := by
  induction fuel generalizing n h bs with
  | zero =>
    obtain ⟨n', hle, heq⟩ := hh.pages
    unfold heapPageSize at *
    omega
  | succ fuel ih =>
    rw [kmallocLoop]
    rcases findBlock_eq size heapBase_pos hh.list hh.fuel with
      ⟨hnull, -⟩ | ⟨before, b, after, rfl, hfits, -, hfound⟩
    · rw [hnull]
      obtain ⟨r, h', hcommit, ⟨rfl, hh'⟩ | ⟨rfl, hh', hend, hlt⟩⟩ := commitPage_spec hh
      · rw [hcommit]
        exact ⟨0, h', 0, rfl, .inl ⟨rfl, hh'⟩⟩
      · rw [hcommit]
        obtain ⟨pointer, h'', pages, hloop, hresult⟩ := ih (n := n + 1) hh'
          (by rw [hend, hn]; unfold heapPageSize; omega) (by omega)
        exact ⟨pointer, h'', pages + 1, hloop, hresult⟩
    rw [hfound]
    have hne : heapBase + span width before ≠ 0 := by
      have := heapBase_pos
      omega
    refine ⟨heapBase + span width before + sizeofHeapBlock,
      { h with cells := takeBlock h.cells (heapBase + span width before) size }, 0, ?_,
      .inr ⟨before, b, after, rfl, hfits, rfl, ?_⟩⟩
    · split
      next heq => cases heq
      next heq => exact absurd (Option.some.inj heq) hne
      next block hblock heq => rw [← Option.some.inj heq]
    · obtain ⟨hbefore, hrest⟩ := forall_mem_append.mp hh.ok
      obtain ⟨hb, hafter⟩ := forall_mem_cons.mp hrest
      exact hh.of_cells (segment_takeBlock hh.list hfits.2) (forall_mem_append.mpr
        ⟨hbefore, forall_mem_append.mpr ⟨taken_ok hb hsize hpos, hafter⟩⟩)

theorem span_aligned (h : ∀ b ∈ bs, b.Ok) :
    span width bs % heapAlignment = 0 := by
  induction bs with
  | nil => rfl
  | cons b bs ih =>
    have hb := (h b mem_cons_self).size
    have hrest := ih fun c hc => h c (mem_cons_of_mem b hc)
    rw [span_cons, width]
    unfold heapAlignment sizeofHeapBlock at *
    omega

/-- Marking one block free. -/
theorem segment_setFree (h : Segment width (headers m) p a (before ++ b :: after) e 0) (value : Nat) :
    Segment width (headers (setFree m (a + span width before) value)) p a
      (before ++ { b with free := value } :: after) e 0 := by
  obtain ⟨hbefore, hitem, hafter⟩ := segment_middle.mp h
  set x := a + span width before with hx
  refine segment_middle.mpr ⟨?_, ?_, ?_⟩
  · exact segment_cells hbefore fun cell _ hlt => by rw [setFree_apply, if_neg (by omega)]
  · rw [← hx, ← hitem]
    simp [headers, blockMagic, blockSize, blockFree]
  · rw [← hx]
    have hnext : (headers (setFree m x value)).next x = (headers m).next x := by
      simp [headers, blockNext]
    rw [hnext]
    refine segment_cells hafter fun cell hle _ => ?_
    unfold width sizeofHeapBlock at hle
    rw [setFree_apply, if_neg (by omega)]

/-- `kfree` of a block in use always returns: the block is marked free and the pass is made. -/
theorem kfree_spec (hh : IsHeap h (before ++ b :: after))
    (hused : b.free = 0) :
    ∃ h', kfree h (heapBase + span width before + sizeofHeapBlock) = some h' ∧
      IsHeap h' (sweepBlocks (before ++ { b with free := 1 } :: after)) := by
  set x := heapBase + span width before with hx
  obtain ⟨hbefore, hrest⟩ := forall_mem_append.mp hh.ok
  obtain ⟨hb, hafter⟩ := forall_mem_cons.mp hrest
  have hend := hh.list.end_eq
  rw [span_append, span_cons, ← Nat.add_assoc, ← hx, width] at hend
  obtain ⟨-, hitem, -⟩ := segment_middle.mp hh.list
  rw [← hx] at hitem
  obtain ⟨hmagic, hsize, hfree⟩ := cells_of_item hitem
  have hpos := hb.pos
  have haccepts : kfreeAccepts h (x + sizeofHeapBlock) = true := by
    have halign : (x + sizeofHeapBlock) % heapAlignment = 0 := by
      have hspan := span_aligned hbefore
      unfold heapBase heapAlignment sizeofHeapBlock at *
      omega
    obtain ⟨n, hn, hcommitted⟩ := hh.pages
    unfold kfreeAccepts
    simp only [Nat.add_sub_cancel, blockMagic, blockSize, blockFree, hmagic, hb.magic, hsize, hfree,
      hused, halign]
    unfold heapLimit heapPageSize sizeofHeapBlock at *
    simp
    omega
  have hsweep := segment_setFree hh.list 1
  rw [← hx] at hsweep
  have hfuel : (before ++ { b with free := 1 } :: after).length < walkFuel h := by
    simpa using hh.fuel
  obtain ⟨m', heq, hseg, -⟩ := sweep_eq heapBase_pos hsweep hfuel
  have hne : x + sizeofHeapBlock ≠ 0 := by unfold sizeofHeapBlock; omega
  refine ⟨{ h with cells := m' }, ?_, hh.of_cells hseg (sweepBlocks_ok ?_)⟩
  · rw [kfree, if_neg hne, if_neg (by rw [haccepts]; simp), Nat.add_sub_cancel, heq]
  · exact forall_mem_append.mpr ⟨hbefore,
      forall_mem_cons.mpr ⟨⟨hb.magic, hb.size, hb.pos, .inr rfl⟩, hafter⟩⟩

end KernelBoot.Mm
