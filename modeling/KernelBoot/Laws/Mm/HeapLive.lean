import KernelBoot.Laws.Mm.HeapRun

/-!
# The live allocations of the heap

`liveAllocations` walks the links of the heap and lists the payloads of the blocks in use, by address.
A successful `kmalloc` adds its result to the list and changes nothing else of it, and `kfree` of that
result takes it out again.
-/

namespace KernelBoot.Mm

open Lib List

variable {bs : List Header} {h : Heap}

/-- The payloads of the blocks in use from a block on. -/
def liveFrom (m : Cells) : (fuel block : Nat) → List Nat
  | 0, _ => []
  | fuel + 1, block =>
    if block = 0 then []
    else if blockFree m block = 0 then
      (block + sizeofHeapBlock) :: liveFrom m fuel (blockNext m block)
    else liveFrom m fuel (blockNext m block)

def liveAllocations (h : Heap) : List Nat := liveFrom h.cells (walkFuel h) h.firstBlock

/-- The payloads of the blocks in use of a list that begins at an address. -/
def usedFrom (a : Nat) : List Header → List Nat
  | [] => []
  | b :: bs =>
    if b.free = 0 then (a + sizeofHeapBlock) :: usedFrom (a + b.width) bs
    else usedFrom (a + b.width) bs

theorem usedFrom_append (a : Nat) (bs cs : List Header) :
    usedFrom a (bs ++ cs) = usedFrom a bs ++ usedFrom (a + span Header.width bs) cs := by
  induction bs generalizing a with
  | nil => rfl
  | cons b bs ih =>
    rw [cons_append, usedFrom, usedFrom, ih, span_cons, Nat.add_assoc]
    split
    · rfl
    · rfl

theorem usedFrom_free {b : Header} (h : b.free ≠ 0) (a : Nat) (bs : List Header) :
    usedFrom a (b :: bs) = usedFrom (a + b.width) bs := by
  rw [usedFrom, if_neg h]

theorem usedFrom_used {b : Header} (h : b.free = 0) (a : Nat) (bs : List Header) :
    usedFrom a (b :: bs) = (a + sizeofHeapBlock) :: usedFrom (a + b.width) bs := by
  rw [usedFrom, if_pos h]

theorem usedFrom_cons_congr {cs : List Header} (h : ∀ a, usedFrom a bs = usedFrom a cs) (a : Nat)
    (b : Header) : usedFrom a (b :: bs) = usedFrom a (b :: cs) := by
  rw [usedFrom, usedFrom, h]

theorem liveFrom_eq {m : Cells} {fuel p a e : Nat} (ha : 0 < a)
    (h : Segment Header.width (headers m) p a bs e 0) (hfuel : bs.length < fuel) :
    liveFrom m fuel p = usedFrom a bs := by
  induction bs generalizing fuel p a with
  | nil =>
    cases fuel with
    | zero => rfl
    | succ fuel => rw [liveFrom, if_pos h.1, usedFrom]
  | cons b bs ih =>
    cases fuel with
    | zero => omega
    | succ fuel =>
      obtain ⟨rfl, hitem, hrest⟩ := h
      have hfree : blockFree m p = b.free := by
        rw [← hitem]
        rfl
      rw [length_cons] at hfuel
      have htail : liveFrom m fuel (blockNext m p) = usedFrom (p + b.width) bs :=
        ih (by omega) hrest (by omega)
      rw [liveFrom, if_neg (by omega), htail, hfree, usedFrom]

theorem IsHeap.live (hh : IsHeap h bs) : liveAllocations h = usedFrom heapBase bs :=
  liveFrom_eq heapBase_pos hh.list hh.fuel

/-! ## What the list operations do to the blocks in use -/

theorem usedFrom_appendPage (a : Nat) (bs : List Header) :
    usedFrom a (appendPage bs) = usedFrom a bs := by
  fun_induction appendPage bs generalizing a with
  | case1 => rfl
  | case2 b hfree =>
    rw [usedFrom_free hfree]
    exact usedFrom_free hfree a []
  | case3 b hused =>
    rw [usedFrom, usedFrom]
    rfl
  | case4 b c rest ih => exact usedFrom_cons_congr ih a b

theorem usedFrom_appendPages (a : Nat) (bs : List Header) (pages : Nat) :
    usedFrom a (appendPage^[pages] bs) = usedFrom a bs := by
  induction pages generalizing bs with
  | zero => rfl
  | succ pages ih => rw [Function.iterate_succ_apply, ih, usedFrom_appendPage]

theorem usedFrom_sweepBlocks (a : Nat) (bs : List Header) :
    usedFrom a (sweepBlocks bs) = usedFrom a bs := by
  fun_induction sweepBlocks bs generalizing a with
  | case1 b c rest hboth ih =>
    have hmerged : usedFrom a ({ b with size := b.size + (sizeofHeapBlock + c.size) } ::
        sweepBlocks rest) = usedFrom (a + b.width + c.width) (sweepBlocks rest) := by
      rw [usedFrom, if_neg hboth.1]
      simp only [Header.width, Nat.add_assoc]
    rw [hmerged, ih, usedFrom_free hboth.1, usedFrom_free hboth.2]
  | case2 b c rest hboth ih => exact usedFrom_cons_congr ih a b
  | case3 => rfl

/-- The block that was taken comes first of what it was split into. -/
theorem taken_cons (b : Header) (size : Nat) :
    ∃ c cs, taken b size = c :: cs ∧ c.free = 0 ∧ ∀ a, usedFrom a cs = [] := by
  fun_cases taken b size
  · exact ⟨_, _, rfl, rfl, fun a => rfl⟩
  · exact ⟨_, _, rfl, rfl, fun a => rfl⟩

/-! ## `kmalloc` and `kfree` -/

/-- The heap holds an allocation at `pointer`, with these others before and behind it. -/
structure Holds (h : Heap) (pointer : Nat) (before after : List Nat) : Prop where
  live : liveAllocations h = before ++ pointer :: after
  block : ∃ bs b cs, IsHeap h (bs ++ b :: cs) ∧ b.free = 0 ∧
    pointer = heapBase + span Header.width bs + sizeofHeapBlock ∧ before = usedFrom heapBase bs

/-- `kmalloc` always returns; it finds no room, or its result joins the live allocations. -/
theorem kmalloc_live (hh : IsHeap h bs) (size : Nat) :
    ∃ pointer h', kmalloc h size = some (pointer, h') ∧
      ((pointer = 0 ∧ liveAllocations h' = liveAllocations h) ∨
       (pointer ≠ 0 ∧ ∃ before after, liveAllocations h = before ++ after ∧
        Holds h' pointer before after)) := by
  rw [kmalloc]
  split
  · exact ⟨0, h, rfl, .inl ⟨rfl, rfl⟩⟩
  next hsize =>
  obtain ⟨halign, -, hpos⟩ := alignUp_spec size
  obtain ⟨n, -, hn⟩ := hh.pages
  obtain ⟨pointer, h', pages, heq, ⟨rfl, hheap⟩ | ⟨before, b, after, hsplit, hfits, rfl, hheap⟩⟩ :=
    kmallocLoop_spec halign (hpos (by omega)) hh hn
      (show heapPageCount < heapPageCount + 1 + n by omega)
  · refine ⟨0, h', heq, .inl ⟨rfl, ?_⟩⟩
    rw [hheap.live, usedFrom_appendPages, hh.live]
  · have hspan := span_taken b hfits.2
    obtain ⟨c, cs, htaken, hused, hrest⟩ := taken_cons b (alignUp size)
    rw [htaken, cons_append] at hheap
    rw [htaken, span_cons] at hspan
    refine ⟨_, h', heq, .inr ⟨by unfold sizeofHeapBlock; omega, usedFrom heapBase before,
      usedFrom (heapBase + span Header.width before + b.width) after, ?_, ?_, ?_⟩⟩
    · rw [hh.live, ← usedFrom_appendPages heapBase bs pages, hsplit, usedFrom_append,
        usedFrom_free hfits.1]
    · rw [hheap.live, usedFrom_append, usedFrom_used hused, usedFrom_append, hrest,
        nil_append, Nat.add_assoc _ c.width, hspan]
    · exact ⟨before, c, cs ++ after, hheap, hused, rfl, rfl⟩

/-- `kfree` of a live allocation always returns, and takes it off the list. -/
theorem Holds.kfree {pointer : Nat} {before after : List Nat} (hh : Holds h pointer before after) :
    ∃ h', kfree h pointer = some h' ∧ liveAllocations h' = before ++ after := by
  obtain ⟨hlive, bs, b, cs, hheap, hused, rfl, rfl⟩ := hh
  obtain ⟨h', heq, hheap'⟩ := kfree_spec hheap hused
  have hfreed : ∀ a, usedFrom a ({ b with free := 1 } :: cs) = usedFrom (a + b.width) cs := by
    intro a
    rw [usedFrom, if_neg Nat.one_ne_zero]
    rfl
  rw [hheap.live, usedFrom_append, usedFrom_used hused] at hlive
  have hafter := (cons.inj (append_cancel_left hlive)).2
  exact ⟨h', heq, by rw [hheap'.live, usedFrom_sweepBlocks, usedFrom_append, hfreed, hafter]⟩

/-- Physical memory is none of the heap's business. -/
theorem Holds.withPhysical {pointer : Nat} {before after : List Nat}
    (hh : Holds h pointer before after) (physical : Physical) :
    Holds { h with physical } pointer before after := by
  obtain ⟨hlive, bs, b, cs, hheap, hrest⟩ := hh
  exact ⟨hlive, bs, b, cs, ⟨hheap.list, hheap.ok, hheap.pages⟩, hrest⟩

end KernelBoot.Mm
