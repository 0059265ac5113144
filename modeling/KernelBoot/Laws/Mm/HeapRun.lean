import KernelBoot.Laws.Mm.Heap

/-!
# The heap over whole runs

Runs of `kmalloc` and `kfree`, with the rest of the kernel using the frame allocator in between. The
block list tiles the committed pages in every state, and every allocation that was not freed lies in a
block of its own. Whether neighbouring free blocks are always merged is settled exactly: a run keeps
them merged as long as no block is freed between two free ones, and no longer.
-/

namespace KernelBoot.Mm

open Lib List

variable {after before bs : List Header} {off : Nat} {b : Header} {s : HeapSystem} {call : HeapCall}
  {h : Heap}

/-- The heap, and the results of `kmalloc` that were not freed, with the size that was asked for. -/
structure HeapSystem where
  heap : Heap
  live : List (Nat × Nat)

inductive HeapCall where
  | malloc (size : Nat)
  | free (pointer : Nat)
  /-- Other users of the frame allocator, with whatever they leave. -/
  | others (physical : Physical)

open HeapCall

/-- A call; `none` if a loop of it ran out of fuel. -/
def HeapCall.result (s : HeapSystem) : HeapCall → Option HeapSystem
  | .malloc size => (kmalloc s.heap size).map fun (pointer, heap) =>
    { heap, live := if pointer = 0 then s.live else (pointer, size) :: s.live }
  | .free pointer => (kfree s.heap pointer).map fun heap =>
    { heap, live := s.live.filter fun a => a.1 != pointer }
  | .others physical => some { s with heap := { s.heap with physical } }

def HeapCall.step (s : HeapSystem) (call : HeapCall) : HeapSystem := (call.result s).getD s

/-- Only null and results of `kmalloc` that were not freed yet are freed. -/
def HeapCall.Legal (s : HeapSystem) : HeapCall → Prop
  | .malloc _ => True
  | .free pointer => pointer = 0 ∨ pointer ∈ s.live.map Prod.fst
  | .others _ => True

/-! ## What a call does to the list -/

inductive HeapCall.Turns (bs : List Header) : HeapCall → List Header → Prop
  | grown {call : HeapCall} (hcall : ∀ pointer, call = .free pointer → pointer = 0) (pages : Nat) :
      Turns bs call (appendPage^[pages] bs)
  | took {size : Nat} {before after : List Header} {b : Header} (wanted pages : Nat)
      (hsplit : appendPage^[pages] bs = before ++ b :: after) (hfits : b.Fits wanted) :
      Turns bs (.malloc size) (before ++ (taken b wanted ++ after))
  | freed {before after : List Header} {b : Header} (hsplit : bs = before ++ b :: after)
      (hused : b.free = 0) :
      Turns bs (.free (heapBase + span Header.width before + sizeofHeapBlock))
        (sweepBlocks (before ++ { b with free := 1 } :: after))

/-- The list `bs` is the heap's, and every live allocation is the payload of a block in use. -/
structure HeapSystem.Tracked (s : HeapSystem) (bs : List Header) : Prop where
  heap : IsHeap s.heap bs
  live : ∀ a ∈ s.live, ∃ off b, At Header.width bs off b ∧ b.free = 0 ∧
    a.1 = heapBase + off + sizeofHeapBlock ∧ a.2 ≤ b.size
  nodup : (s.live.map Prod.fst).Nodup

theorem at_appendPages {u : Header} (h : At Header.width bs off u) (hu : u.free = 0) (pages : Nat) :
    At Header.width (appendPage^[pages] bs) off u :=
  Function.Iterate.rec (At Header.width · off u) h (fun _ hat => at_appendPage hat hu) pages

theorem alignUp_spec (size : Nat) :
    alignUp size % heapAlignment = 0 ∧ size ≤ alignUp size ∧ (0 < size → 0 < alignUp size) := by
  unfold alignUp heapAlignment
  omega

/-- The block a successful `kmalloc` answers, in the list it leaves. -/
theorem at_taken {wanted : Nat} (hfits : b.Fits wanted) :
    ∃ c, At Header.width (before ++ (taken b wanted ++ after)) (span Header.width before) c ∧
      c.free = 0 ∧ wanted ≤ c.size := by
  fun_cases taken b wanted
  · exact ⟨_, ⟨before, _, rfl, rfl⟩, rfl, Nat.le_refl _⟩
  · exact ⟨_, ⟨before, _, rfl, rfl⟩, rfl, hfits.2⟩

/-- Every legal call returns, keeps the system tracked, and turns the list as it should. -/
theorem HeapSystem.Tracked.step (hs : s.Tracked bs) (hlegal : call.Legal s) :
    ∃ s' bs', call.result s = some s' ∧ s'.Tracked bs' ∧ call.Turns bs bs' := by
  cases call with
  | others physical =>
    exact ⟨_, bs, rfl, ⟨⟨hs.heap.list, hs.heap.ok, hs.heap.pages⟩, hs.live, hs.nodup⟩, .grown (fun _ h => by cases h) 0⟩
  | malloc size =>
    simp only [result, kmalloc]
    split
    · exact ⟨_, bs, rfl, ⟨hs.heap, by simpa using hs.live, by simpa using hs.nodup⟩, .grown (fun _ h => by cases h) 0⟩
    next hsize =>
    obtain ⟨halign, hle, hpos⟩ := alignUp_spec size
    obtain ⟨n, -, hn⟩ := hs.heap.pages
    obtain ⟨pointer, heap, pages, heq, ⟨rfl, hheap⟩ | ⟨before, b, after, hsplit, hfits, rfl, hheap⟩⟩ :=
      kmallocLoop_spec halign (hpos (by omega)) hs.heap hn
        (show heapPageCount < heapPageCount + 1 + n by omega)
    · rw [heq]
      refine ⟨_, _, rfl, ⟨hheap, fun a ha => ?_, by simpa using hs.nodup⟩, .grown (fun _ h => by cases h) pages⟩
      obtain ⟨off, b, hat, hused, hpointer, hroom⟩ := hs.live a (by simpa using ha)
      exact ⟨off, b, at_appendPages hat hused pages, hused, hpointer, hroom⟩
    · rw [heq]
      have hne : heapBase + span Header.width before + sizeofHeapBlock ≠ 0 := by
        unfold sizeofHeapBlock
        omega
      -- the blocks of older allocations are in use, so the one taken is none of them
      have hold : ∀ a ∈ s.live, ∃ off c, At Header.width (before ++ b :: after) off c ∧
          c.free = 0 ∧ off ≠ span Header.width before ∧
          a.1 = heapBase + off + sizeofHeapBlock ∧ a.2 ≤ c.size := by
        intro a ha
        obtain ⟨off, c, hat, hused, hpointer, hroom⟩ := hs.live a ha
        have hat' := at_appendPages hat hused pages
        rw [hsplit] at hat'
        refine ⟨off, c, hat', hused, ?_, hpointer, hroom⟩
        rintro rfl
        have hsame := hat'.unique Header.width_pos ⟨before, after, rfl, rfl⟩
        rw [hsame] at hused
        exact hfits.1 hused
      refine ⟨_, _, rfl, ⟨hheap, fun a ha => ?_, ?_⟩, .took _ pages hsplit hfits⟩
      · simp only [if_neg hne, mem_cons] at ha
        rcases ha with rfl | ha
        · obtain ⟨c, hat, hused, hroom⟩ := at_taken hfits
          exact ⟨_, c, hat, hused, rfl, by omega⟩
        · obtain ⟨off, c, hat, hused, hoff, hpointer, hroom⟩ := hold a ha
          exact ⟨off, c, at_replace _ (span_taken b hfits.2) hat hoff, hused, hpointer, hroom⟩
      · simp only [if_neg hne, map_cons, nodup_cons]
        refine ⟨fun hmem => ?_, hs.nodup⟩
        obtain ⟨a, ha, heq⟩ := mem_map.mp hmem
        obtain ⟨off, c, -, -, hoff, hpointer, -⟩ := hold a ha
        omega
  | free pointer =>
    rcases hlegal with rfl | hmem
    · refine ⟨_, bs, rfl, ⟨hs.heap, fun a ha => hs.live a (mem_of_mem_filter ha), ?_⟩,
        .grown (fun _ h => (free.inj h).symm) 0⟩
      exact hs.nodup.sublist (filter_sublist.map Prod.fst)
    obtain ⟨a, ha, rfl⟩ := mem_map.mp hmem
    obtain ⟨off, b, ⟨before, after, rfl, rfl⟩, hused, hpointer, -⟩ := hs.live a ha
    obtain ⟨heap, heq, hheap⟩ := kfree_spec hs.heap hused
    simp only [result, hpointer, heq, Option.map_some]
    refine ⟨_, _, rfl, ⟨hheap, fun c hc => ?_, ?_⟩, .freed rfl hused⟩
    · obtain ⟨hc, hne⟩ := mem_filter.mp hc
      obtain ⟨off, u, hat, hu, hcpointer, hroom⟩ := hs.live c hc
      refine ⟨off, u, at_sweepBlocks ?_ hu, hu, hcpointer, hroom⟩
      have hoff : off ≠ span Header.width before := by
        simp only [bne_iff_ne, ne_eq] at hne
        omega
      exact at_replace [{ b with free := 1 }] (by simp [Header.width]) hat hoff
    · exact hs.nodup.sublist (filter_sublist.map Prod.fst)

theorem appendPage_ne_nil (bs : List Header) : appendPage bs ≠ [] := by
  rcases eq_nil_or_concat' bs with rfl | ⟨front, last, rfl⟩
  · exact cons_ne_nil _ _
  · rw [appendPage_last, appendPage]
    split <;> simp

theorem sweepBlocks_ne_nil (h : bs ≠ []) : sweepBlocks bs ≠ [] := by
  fun_induction sweepBlocks bs with
  | case1 => exact cons_ne_nil _ _
  | case2 => exact cons_ne_nil _ _
  | case3 => exact h

theorem HeapCall.Turns.ne_nil {bs' : List Header} (h : call.Turns bs bs') (hbs : bs ≠ []) :
    bs' ≠ [] := by
  cases h with
  | grown hcall pages =>
    cases pages with
    | zero => exact hbs
    | succ pages =>
      rw [Function.iterate_succ_apply']
      exact appendPage_ne_nil _
  | took wanted pages hsplit hfits =>
    unfold taken
    split <;> simp
  | freed hsplit hused => exact sweepBlocks_ne_nil (by simp)

theorem HeapSystem.Tracked.steps (hs : s.Tracked bs) (hbs : bs ≠ []) {calls : List HeapCall}
    (hlegal : Each HeapCall.step Legal s calls) :
    ∃ bs', bs' ≠ [] ∧ (run HeapCall.step s calls).Tracked bs' := by
  refine run_keeps (P := fun s => ∃ bs, bs ≠ [] ∧ HeapSystem.Tracked s bs) ?_ ⟨bs, hbs, hs⟩ hlegal
  rintro s call ⟨bs, hbs, hs⟩ hcall
  obtain ⟨s', bs', heq, hs', hturns⟩ := hs.step hcall
  refine ⟨bs', hturns.ne_nil hbs, ?_⟩
  rw [HeapCall.step, heq]
  exact hs'

/-- A heap that was just initialized. -/
theorem heapInitialize_spec {h₀ : Heap} (hinit : heapInitialize h₀ = some (true, h)) :
    h.firstBlock = heapBase ∧ (HeapSystem.mk h []).Tracked [pageBlock] := by
  have hempty : IsHeap { h₀ with firstBlock := 0, committedEnd := heapBase } [] :=
    ⟨⟨rfl, rfl⟩, fun b hb => (by cases hb), 0, Nat.zero_le _, by simp⟩
  obtain ⟨r, h', heq, ⟨rfl, -⟩ | ⟨rfl, hh, -, -⟩⟩ := commitPage_spec hempty
  · rw [heapInitialize, heq] at hinit
    cases hinit
  · rw [heapInitialize, heq] at hinit
    cases hinit
    exact ⟨hh.list.1, hh, fun a ha => (by cases ha), nodup_nil⟩

/-! ## Tiling -/

/-- The bytes behind a pointer that its block's header gives it. -/
def payloadSize (h : Heap) (pointer : Nat) : Nat := blockSize h.cells (pointer - sizeofHeapBlock)

/-- Where the header of a block at an offset stands in memory. -/
theorem IsHeap.blockSize_at (hh : IsHeap h bs) (hat : At Header.width bs off b) :
    blockSize h.cells (heapBase + off) = b.size := by
  obtain ⟨before, after, rfl, rfl⟩ := hat
  obtain ⟨-, hitem, -⟩ := segment_middle.mp hh.list
  rw [← hitem]
  rfl

theorem IsHeap.at_aligned (hh : IsHeap h bs) (hat : At Header.width bs off b) :
    (heapBase + off + sizeofHeapBlock) % heapAlignment = 0 := by
  obtain ⟨before, after, rfl, rfl⟩ := hat
  have := span_aligned fun c hc => hh.ok c (mem_append_left _ hc)
  unfold heapBase heapAlignment sizeofHeapBlock at *
  omega

/-- No two consecutive blocks are both free. -/
def Coalesced (bs : List Header) : Prop := bs.IsChain fun b c => b.free = 0 ∨ c.free = 0

theorem coalesced_appendPage (h : Coalesced bs) : Coalesced (appendPage bs) := by
  rcases eq_nil_or_concat' bs with rfl | ⟨front, last, rfl⟩
  · exact List.IsChain.singleton _
  rw [appendPage_last]
  obtain ⟨hfront, -, hlink⟩ := isChain_append.mp h
  unfold appendPage
  split
  · exact isChain_append.mpr ⟨hfront, List.IsChain.singleton _, by simpa using hlink⟩
  next hused =>
    refine isChain_append.mpr ⟨hfront, ?_, by simpa using hlink⟩
    exact isChain_cons_cons.mpr ⟨.inl (by simpa using hused), List.IsChain.singleton _⟩

theorem coalesced_appendPages (h : Coalesced bs) (pages : Nat) :
    Coalesced (appendPage^[pages] bs) :=
  Function.Iterate.rec Coalesced h (fun _ => coalesced_appendPage) pages

/-- Taking from a free block: what is split off was free together with it. -/
theorem coalesced_taken {wanted : Nat} (h : Coalesced (before ++ b :: after)) (hfree : b.free ≠ 0) :
    Coalesced (before ++ (taken b wanted ++ after)) := by
  obtain ⟨hbefore, hrest, -⟩ := isChain_append.mp h
  obtain ⟨hnext, hafter⟩ := isChain_cons.mp hrest
  have hused : ∀ c ∈ after.head?, c.free = 0 := fun c hc => (hnext c hc).resolve_left hfree
  unfold taken
  refine isChain_append.mpr ⟨hbefore, ?_, fun x _ y hy => .inr ?_⟩
  · split
    · refine isChain_cons_cons.mpr ⟨.inl rfl, isChain_cons.mpr ⟨fun c hc => ?_, hafter⟩⟩
      exact .inr (hused c hc)
    · exact isChain_cons.mpr ⟨fun c _ => .inl rfl, hafter⟩
  · split at hy <;>
      · cases hy
        rfl

/-- The pass goes unchanged through a stretch where nothing is to be merged. -/
theorem sweepBlocks_through {front rest : List Header} (h : Coalesced (front ++ [b])) :
    sweepBlocks (front ++ b :: rest) = front ++ sweepBlocks (b :: rest) := by
  induction front with
  | nil => rfl
  | cons c front ih =>
    cases front with
    | nil =>
      have := (isChain_cons_cons.mp h).1
      rw [cons_append, nil_append, sweepBlocks, if_neg (by omega)]
      rfl
    | cons d front =>
      have hcd := (isChain_cons_cons.mp h).1
      have := ih (isChain_cons_cons.mp h).2
      rw [cons_append, cons_append, sweepBlocks, if_neg (by omega),
        ← cons_append, this]
      rfl

theorem sweepBlocks_coalesced (h : Coalesced bs) : sweepBlocks bs = bs := by
  rcases eq_nil_or_concat' bs with rfl | ⟨front, last, rfl⟩
  · rfl
  · exact sweepBlocks_through h

/-- A pass over a coalesced list with one more block in front leaves it coalesced. -/
theorem coalesced_sweep_cons {c : Header} (h : Coalesced after) :
    Coalesced (sweepBlocks (c :: after)) := by
  cases after with
  | nil => exact List.IsChain.singleton _
  | cons n rest =>
    obtain ⟨hnext, hrest⟩ := isChain_cons.mp h
    rw [sweepBlocks]
    split
    next hboth =>
      rw [sweepBlocks_coalesced hrest]
      exact isChain_cons.mpr ⟨fun d hd => .inr ((hnext d hd).resolve_left hboth.2), hrest⟩
    next hboth =>
      rw [sweepBlocks_coalesced h]
      exact isChain_cons_cons.mpr ⟨by omega, h⟩

/-- After a block of a coalesced list was freed and the pass made, the list is coalesced exactly when
the block was not free on both sides. -/
theorem coalesced_freed (h : Coalesced (before ++ b :: after)) :
    Coalesced (sweepBlocks (before ++ { b with free := 1 } :: after)) ↔
      ¬ ((∃ p ∈ before.getLast?, p.free ≠ 0) ∧ ∃ n ∈ after.head?, n.free ≠ 0) := by
  obtain ⟨hbefore, hrest, -⟩ := isChain_append.mp h
  have hafter : Coalesced after := (isChain_cons.mp hrest).2
  by_cases hp : ∃ p ∈ before.getLast?, p.free ≠ 0
  · -- merged into its predecessor, and the pass does not look at the merged block again
    obtain ⟨p, hlast, hpfree⟩ := hp
    obtain ⟨front, rfl⟩ : ∃ front, before = front ++ [p] := by
      obtain ⟨hne, rfl⟩ := mem_getLast?_eq_getLast hlast
      exact ⟨before.dropLast, (dropLast_append_getLast hne).symm⟩
    have hmerged : sweepBlocks (front ++ [p] ++ { b with free := 1 } :: after) =
        front ++ { p with size := p.size + (sizeofHeapBlock + b.size) } :: after := by
      rw [append_assoc, singleton_append, sweepBlocks_through hbefore, sweepBlocks,
        if_pos ⟨hpfree, by simp⟩, sweepBlocks_coalesced hafter]
    obtain ⟨hfront, -, hlink⟩ := isChain_append.mp hbefore
    rw [hmerged, and_iff_right ⟨p, hlast, hpfree⟩, Coalesced, isChain_append, isChain_cons]
    push Not
    constructor
    · rintro ⟨-, ⟨hnext, -⟩, -⟩ n hn
      exact (hnext n hn).resolve_left hpfree
    · intro hnext
      refine ⟨hfront, ⟨fun n hn => .inr (hnext n hn), hafter⟩, fun x hx y hy => ?_⟩
      cases hy
      exact hlink x hx p (by simp)
  · refine ⟨fun _ hand => hp hand.1, fun _ => ?_⟩
    push Not at hp
    have hprefix : Coalesced (before ++ [{ b with free := 1 }]) :=
      isChain_append.mpr ⟨hbefore, List.IsChain.singleton _, fun x hx _ _ => .inl (hp x hx)⟩
    rw [sweepBlocks_through hprefix]
    exact isChain_append.mpr ⟨hbefore, coalesced_sweep_cons hafter,
      fun x hx _ _ => .inl (hp x hx)⟩

/-- The heap's block list has no two consecutive free blocks. -/
def HeapSystem.Coalesced (s : HeapSystem) : Prop :=
  ∀ bs, Segment Header.width (headers s.heap.cells) s.heap.firstBlock heapBase bs
    s.heap.committedEnd 0 → Mm.Coalesced bs

/-- The call frees no block that lies between two free ones. -/
def HeapCall.BridgesNothing (s : HeapSystem) : HeapCall → Prop
  | .free pointer => ∀ before p b n after,
    Segment Header.width (headers s.heap.cells) s.heap.firstBlock heapBase
      (before ++ p :: b :: n :: after) s.heap.committedEnd 0 →
    pointer = heapBase + span Header.width (before ++ [p]) + sizeofHeapBlock →
    ¬ (p.free ≠ 0 ∧ n.free ≠ 0)
  | _ => True

theorem HeapSystem.Tracked.coalesced_iff (hs : s.Tracked bs) : s.Coalesced ↔ Mm.Coalesced bs := by
  constructor
  · exact fun h => h bs hs.heap.list
  · intro h bs' hbs'
    rwa [hbs'.unique Header.width_pos hs.heap.list]

/-- One call keeps the list coalesced exactly when it frees no block between two free ones. -/
theorem HeapSystem.Tracked.step_coalesced_iff (hs : s.Tracked bs) (hcoalesced : s.Coalesced)
    (hlegal : call.Legal s) : (call.step s).Coalesced ↔ call.BridgesNothing s := by
  obtain ⟨s', bs', heq, hs', hturns⟩ := hs.step hlegal
  rw [HeapCall.step, heq, Option.getD_some, hs'.coalesced_iff]
  rw [hs.coalesced_iff] at hcoalesced
  cases hturns with
  | grown hcall pages =>
    refine ⟨fun _ => ?_, fun _ => coalesced_appendPages hcoalesced pages⟩
    cases call with
    | malloc size => trivial
    | others physical => trivial
    | free pointer =>
      intro before p b n after _ hpointer
      have := hcall pointer rfl
      unfold sizeofHeapBlock at hpointer
      omega
  | took wanted pages hsplit hfits =>
    refine ⟨fun _ => trivial, fun _ => coalesced_taken (hsplit ▸ ?_) hfits.1⟩
    exact coalesced_appendPages hcoalesced pages
  | @freed before after b hsplit hused =>
    subst hsplit
    rw [coalesced_freed hcoalesced]
    constructor
    · rintro hnot front p b' n rest hlist hpointer ⟨hp, hn⟩
      have hlists := hlist.unique Header.width_pos hs.heap.list
      rw [show front ++ p :: b' :: n :: rest = (front ++ [p]) ++ b' :: (n :: rest) by simp] at hlists
      obtain ⟨rfl, rfl, rfl⟩ := span_cut_unique Header.width_pos hlists rfl (by omega)
      exact hnot ⟨⟨p, by simp, hp⟩, n, by simp, hn⟩
    · rintro hbridge ⟨⟨p, hlast, hp⟩, n, hhead, hn⟩
      obtain ⟨hne, rfl⟩ := mem_getLast?_eq_getLast hlast
      obtain ⟨rest, rfl⟩ : ∃ rest, after = n :: rest := by
        cases after with
        | nil => cases hhead
        | cons m rest => cases hhead; exact ⟨rest, rfl⟩
      have hfront := dropLast_append_getLast hne
      refine hbridge before.dropLast (before.getLast hne) b n rest ?_ ?_ ⟨hp, hn⟩
      · rw [← singleton_append, ← append_assoc, hfront]
        exact hs.heap.list
      · rw [hfront]

/-- A machine before `heap_initialize`, every frame free. -/
def coldHeap : Heap where
  cells := fun _ => 0
  firstBlock := 0
  committedEnd := 0
  physical :=
    { frameBitmap := fun _ => 0
      allocatedBitmap := fun _ => 0
      stats := ⟨maxFrames, maxFrames, 0⟩
      memory := fun _ _ => 0 }
  kernel :=
    { layout := ⟨0x200000, 0x201000, fun i => BitVec.ofNat 64 (0x202000 + 0x1000 * i),
        fun i => BitVec.ofNat 64 (0x206000 + 0x1000 * i)⟩
      pml4 := fun _ => 0
      pdpt := fun _ => 0
      pageDirectories := fun _ _ => 0
      heapPageTables := fun _ _ => 0
      heapPageTableActive := false
      root := 0x200000 }

def bootHeap : Heap := ((heapInitialize coldHeap).map Prod.snd).getD coldHeap

theorem heapInitialize_coldHeap : heapInitialize coldHeap = some (true, bootHeap) := by
  have h : (heapInitialize coldHeap).map Prod.fst = some true := by decide +kernel
  obtain ⟨⟨r, heap⟩, heq, rfl⟩ := Option.map_eq_some_iff.mp h
  rw [bootHeap, heq]
  rfl

/-- Three blocks; the first and the last are freed, then the one between them. -/
def bridgingCalls : List HeapCall :=
  [.malloc 16, .malloc 16, .malloc 16, .free (heapBase + 32), .free (heapBase + 128),
    .free (heapBase + 80)]

end KernelBoot.Mm
