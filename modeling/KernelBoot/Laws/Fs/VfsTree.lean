import KernelBoot.Laws.Fs.VfsRep

/-!
# The VFS tree

Every call keeps the heap a forest of directories whose children are linked, counted and named
apart, keeps the reference counts exact, and frees a node in the call in which nobody needs it any
more (`vfs_isTree`).
-/

namespace KernelBoot.Fs

open Lib List

variable {name : List UInt8} {s' : VfsHeap} {child parent : Nat}
variable {newParent oldParent : Nat} {s : VfsSystem}

/-- The heap has a description, with no node left to be freed. -/
def VfsInv (s : VfsSystem) : Prop := ∃ K, VfsRep (fun _ => False) s.heap s.held K

/-- `kmalloc` returns memory that is not in use, and a caller gives back only what it holds. -/
def VfsCall.Legal (s : VfsSystem) : VfsCall → Prop
  | .create _ _ _ _ _ allocated => ∀ a, allocated = some a → s.heap.nodes a = none
  | .release a => s.held a ≠ 0
  | _ => True

theorem VfsInv.initial : VfsInv .initial := by
  refine ⟨fun _ => [], ⟨fun a => ?_, nodup_nil, fun a n hn => ?_, fun a n hn => ?_,
    fun a ha => ?_, fun a ha => absurd rfl ha⟩⟩
  · exact ⟨fun hmem => absurd hmem not_mem_nil, fun hsome => by cases hsome⟩
  · cases hn
  · cases hn
  · cases ha

/-! ## The calls -/

/-- A call is refused and leaves the heap alone, or succeeds and leaves one with `P`. -/
def Edits (s : VfsHeap) (P : VfsHeap → Prop) (result : Bool × VfsHeap) : Prop :=
  result = (false, s) ∨ result.1 = true ∧ P result.2

section

variable {s : VfsHeap} {P Q : VfsHeap → Prop} {result : Bool × VfsHeap}

theorem Edits.refused : Edits s P (false, s) := .inl rfl

theorem Edits.done (h : P s') : Edits s P (true, s') := .inr ⟨rfl, h⟩

theorem Edits.guard {c : Prop} [Decidable c] (h : ¬c → Edits s P result) :
    Edits s P (if c then (false, s) else result) := by
  split
  next => exact .refused
  next hc => exact h hc

theorem Edits.imp (h : Edits s P result) (hPQ : ∀ s, P s → Q s) : Edits s Q result :=
  Or.imp_right (fun hdone => ⟨hdone.1, hPQ _ hdone.2⟩) h

end

section Calls

variable {s : VfsHeap} {held : Nat → Nat} {K : Nat → List Nat}

theorem newName_ne_nil (h : ¬ (!newNameAccepted name) = true) : name ≠ [] := by
  rintro rfl
  exact h (by decide)

section

variable (h : VfsRep (fun _ => False) s held K)

include h

theorem create_rep {type : VfsNodeType}
    {uid gid mode a : Nat} {allocated : Option Nat}
    (hcreate : vfsNodeCreate s name type uid gid mode allocated = (some a, s'))
    (hfresh : ∀ b, allocated = some b → s.nodes b = none) :
    ∃ K', VfsRep (fun _ => False) s' (fun x => if x = a then held a + 1 else held x) K' := by
  revert hcreate
  fun_cases vfsNodeCreate s name type uid gid mode allocated
  · rintro ⟨⟩
  · rintro ⟨⟩
  next haccepted _ _ =>
    rintro ⟨⟩
    have hname : name ≠ [] := by
      rintro rfl
      exact haccepted (.inl (by decide))
    exact ⟨_, h.create (hfresh a rfl) rfl hname rfl rfl rfl rfl rfl⟩

theorem addChild_edits (parent child : Nat) :
    Edits s (fun s' => VfsRep (fun _ => False) s' held
      (fun x => if x = parent then child :: K parent else K x)) (vfsNodeAddChild s parent child) := by
  unfold vfsNodeAddChild
  split
  next p c hp hc =>
    refine .guard fun hkinds => .guard fun hstate => .guard fun hclimb => .guard fun hnames =>
      .done ?_
    obtain ⟨hne, hkinds⟩ := not_or.mp hkinds
    obtain ⟨hdir, _⟩ := not_or.mp hkinds
    obtain ⟨hroot, hstate⟩ := not_or.mp hstate
    obtain ⟨_, hstate⟩ := not_or.mp hstate
    obtain ⟨hrefs, _⟩ := not_or.mp hstate
    have hroot : c.parent = none := Option.not_isSome_iff_eq_none.mp hroot
    have hlive : (s.nodes parent).isSome = true := by
      rw [hp]
      rfl
    obtain ⟨l, hl⟩ := h.ended parent hlive
    rw [h.ancestors_eq hlive hl] at hclimb
    rw [h.children_eq hp, any_eq_true] at hnames
    have hheld : held child ≠ 0 := by
      have hcount := (h.node child c hc).references
      rw [hroot, Option.isSome_none, if_neg Bool.false_ne_true] at hcount
      omega
    have hattached := h.attach hp hc hne (not_not.mp hdir) hroot hl hclimb
      (fun x hx hname => hnames ⟨x, hx, decide_eq_true hname⟩) hheld
    have hnode := attach_nodes hp hc hne child
    rw [if_neg (Ne.symm hne), if_pos rfl] at hnode
    refine hattached.recount hnode (fun r => r + 1) (fun x hx => (if_neg hx).symm) ?_
      (fun _ => .inl (Nat.succ_ne_zero _))
    have hcount := (hattached.node child _ hnode).references
    simp only [Option.isSome_some, ↓reduceIte] at hcount ⊢
    omega
  next => exact .refused

theorem remove_edits (parent child : Nat) :
    Edits s (fun s' => VfsRep (fun _ => False) s' held
      (fun x => if x = parent then (K parent).erase child else K x))
      (vfsNodeRemove s parent child) := by
  unfold vfsNodeRemove
  split
  next p c hp hc =>
    refine .guard fun _ => .guard fun hstate => .guard fun _ => .done ?_
    obtain ⟨_, hstate⟩ := not_or.mp hstate
    obtain ⟨hparent, _⟩ := not_or.mp hstate
    rw [h.children_eq hp]
    have hdetached := h.detach hp hc ((parent_of_node hc).trans (not_not.mp hparent))
    have hreleased := hdetached.release (a := child) (by
      rw [if_pos rfl]
      exact Nat.succ_ne_zero _)
    refine hreleased.tryDestroy.congr fun x => ?_
    split
    next hx => rw [hx, if_pos rfl, Nat.add_sub_cancel]
    next => rfl
  next => exact .refused

theorem rename_edits (parent child : Nat) (name : List UInt8) :
    Edits s (fun s' => VfsRep (fun _ => False) s' held K) (vfsNodeRename s parent child name) := by
  unfold vfsNodeRename
  split
  next p c hp hc =>
    refine .guard fun _ => .guard fun haccepted => .guard fun hstate => .guard fun hnames => .done ?_
    have hparent : c.parent = some parent := not_not.mp (not_or.mp hstate).1
    rw [h.children_eq hp, any_eq_true] at hnames
    refine h.setName hc (newName_ne_nil haccepted) fun q hq x hx hxc hname => ?_
    cases hparent.symm.trans hq
    exact hnames ⟨x, hx, decide_eq_true ⟨hxc, hname⟩⟩
  next => exact .refused

/-- Moving a file is detaching it, renaming it while it is a root, and attaching it elsewhere. -/
theorem moved_rep {old new c : VfsNode} (hold : s.nodes oldParent = some old)
    (hnew : s.nodes newParent = some new) (hc : s.nodes child = some c)
    (hparents : oldParent ≠ newParent) (hnewChild : newParent ≠ child)
    (hnewDir : new.type = .directory) (hregular : c.type = .regular)
    (hparent : s.parent child = some oldParent) (hname : name ≠ [])
    (hfree : ∀ x ∈ K newParent, s.name x ≠ some name) : ∃ K', VfsRep (fun _ => False)
      (tryDestroy (tryDestroy (((s.detach oldParent child (predecessor (K oldParent) child)).update
        child fun n => { n with name := name }).attach newParent child) oldParent) newParent)
      held K' := by
  have hd := h.detached hold hc hparent
  have hrep := h.detach hold hc hparent
  generalize s.detach oldParent child (predecessor (K oldParent) child) = d at hd hrep ⊢
  have hrenamed := hrep.setName hd.childNode hname fun p hp => by cases hp
  have hchildNode : (d.update child fun n => { n with name := name }).nodes child =
      some { c with nextSibling := none, parent := none, name := name } := update_self hd.childNode
  obtain ⟨newD, hnewD, hnewType⟩ : ∃ m, d.nodes newParent = some m ∧ m.type = .directory := by
    obtain ⟨link, hlink⟩ := hd.others newParent (Ne.symm hparents) hnewChild
    rw [hnew] at hlink
    exact ⟨_, hlink, hnewDir⟩
  have hnewNode : (d.update child fun n => { n with name := name }).nodes newParent = some newD :=
    (update_ne hnewChild).trans hnewD
  -- a file has no children, so the new directory cannot lie below it
  have hleaf : ∀ x, (d.update child fun n => { n with name := name }).parent x ≠ some child := by
    intro x hx
    have hmem := (hrenamed.mem_children hchildNode).mpr hx
    have hnone := (hrenamed.node child _ hchildNode).leaf (by
      rw [hregular]
      decide)
    rw [hnone] at hmem
    cases hmem
  obtain ⟨l, hl⟩ := hrenamed.ended newParent (by
    rw [hnewNode]
    rfl)
  have hout := not_mem_climb hleaf hl fun heq => hnewChild (Option.some.inj heq)
  have hnames : ∀ x ∈ (if newParent = oldParent then (K oldParent).erase child else K newParent),
      (d.update child fun n => { n with name := name }).name x ≠ some name := by
    rw [if_neg (Ne.symm hparents)]
    intro x hx
    have hxc : x ≠ child := by
      rintro rfl
      have hsame := (h.mem_children hnew).mp hx
      exact hparents (Option.some.inj (hparent.symm.trans hsame))
    rw [VfsHeap.name, update_ne hxc, ← VfsHeap.name, hd.name hold hc]
    exact hfree x hx
  have hattached := hrenamed.attach hnewNode hchildNode hnewChild hnewType rfl hl hout hnames (by
    rw [if_pos rfl]
    exact Nat.succ_ne_zero _)
  refine ⟨_, VfsRep.tryDestroy ((hattached.tryDestroy.mono fun _ => .inl).congr fun x => ?_)⟩
  split
  next hx => rw [hx, if_pos rfl, Nat.add_sub_cancel]
  next => rfl

theorem move_edits (oldParent newParent child : Nat) (name : List UInt8) :
    Edits s (fun s' => ∃ K', VfsRep (fun _ => False) s' held K')
      (vfsNodeMove s oldParent newParent child name) := by
  unfold vfsNodeMove
  split
  next old new c hold hnew hc =>
    refine .guard fun hkinds => .guard fun haccepted => .guard fun hstate => .guard fun hnames =>
      .guard fun _ => .done ?_
    simp only [not_or, not_not] at hkinds
    obtain ⟨hparents, holdChild, hnewChild, _, hnewDir, hregular⟩ := hkinds
    have hparent : s.parent child = some oldParent :=
      (parent_of_node hc).trans (not_not.mp (not_or.mp hstate).1)
    rw [h.children_eq hnew, any_eq_true] at hnames
    rw [h.children_eq hold]
    refine moved_rep h hold hnew hc hparents hnewChild hnewDir hregular hparent
      (newName_ne_nil haccepted) fun x hx hname => ?_
    by_cases hxc : x = child
    · have hsame := (h.mem_children hnew).mp (hxc ▸ hx)
      exact hparents (Option.some.inj (hparent.symm.trans hsame))
    · exact hnames ⟨x, hx, decide_eq_true ⟨hxc, hname⟩⟩
  next => exact .refused

theorem lookup_rep (hlookup : vfsNodeLookup s parent name = (some child, s')) :
    VfsRep (fun _ => False) s' (fun x => if x = child then held child + 1 else held x) K := by
  revert hlookup
  fun_cases vfsNodeLookup s parent name
  · rintro ⟨⟩
  · rintro ⟨⟩
  · rintro ⟨⟩
  next hretain =>
    rintro ⟨⟩
    exact h.retain hretain
  · rintro ⟨⟩

end

end Calls

/-- An edit of the heap, as a call on the whole system. -/
theorem Edits.call {s : VfsSystem} {result : Bool × VfsHeap}
    (h : Edits s.heap (fun heap => ∃ K, VfsRep (fun _ => False) heap s.held K) result) :
    (result.1, ({ s with heap := result.2 } : VfsSystem)) = (false, s) ∨
      result.1 = true ∧ VfsInv { s with heap := result.2 } := by
  rcases h with rfl | hdone
  · exact .inl rfl
  · exact .inr hdone

/-- A call is refused and changes nothing, or it succeeds and keeps the invariant. -/
theorem VfsCall.cases (h : VfsInv s) {call : VfsCall} (hlegal : call.Legal s) :
    call.effect s = (false, s) ∨ (call.effect s).1 = true ∧ VfsInv (call.effect s).2 := by
  obtain ⟨K, h⟩ := h
  cases call with
  | create name type uid gid mode allocated =>
    rw [VfsCall.effect]
    split
    next => exact .inl rfl
    next a heap hcreate =>
      obtain ⟨K', hrep⟩ := create_rep h hcreate hlegal
      exact .inr ⟨rfl, K', hrep⟩
  | addChild parent child => exact ((addChild_edits h parent child).imp fun _ hrep => ⟨_, hrep⟩).call
  | remove parent child => exact ((remove_edits h parent child).imp fun _ hrep => ⟨_, hrep⟩).call
  | rename parent child name => exact ((rename_edits h parent child name).imp fun _ hrep => ⟨_, hrep⟩).call
  | move oldParent newParent child name => exact (move_edits h oldParent newParent child name).call
  | lookup parent name =>
    rw [VfsCall.effect]
    split
    next => exact .inl rfl
    next child heap hlookup => exact .inr ⟨rfl, K, lookup_rep h hlookup⟩
  | retain a =>
    rw [VfsCall.effect]
    split
    next => exact .inl rfl
    next heap hretain => exact .inr ⟨rfl, K, h.retain hretain⟩
  | release a => exact .inr ⟨rfl, K, h.release hlegal⟩

theorem VfsCall.inv {call : VfsCall} (h : VfsInv s) (hlegal : call.Legal s) :
    VfsInv (call.step s) := by
  rw [VfsCall.step]
  rcases VfsCall.cases h hlegal with hsame | ⟨_, hinv⟩
  · rw [hsame]
    exact h
  · exact hinv

/-! ## Runs -/

/-- The tree is in order. -/
structure IsVfsTree (s : VfsSystem) : Prop where
  /-- No node is its own ancestor. -/
  forest : ∀ a, ¬ Relation.TransGen (fun x y => s.heap.parent x = some y) a a
  /-- The sibling list of a node ends, holds exactly the nodes whose parent it is, is as long as
  `child_count` says, and its names are different and not empty. -/
  siblings : ∀ a n, s.heap.nodes a = some n → ∃ l, Linked s.heap.nextSibling n.firstChild l none ∧
    (∀ c, c ∈ l ↔ s.heap.parent c = some a) ∧ n.childCount = l.length ∧
    (l.map s.heap.name).Nodup ∧ ∀ c ∈ l, s.heap.name c ≠ some []
  attached : ∀ a n, s.heap.nodes a = some n → n.parent.isSome = true → 1 ≤ n.references
  /-- A reference is one of the callers' or the one of the node's directory. -/
  references : ∀ a n, s.heap.nodes a = some n →
    n.references = s.held a + if n.parent.isSome then 1 else 0
  /-- A node exists exactly as long as it has a reference or a child. -/
  destroyed : ∀ a, (s.heap.nodes a).isSome = true ↔
    s.held a ≠ 0 ∨ (s.heap.parent a).isSome = true ∨ ∃ c, s.heap.parent c = some a
  counts : ∀ a n, s.heap.nodes a = some n → n.references ≠ 0 ∨ n.childCount ≠ 0

theorem VfsInv.isVfsTree (h : VfsInv s) : IsVfsTree s := by
  obtain ⟨K, h⟩ := h
  have hnamed : ∀ c, s.heap.name c ≠ some [] := by
    intro c hc
    rw [VfsHeap.name, Option.map_eq_some_iff] at hc
    obtain ⟨n, hn, hname⟩ := hc
    exact (h.node c n hn).named hname
  refine ⟨fun a hcycle => ?_, fun a n hn => ?_, fun a n hn hparent => ?_,
    fun a n hn => (h.node a n hn).references, fun a => ⟨fun ha => ?_, fun hneed => ?_⟩,
    fun a n hn => h.needed a n hn not_false⟩
  · -- the first step of a cycle shows that the node exists
    have hlive : (s.heap.nodes a).isSome = true := by
      obtain ⟨b, hb, _⟩ := Relation.TransGen.head'_iff.mp hcycle
      exact isSome_of_parent hb
    obtain ⟨l, hl⟩ := h.ended a hlive
    exact hl.no_return hcycle
  · have hok := h.node a n hn
    exact ⟨K a, hok.linked, hok.children, hok.count, hok.distinct, fun c _ => hnamed c⟩
  · rw [(h.node a n hn).references, if_pos hparent]
    exact Nat.le_add_left 1 _
  · obtain ⟨n, hn⟩ := Option.isSome_iff_exists.mp ha
    have hok := h.node a n hn
    rw [parent_of_node hn]
    rcases h.needed a n hn not_false with hrefs | hchildren
    · rw [hok.references] at hrefs
      split at hrefs
      next hparent => exact .inr (.inl hparent)
      next => exact .inl hrefs
    · rw [hok.count] at hchildren
      obtain ⟨c, hc⟩ := exists_mem_of_length_pos (Nat.pos_of_ne_zero hchildren)
      exact .inr (.inr ⟨c, (hok.children c).mp hc⟩)
  · rcases hneed with hheld | hparent | ⟨c, hc⟩
    · exact h.held a hheld
    · obtain ⟨p, hp⟩ := Option.isSome_iff_exists.mp hparent
      exact isSome_of_parent hp
    · exact h.parent_live hc

/-- In every state of every run in which callers give back only what they hold, the tree is in
order, and a call that returns 0 there changes nothing. -/
theorem vfs_isTree (calls : List VfsCall) (hlegal : Each VfsCall.step VfsCall.Legal .initial calls) :
    Always VfsCall.step
      (fun s => IsVfsTree s ∧ ∀ call : VfsCall, call.Legal s → (call.effect s).1 = false →
        (call.effect s).2 = s) .initial calls := by
  refine always_of_keeps (I := VfsInv) (fun s h => ⟨h.isVfsTree, fun call hcall hno => ?_⟩)
    (fun s call h hcall => VfsCall.inv h hcall) VfsInv.initial hlegal
  rcases VfsCall.cases h hcall with hsame | ⟨hyes, _⟩
  · rw [hsame]
  · rw [hyes] at hno
    cases hno

/-- A directory and a file in it; the directory is released, and the file then removed. -/
theorem vfs_isTree_removeLast :
    Always VfsCall.step
      (fun s => IsVfsTree s ∧ ∀ call : VfsCall, call.Legal s → (call.effect s).1 = false →
        (call.effect s).2 = s) .initial
      [.create [100] .directory 0 0 493 (some 1), .create [102] .regular 0 0 420 (some 2),
        .addChild 1 2, .release 1, .release 2, .remove 1 2] := by
  refine vfs_isTree _ ⟨fun a _ => rfl, fun a ha => ?_, trivial, ?_, ?_, trivial, trivial⟩
  · cases ha
    rfl
  · exact (by decide : (1 : Nat) ≠ 0)
  · exact (by decide : (1 : Nat) ≠ 0)

end KernelBoot.Fs
