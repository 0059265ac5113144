import KernelBoot.Fs.VfsSystem

/-!
# VFS heaps and their edits

`VfsRep` describes a heap by the list of children of every node: the sibling links from `first_child`
visit exactly that list, the list holds exactly the nodes whose parent is this one, and so on. The
calls are made of a few edits (change a reference count, attach, detach, rename, free, create), and
each edit is followed by a description of the new heap. Between the edits of one call a node may be
left that nobody needs any more; those nodes are named by `spare` until `try_destroy` has looked at
them.
-/

namespace KernelBoot.Fs

open Lib List VfsHeap Option

variable {n : VfsNode} {x : Nat} {held' : Nat → Nat} {K' : Nat → List Nat} {q : Option Nat}
  {l m : List Nat}
variable {spare spare' : Nat → Prop} {s s' : VfsHeap} {K : Nat → List Nat} {a c : Nat}

/-! ## Reading an updated heap -/

section Update

variable {s : VfsHeap} {a : Nat} {f : VfsNode → VfsNode}

theorem update_nodes (x : Nat) :
    (s.update a f).nodes x = if x = a then (s.nodes a).map f else s.nodes x := rfl

theorem update_self (h : s.nodes a = some n) : (s.update a f).nodes a = some (f n) := by
  rw [update_nodes, if_pos rfl, h, map_some]

theorem update_ne (h : x ≠ a) : (s.update a f).nodes x = s.nodes x := if_neg h

theorem update_cases {m : VfsNode} (hn : s.nodes a = some n) (hm : (s.update a f).nodes x = some m) :
    x = a ∧ m = f n ∨ x ≠ a ∧ s.nodes x = some m := by
  by_cases hxa : x = a
  · rw [hxa, update_self hn] at hm
    exact .inl ⟨hxa, (some.inj hm).symm⟩
  · rw [update_ne hxa] at hm
    exact .inr ⟨hxa, hm⟩

theorem update_isSome (x : Nat) : ((s.update a f).nodes x).isSome = (s.nodes x).isSome := by
  rw [update_nodes]
  split
  next hx => rw [hx, isSome_map]
  next => rfl

/-- A field that the update does not touch reads the same everywhere. -/
theorem update_bind {β : Type} (field : VfsNode → Option β)
    (hf : ∀ n, field (f n) = field n) (x : Nat) :
    ((s.update a f).nodes x).bind field = (s.nodes x).bind field := by
  rw [update_nodes]
  split
  next hx =>
    rw [hx]
    cases s.nodes a with
    | none => rfl
    | some n => exact hf n
  next => rfl

theorem update_parent (hf : ∀ n, (f n).parent = n.parent) : (s.update a f).parent = s.parent :=
  funext (update_bind VfsNode.parent hf)

theorem update_nextSibling (hf : ∀ n, (f n).nextSibling = n.nextSibling) :
    (s.update a f).nextSibling = s.nextSibling :=
  funext (update_bind VfsNode.nextSibling hf)

theorem update_name (hf : ∀ n, (f n).name = n.name) : (s.update a f).name = s.name := by
  funext x
  rw [name, name, update_nodes]
  split
  next hx =>
    rw [hx, Option.map_map]
    exact Option.map_congr fun n _ => hf n
  next => rfl

end Update

/-! ## The description of a heap -/

/-- The node at `a`, whose children are `K a`. -/
structure NodeOk (s : VfsHeap) (held : Nat → Nat) (K : Nat → List Nat) (a : Nat) (n : VfsNode) :
    Prop where
  kept : n.destroying = false
  named : n.name ≠ []
  linked : Linked s.nextSibling n.firstChild (K a) none
  count : n.childCount = (K a).length
  children : ∀ c, c ∈ K a ↔ s.parent c = some a
  distinct : ((K a).map s.name).Nodup
  leaf : n.type ≠ .directory → K a = []
  under : ∀ p, n.parent = some p → (s.nodes p).isSome = true
  /-- The references of the callers, and the one of the directory the node is in. -/
  references : n.references = held a + if n.parent.isSome then 1 else 0

structure VfsRep (spare : Nat → Prop) (s : VfsHeap) (held : Nat → Nat) (K : Nat → List Nat) :
    Prop where
  live : ∀ a, a ∈ s.live ↔ (s.nodes a).isSome = true
  liveOnce : s.live.Nodup
  node : ∀ a n, s.nodes a = some n → NodeOk s held K a n
  needed : ∀ a n, s.nodes a = some n → ¬ spare a → n.references ≠ 0 ∨ n.childCount ≠ 0
  /-- The climb from a node ends at the root of its tree. -/
  ended : ∀ a, (s.nodes a).isSome = true → ∃ l, Linked s.parent (some a) l none
  held : ∀ a, held a ≠ 0 → (s.nodes a).isSome = true

theorem VfsRep.mono {held : Nat → Nat} (h : VfsRep spare s held K)
    (hspare : ∀ x, spare x → spare' x) : VfsRep spare' s held K :=
  { h with needed := fun a n hn hno => h.needed a n hn fun hs => hno (hspare a hs) }

theorem VfsRep.congr {held : Nat → Nat} (h : VfsRep spare s held K) (heq : ∀ x, held' x = held x) :
    VfsRep spare s held' K := by
  rw [funext heq]
  exact h

/-- A node with the children it had, linked elsewhere or counted anew. -/
theorem NodeOk.relinked {held : Nat → Nat} {x : Option Nat} {r : Nat} (h : NodeOk s held K a n)
    (hK : K' a = K a) (hnext : ∀ c ∈ K a, s'.nextSibling c = s.nextSibling c)
    (hparent : ∀ c, s'.parent c = some a ↔ s.parent c = some a)
    (hname : ∀ c ∈ K a, s'.name c = s.name c)
    (hunder : ∀ p, q = some p → (s'.nodes p).isSome = true)
    (hrefs : r = held' a + if q.isSome then 1 else 0) :
    NodeOk s' held' K' a { n with parent := q, nextSibling := x, references := r } where
  kept := h.kept
  named := h.named
  linked := by
    rw [hK]
    exact h.linked.congr hnext
  count := by
    rw [hK]
    exact h.count
  children := fun c => by
    rw [hK, hparent]
    exact h.children c
  distinct := by
    rw [hK, map_congr_left hname]
    exact h.distinct
  leaf := by
    rw [hK]
    exact h.leaf
  under := hunder
  references := hrefs

/-- A node whose surroundings have not changed. -/
theorem NodeOk.frame {held : Nat → Nat} (h : NodeOk s held K a n) (hK : K' a = K a)
    (hnext : ∀ c ∈ K a, s'.nextSibling c = s.nextSibling c)
    (hparent : ∀ c, s'.parent c = some a ↔ s.parent c = some a)
    (hname : ∀ c ∈ K a, s'.name c = s.name c)
    (hlive : ∀ p, n.parent = some p → (s'.nodes p).isSome = true) (hheld : held' a = held a) :
    NodeOk s' held' K' a n := by
  refine h.relinked (q := n.parent) (x := n.nextSibling) (r := n.references) hK hnext hparent hname
    hlive ?_
  rw [hheld]
  exact h.references

section Rep

variable {spare : Nat → Prop} {s : VfsHeap} {held : Nat → Nat} {K : Nat → List Nat}

theorem parent_of_node (hn : s.nodes a = some n) : s.parent a = n.parent := by
  rw [parent, hn, bind_some]

theorem isSome_of_parent {p : Nat} (h : s.parent a = some p) : (s.nodes a).isSome = true := by
  cases hn : s.nodes a with
  | none =>
    rw [parent, hn] at h
    cases h
  | some n => rfl

section

variable (h : VfsRep spare s held K)

include h

theorem VfsRep.parent_live {p : Nat} (hp : s.parent a = some p) : (s.nodes p).isSome = true := by
  obtain ⟨n, hn⟩ := isSome_iff_exists.mp (isSome_of_parent hp)
  exact (h.node a n hn).under p (parent_of_node hn ▸ hp)

theorem VfsRep.mem_children (hn : s.nodes a = some n) : c ∈ K a ↔ s.parent c = some a :=
  (h.node a n hn).children c

/-- A list of different live addresses is no longer than the fuel of the walks. -/
theorem VfsRep.fuel (hnodup : l.Nodup)
    (hlive : ∀ c ∈ l, (s.nodes c).isSome = true) : l.length ≤ s.live.length :=
  (subperm_of_subset hnodup fun c hc => (h.live c).mpr (hlive c hc)).length_le

theorem VfsRep.children_eq (hn : s.nodes a = some n) : s.children n = K a := by
  have hok := h.node a n hn
  refine hok.linked.follow (h.fuel hok.linked.nodup fun c hc => ?_)
  exact isSome_of_parent ((hok.children c).mp hc)

theorem VfsRep.climb_live {p : Option Nat} (hl : Linked s.parent p l q)
    (hp : ∀ a, p = some a → (s.nodes a).isSome = true) : ∀ c ∈ l, (s.nodes c).isSome = true := by
  induction l generalizing p with
  | nil => exact forall_mem_nil _
  | cons a l ih =>
    intro c hc
    rcases mem_cons.mp hc with rfl | hrest
    · exact hp c hl.1
    · exact ih hl.2 (fun b hb => h.parent_live hb) c hrest

theorem VfsRep.ancestors_eq (ha : (s.nodes a).isSome = true) (hl : Linked s.parent (some a) l none) :
    s.ancestors a = l := by
  refine hl.follow (h.fuel hl.nodup (h.climb_live hl fun b hb => ?_))
  cases hb
  exact ha

theorem VfsRep.parent_ne : s.parent a ≠ some a := by
  intro hself
  obtain ⟨l, hl⟩ := h.ended a (isSome_of_parent hself)
  exact hl.no_return (Relation.TransGen.single hself)

end

/-- A node that is nobody's parent is on no climb but its own. -/
theorem not_mem_climb (hleaf : ∀ x, s.parent x ≠ some c) {p : Option Nat}
    (hl : Linked s.parent p l q) (hp : p ≠ some c) : c ∉ l := by
  induction l generalizing p with
  | nil => exact not_mem_nil
  | cons a l ih =>
    intro hmem
    rcases mem_cons.mp hmem with rfl | hrest
    · exact hp hl.1
    · exact ih hl.2 (hleaf a) hrest

/-- An edit that neither allocates nor frees is described node by node. -/
theorem VfsRep.of_edit (h : VfsRep spare s held K) (hlive : s'.live = s.live)
    (hsome : ∀ x, (s'.nodes x).isSome = (s.nodes x).isSome)
    (hnode : ∀ x m, s'.nodes x = some m → NodeOk s' held' K' x m ∧
      (¬ spare' x → m.references ≠ 0 ∨ m.childCount ≠ 0))
    (hended : ∀ x, (s.nodes x).isSome = true → ∃ l, Linked s'.parent (some x) l none)
    (hheld : ∀ x, held' x ≠ 0 → (s.nodes x).isSome = true) : VfsRep spare' s' held' K' where
  live := fun x => by
    rw [hlive, hsome]
    exact h.live x
  liveOnce := hlive ▸ h.liveOnce
  node := fun x m hm => (hnode x m hm).1
  needed := fun x m hm => (hnode x m hm).2
  ended := fun x hx => hended x (hsome x ▸ hx)
  held := fun x hx => by
    rw [hsome]
    exact hheld x hx

theorem VfsRep.under_update (h : VfsRep spare s held K) (hn : s.nodes x = some n)
    {f : VfsNode → VfsNode} (p : Nat) (hp : n.parent = some p) : ((s.update a f).nodes p).isSome = true := by
  rw [update_isSome]
  exact (h.node x n hn).under p hp

/-! ## Reference counts -/

/-- The count of one node changes along with what its callers hold. -/
theorem VfsRep.recount (h : VfsRep spare s held K) (hn : s.nodes a = some n) (g : Nat → Nat)
    (hothers : ∀ x, x ≠ a → held' x = held x)
    (hcount : g n.references = held' a + if n.parent.isSome then 1 else 0)
    (hneeded : ¬ spare a → g n.references ≠ 0 ∨ n.childCount ≠ 0) :
    VfsRep spare (s.update a fun m => { m with references := g m.references }) held' K := by
  have hparent : (s.update a fun m => { m with references := g m.references }).parent = s.parent :=
    update_parent fun _ => rfl
  have hnext : (s.update a fun m => { m with references := g m.references }).nextSibling =
      s.nextSibling := update_nextSibling fun _ => rfl
  have hname : (s.update a fun m => { m with references := g m.references }).name = s.name :=
    update_name fun _ => rfl
  refine h.of_edit rfl update_isSome (fun x m hm => ?_) (fun x hx => ?_) (fun x hx => ?_)
  · rcases update_cases hn hm with ⟨rfl, rfl⟩ | ⟨hxa, hm⟩
    · exact ⟨(h.node x n hn).relinked rfl (fun c _ => congrFun hnext c) (fun c => by rw [hparent])
        (fun c _ => congrFun hname c) (h.under_update hn) hcount, hneeded⟩
    · exact ⟨(h.node x m hm).frame rfl (fun c _ => congrFun hnext c) (fun c => by rw [hparent])
        (fun c _ => congrFun hname c) (h.under_update hm) (hothers x hxa), h.needed x m hm⟩
  · rw [hparent]
    exact h.ended x hx
  · by_cases hxa : x = a
    · rw [hxa, hn]
      rfl
    · exact h.held x (hothers x hxa ▸ hx)

/-! ## Freeing a node -/

/-- A node that nobody refers to and that has no children is freed: it was a root, so no link of
another node mentions it. -/
theorem VfsRep.free (h : VfsRep (fun x => spare x ∨ x = a) s held K) (hn : s.nodes a = some n)
    (hrefs : n.references = 0) (hcount : n.childCount = 0) :
    VfsRep spare ⟨fun x => if x = a then none else s.nodes x, s.live.erase a⟩ held K := by
  have hok := h.node a n hn
  have hzero : held a = 0 ∧ n.parent = none := by
    have hrefs := hok.references.symm.trans hrefs
    split at hrefs
    next => omega
    next hnone => exact ⟨by omega, not_isSome_iff_eq_none.mp hnone⟩
  have hnochild : ∀ x, s.parent x ≠ some a := by
    intro x hx
    have hmem := (hok.children x).mpr hx
    rw [length_eq_zero_iff.mp (hok.count.symm.trans hcount)] at hmem
    cases hmem
  have hnosibling : ∀ x m, s.nodes x = some m → ∀ c ∈ K x, c ≠ a := by
    rintro x m hm c hmem rfl
    have hpar := (h.mem_children hm).mp hmem
    rw [parent_of_node hn, hzero.2] at hpar
    cases hpar
  have hne : ∀ x m, (if x = a then none else s.nodes x) = some m → x ≠ a ∧ s.nodes x = some m := by
    intro x m hm
    split at hm
    next => cases hm
    next hxa => exact ⟨hxa, hm⟩
  have hparent : ∀ x, ((if x = a then none else s.nodes x) : Option VfsNode).bind
      VfsNode.parent = s.parent x := by
    intro x
    split
    next hxa => rw [hxa, parent_of_node hn, hzero.2, bind_none]
    next => rfl
  have hstill : ∀ p, (s.nodes p).isSome = true → p ≠ a →
      ((if p = a then none else s.nodes p) : Option VfsNode).isSome = true := by
    intro p hp hpa
    rw [if_neg hpa]
    exact hp
  refine ⟨fun x => ?_, h.liveOnce.erase a, fun x m hm => ?_, fun x m hm hno => ?_,
    fun x hx => ?_, fun x hx => ?_⟩
  · rw [h.liveOnce.mem_erase_iff, h.live x]
    by_cases hxa : x = a
    · simp [hxa]
    · simp [hxa]
  · obtain ⟨hxa, hm⟩ := hne x m hm
    refine (h.node x m hm).frame rfl (fun c hc => ?_) (fun c => ?_) (fun c hc => ?_)
      (fun p hp => ?_) rfl
    · simp only [nextSibling, if_neg (hnosibling x m hm c hc)]
    · rw [parent, hparent]
    · simp only [name, if_neg (hnosibling x m hm c hc)]
    · refine hstill p ((h.node x m hm).under p hp) fun hpa => hnochild x ?_
      rw [parent_of_node hm, hp, hpa]
  · obtain ⟨hxa, hm⟩ := hne x m hm
    exact h.needed x m hm fun hspare => hspare.elim hno hxa
  · obtain ⟨m, hm⟩ := isSome_iff_exists.mp hx
    obtain ⟨_, hm⟩ := hne x m hm
    obtain ⟨l, hl⟩ := h.ended x (isSome_iff_exists.mpr ⟨m, hm⟩)
    exact ⟨l, hl.congr fun c _ => hparent c⟩
  · refine hstill x (h.held x hx) fun hxa => ?_
    rw [hxa, hzero.1] at hx
    exact hx rfl

/-- `try_destroy` settles whether a spare node stays. -/
theorem VfsRep.tryDestroy (h : VfsRep (fun x => spare x ∨ x = a) s held K) :
    VfsRep spare (tryDestroy s a) held K := by
  fun_cases KernelBoot.Fs.tryDestroy s a
  next hn =>
    refine { h with needed := fun x m hm hno => h.needed x m hm fun hspare => ?_ }
    rcases hspare with hspare | rfl
    · exact hno hspare
    · rw [hn] at hm
      cases hm
  next n hn hstays =>
    refine { h with needed := fun x m hm hno => ?_ }
    by_cases hxa : x = a
    · subst hxa
      rw [hn] at hm
      cases hm
      rw [(h.node x n hn).kept] at hstays
      simpa using hstays
    · exact h.needed x m hm fun hspare => hspare.elim hno hxa
  next n hn hgone =>
    obtain ⟨_, hrest⟩ := not_or.mp hgone
    obtain ⟨hrefs, hcount⟩ := not_or.mp hrest
    exact h.free hn (not_not.mp hrefs) (not_not.mp hcount)

/-- A caller gives a reference back. -/
theorem VfsRep.release (h : VfsRep spare s held K) (hheld : held a ≠ 0) :
    VfsRep spare (vfsNodeRelease s a) (fun x => if x = a then held a - 1 else held x) K := by
  obtain ⟨n, hn⟩ := isSome_iff_exists.mp (h.held a hheld)
  have hok := h.node a n hn
  have hrefs := hok.references
  unfold vfsNodeRelease
  rw [hn]
  dsimp only
  rw [if_neg]
  · refine VfsRep.tryDestroy ((h.mono fun x => .inl).recount hn (fun r => r - 1)
      (fun x hx => if_neg hx) ?_ (fun hno => absurd (.inr rfl) hno))
    rw [if_pos rfl]
    omega
  · rw [hok.kept]
    rintro (hno | hzero)
    · cases hno
    · omega

/-- A caller gets a reference. -/
theorem VfsRep.retain (h : VfsRep spare s held K) (hretain : vfsNodeRetain s a = (true, s')) :
    VfsRep spare s' (fun x => if x = a then held a + 1 else held x) K := by
  revert hretain
  fun_cases vfsNodeRetain s a
  · rintro ⟨⟩
  next n hn _ =>
    rintro ⟨⟩
    refine h.recount hn (fun r => r + 1) (fun x hx => if_neg hx) ?_
      (fun _ => .inl (Nat.succ_ne_zero _))
    have hrefs := (h.node a n hn).references
    rw [if_pos rfl]
    omega
  · rintro ⟨⟩

/-! ## Names -/

/-- A node gets a name that none of its siblings has. -/
theorem VfsRep.setName (h : VfsRep spare s held K) {cn : VfsNode} (hc : s.nodes c = some cn)
    {name : List UInt8} (hname : name ≠ [])
    (hfresh : ∀ p, cn.parent = some p → ∀ x ∈ K p, x ≠ c → s.name x ≠ some name) :
    VfsRep spare (s.update c fun n => { n with name := name }) held K := by
  have hparent : (s.update c fun n => { n with name := name }).parent = s.parent :=
    update_parent fun _ => rfl
  have hnext : (s.update c fun n => { n with name := name }).nextSibling = s.nextSibling :=
    update_nextSibling fun _ => rfl
  have hself : (s.update c fun n => { n with name := name }).name c = some name := by
    rw [VfsHeap.name, update_self hc, map_some]
  have hother : ∀ x, x ≠ c → (s.update c fun n => { n with name := name }).name x = s.name x := by
    intro x hx
    rw [VfsHeap.name, update_ne hx]
    rfl
  have hdistinct : ∀ a n, s.nodes a = some n →
      ((K a).map (s.update c fun n => { n with name := name }).name).Nodup := by
    intro a n hn
    have hok := h.node a n hn
    have hnew : c ∈ K a → ∀ y ∈ K a, y ≠ c → some name ≠ s.name y := by
      intro hmem y hy hyc heq
      exact hfresh a (parent_of_node hc ▸ (hok.children c).mp hmem) y hy hyc heq.symm
    refine Nodup.map_on (fun x hx y hy heq => ?_) hok.linked.nodup
    by_cases hxc : x = c
    · by_cases hyc : y = c
      · exact hxc.trans hyc.symm
      · rw [hxc, hself, hother y hyc] at heq
        exact absurd heq (hnew (hxc ▸ hx) y hy hyc)
    · by_cases hyc : y = c
      · rw [hyc, hself, hother x hxc] at heq
        exact absurd heq.symm (hnew (hyc ▸ hy) x hx hxc)
      · rw [hother x hxc, hother y hyc] at heq
        exact inj_on_of_nodup_map hok.distinct hx hy heq
  refine h.of_edit rfl update_isSome (fun x m hm => ?_) (fun x hx => ?_) h.held
  · rcases update_cases hc hm with ⟨rfl, rfl⟩ | ⟨_, hm⟩
    · have hok := h.node x cn hc
      exact ⟨⟨hok.kept, hname, hnext ▸ hok.linked, hok.count, hparent ▸ hok.children,
        hdistinct x cn hc, hok.leaf, h.under_update hc, hok.references⟩, h.needed x cn hc⟩
    · have hok := h.node x m hm
      exact ⟨⟨hok.kept, hok.named, hnext ▸ hok.linked, hok.count, hparent ▸ hok.children,
        hdistinct x m hm, hok.leaf, h.under_update hm, hok.references⟩, h.needed x m hm⟩
  · rw [hparent]
    exact h.ended x hx

/-! ## Attaching -/

section Attach

variable {p c : Nat} {pn cn : VfsNode}

theorem attach_nodes (hp : s.nodes p = some pn) (hc : s.nodes c = some cn) (hne : p ≠ c) (x : Nat) :
    (s.attach p c).nodes x =
      if x = p then some { pn with firstChild := some c, childCount := pn.childCount + 1 }
      else if x = c then some { cn with parent := some p, nextSibling := pn.firstChild }
      else s.nodes x := by
  rw [VfsHeap.attach, update_nodes]
  split
  next => rw [update_ne hne, hp, map_some]
  next =>
    rw [update_nodes]
    split
    next => rw [hc, hp, map_some, bind_some]
    next => rfl

theorem attach_isSome (x : Nat) : ((s.attach p c).nodes x).isSome = (s.nodes x).isSome := by
  rw [VfsHeap.attach, update_isSome, update_isSome]

theorem attach_name : (s.attach p c).name = s.name := by
  have hchild : (s.attach p c).name = _ := update_name fun _ => rfl
  rw [hchild]
  exact update_name fun _ => rfl

theorem attach_parent (hc : s.nodes c = some cn) (x : Nat) :
    (s.attach p c).parent x = if x = c then some p else s.parent x := by
  have hchild : (s.attach p c).parent = _ := update_parent fun _ => rfl
  rw [hchild, parent, update_nodes, hc]
  split <;> rfl

theorem attach_nextSibling (hp : s.nodes p = some pn) (hc : s.nodes c = some cn) (x : Nat) :
    (s.attach p c).nextSibling x = if x = c then pn.firstChild else s.nextSibling x := by
  have hchild : (s.attach p c).nextSibling = _ := update_nextSibling fun _ => rfl
  rw [hchild, nextSibling, update_nodes, hc, hp]
  split <;> rfl

section

variable (h : VfsRep spare s held K) (hp : s.nodes p = some pn) (hc : s.nodes c = some cn)
  (hne : p ≠ c) (hdir : pn.type = .directory)

include h hp hc hne hdir

/-- The directory with one more child. -/
theorem VfsRep.attach_directory (hout : c ∉ K p)
    (hname : ∀ x ∈ K p, s.name x ≠ some cn.name) :
    NodeOk (s.attach p c) (fun x => if x = c then held c - 1 else held x)
      (fun x => if x = p then c :: K p else K x) p
      { pn with firstChild := some c, childCount := pn.childCount + 1 } := by
  have hok := h.node p pn hp
  refine ⟨hok.kept, hok.named, ?_, ?_, fun y => ?_, ?_, fun hno => absurd hdir hno,
    fun q hq => ?_, ?_⟩
  · rw [if_pos rfl]
    refine ⟨rfl, ?_⟩
    rw [attach_nextSibling hp hc, if_pos rfl]
    refine hok.linked.congr fun y hy => ?_
    have hyc : y ≠ c := fun heq => hout (heq ▸ hy)
    rw [attach_nextSibling hp hc, if_neg hyc]
  · rw [if_pos rfl, length_cons, hok.count]
  · rw [if_pos rfl, attach_parent hc, mem_cons]
    split
    next hy => exact ⟨fun _ => rfl, fun _ => .inl hy⟩
    next hy => exact ⟨fun hmem => (hok.children y).mp (hmem.resolve_left hy),
      fun hpar => .inr ((hok.children y).mpr hpar)⟩
  · rw [if_pos rfl, attach_name, map_cons]
    refine nodup_cons.mpr ⟨fun hmem => ?_, hok.distinct⟩
    obtain ⟨y, hy, heq⟩ := List.mem_map.mp hmem
    refine hname y hy (heq.trans ?_)
    rw [name, hc, map_some]
  · rw [attach_isSome]
    exact hok.under q hq
  · rw [if_neg hne]
    exact hok.references

/-- A root is put in front of the children of a directory outside its tree. The directory takes over
one of the references its callers held. -/
theorem VfsRep.attach
    (hroot : cn.parent = none) (hclimb : Linked s.parent (some p) l none) (hout : c ∉ l)
    (hname : ∀ x ∈ K p, s.name x ≠ some cn.name) (hheld : held c ≠ 0) :
    VfsRep spare (s.attach p c) (fun x => if x = c then held c - 1 else held x)
      (fun x => if x = p then c :: K p else K x) := by
  have hokc := h.node c cn hc
  have hnowhere : ∀ x m, s.nodes x = some m → c ∉ K x := by
    intro x m hm hmem
    have hpar := (h.mem_children hm).mp hmem
    rw [parent_of_node hc, hroot] at hpar
    cases hpar
  have hnext : ∀ x m, s.nodes x = some m → ∀ y ∈ K x,
      (s.attach p c).nextSibling y = s.nextSibling y := by
    intro x m hm y hy
    have hyc : y ≠ c := fun heq => hnowhere x m hm (heq ▸ hy)
    rw [attach_nextSibling hp hc, if_neg hyc]
  have hparent : ∀ x, x ≠ p → ∀ y, (s.attach p c).parent y = some x ↔ s.parent y = some x := by
    intro x hx y
    rw [attach_parent hc]
    split
    next hy =>
      rw [hy, parent_of_node hc, hroot]
      refine ⟨fun heq => absurd (some.inj heq).symm hx, fun hno => ?_⟩
      cases hno
    next => rfl
  have hunder : ∀ x m, s.nodes x = some m → ∀ q, m.parent = some q →
      ((s.attach p c).nodes q).isSome = true := by
    intro x m hm q hq
    rw [attach_isSome]
    exact (h.node x m hm).under q hq
  have hrefs := hokc.references
  rw [hroot, isSome_none, if_neg Bool.false_ne_true] at hrefs
  refine h.of_edit rfl attach_isSome (fun x m hm => ?_) (fun x hx => ?_) (fun x hx => ?_)
  · rw [attach_nodes hp hc hne] at hm
    split at hm
    next hx =>
      subst hx
      cases hm
      exact ⟨h.attach_directory hp hc hne hdir (hnowhere x pn hp) hname,
        fun _ => .inr (Nat.succ_ne_zero _)⟩
    next hxp =>
    split at hm
    next hx =>
      -- the new child
      subst hx
      cases hm
      refine ⟨hokc.relinked (if_neg hxp) (hnext x cn hc) (hparent x hxp)
        (fun y _ => congrFun attach_name y) (fun q hq => ?_) ?_, fun _ => .inl ?_⟩
      · cases hq
        rw [attach_isSome, hp]
        rfl
      · rw [if_pos rfl, isSome_some, if_pos rfl]
        omega
      · dsimp only
        omega
    next hxc =>
      exact ⟨(h.node x m hm).frame (if_neg hxp) (hnext x m hm) (hparent x hxp)
        (fun y _ => congrFun attach_name y) (hunder x m hm) (if_neg hxc), h.needed x m hm⟩
  · obtain ⟨m, hm⟩ := h.ended x hx
    refine hm.extend hclimb hout ?_ (fun y hy => ?_)
    · rw [attach_parent hc, if_pos rfl]
    · rw [attach_parent hc, if_neg hy]
  · split at hx
    next hxc =>
      rw [hxc, hc]
      rfl
    next => exact h.held x hx

end

end Attach

/-! ## Detaching -/

section Detach

variable {p c : Nat} {pn cn : VfsNode} {before : Option Nat}

/-- What a heap `s'` looks like where `c` has been taken out of the children of `p`. -/
structure Detached (s s' : VfsHeap) (p c : Nat) (pn cn : VfsNode) (before : Option Nat) : Prop where
  live : s'.live = s.live
  parentNode : s'.nodes p = some
    { pn with
      firstChild := if before = none then s.nextSibling c else pn.firstChild
      childCount := pn.childCount - 1 }
  childNode : s'.nodes c = some { cn with nextSibling := none, parent := none }
  /-- Of any other node at most the sibling link has changed. -/
  others : ∀ x, x ≠ p → x ≠ c → ∃ link : VfsNode → Option Nat,
    s'.nodes x = (s.nodes x).map fun n => { n with nextSibling := link n }
  relinked : ∀ b, before = some b → s'.nextSibling b = s.nextSibling c
  nextSibling : ∀ x, x ≠ c → before ≠ some x → s'.nextSibling x = s.nextSibling x

theorem detached (hp : s.nodes p = some pn) (hc : s.nodes c = some cn) (hne : p ≠ c)
    (hbp : before ≠ some p) (hbc : before ≠ some c)
    (hb : ∀ b, before = some b → (s.nodes b).isSome = true) :
    Detached s (s.detach p c before) p c pn cn before := by
  have hcount : ∀ t : VfsHeap,
      (t.update p fun n => { n with childCount := n.childCount - 1 }).nextSibling = t.nextSibling :=
    fun t => update_nextSibling fun _ => rfl
  unfold detach
  cases before with
  | none =>
    dsimp only
    refine ⟨rfl, ?_, ?_, fun x hxp hxc => ⟨VfsNode.nextSibling, ?_⟩, fun b hno => ?_,
      fun x hxc _ => ?_⟩
    · rw [update_self (n := { pn with firstChild := s.nextSibling c })]
      · rfl
      · rw [update_ne hne, update_self hp]
    · rw [update_ne hne.symm, update_self (n := cn)]
      rw [update_ne hne.symm, hc]
    · rw [update_ne hxp, update_ne hxc, update_ne hxp]
      exact Option.map_id'.symm
    · cases hno
    · rw [hcount, nextSibling, update_ne hxc]
      refine update_bind VfsNode.nextSibling ?_ x
      exact fun _ => rfl
  | some b =>
    have hbp : b ≠ p := fun heq => hbp (congrArg some heq)
    have hbc : b ≠ c := fun heq => hbc (congrArg some heq)
    dsimp only
    refine ⟨rfl, ?_, ?_, fun x hxp hxc => ?_, fun b' hb' => ?_, fun x hxc hxb => ?_⟩
    · rw [update_self (n := pn)]
      · rfl
      · rw [update_ne hne, update_ne hbp.symm, hp]
    · rw [update_ne hne.symm, update_self (n := cn)]
      rw [update_ne hbc.symm, hc]
    · rw [update_ne hxp, update_ne hxc, update_nodes]
      split
      next hxb => exact ⟨fun _ => s.nextSibling c, by rw [hxb]⟩
      next => exact ⟨VfsNode.nextSibling, Option.map_id'.symm⟩
    · cases hb'
      obtain ⟨bn, hbn⟩ := isSome_iff_exists.mp (hb b rfl)
      rw [nextSibling, update_ne hbp, update_ne hbc, update_self hbn]
      rfl
    · have hxb : x ≠ b := fun heq => hxb (congrArg some heq.symm)
      rw [hcount, nextSibling, update_ne hxc, update_ne hxb]
      rfl

variable {s' : VfsHeap}

section

variable (h : Detached s s' p c pn cn before)

include h

theorem Detached.node {m : VfsNode} (hxp : x ≠ p) (hxc : x ≠ c)
    (hm : s'.nodes x = some m) :
    ∃ n link, s.nodes x = some n ∧ m = { n with nextSibling := link } := by
  obtain ⟨link, hlink⟩ := h.others x hxp hxc
  rw [hlink, map_eq_some_iff] at hm
  obtain ⟨n, hn, rfl⟩ := hm
  exact ⟨n, link n, hn, rfl⟩

theorem Detached.isSome (hp : s.nodes p = some pn)
    (hc : s.nodes c = some cn) (x : Nat) : (s'.nodes x).isSome = (s.nodes x).isSome := by
  by_cases hxp : x = p
  · rw [hxp, h.parentNode, hp]
    rfl
  · by_cases hxc : x = c
    · rw [hxc, h.childNode, hc]
      rfl
    · obtain ⟨link, hlink⟩ := h.others x hxp hxc
      rw [hlink, isSome_map]

theorem Detached.parent (hp : s.nodes p = some pn) (hne : p ≠ c)
    (x : Nat) : s'.parent x = if x = c then none else s.parent x := by
  by_cases hxp : x = p
  · rw [hxp, if_neg hne, VfsHeap.parent, h.parentNode, parent_of_node hp]
    rfl
  split
  next hxc =>
    rw [hxc, VfsHeap.parent, h.childNode]
    rfl
  next hxc =>
    obtain ⟨link, hlink⟩ := h.others x hxp hxc
    rw [VfsHeap.parent, hlink, VfsHeap.parent]
    cases s.nodes x with
    | none => rfl
    | some n => rfl

theorem Detached.name (hp : s.nodes p = some pn)
    (hc : s.nodes c = some cn) : s'.name = s.name := by
  funext x
  rw [VfsHeap.name, VfsHeap.name]
  by_cases hxp : x = p
  · rw [hxp, h.parentNode, hp]
    rfl
  · by_cases hxc : x = c
    · rw [hxc, h.childNode, hc]
      rfl
    · obtain ⟨link, hlink⟩ := h.others x hxp hxc
      rw [hlink, Option.map_map]
      rfl

/-- The children left, linked in their old order. -/
theorem Detached.linked (hlinked : Linked s.nextSibling pn.firstChild (l ++ c :: m) none)
    (hbefore : before = l.getLast?) :
    Linked s'.nextSibling (if before = none then s.nextSibling c else pn.firstChild) (l ++ m)
      none := by
  rcases eq_nil_or_concat l with rfl | ⟨l', b, rfl⟩
  · have hnone : before = none := hbefore
    rw [if_pos hnone]
    have hnodup := nodup_cons.mp hlinked.nodup
    refine hlinked.2.congr fun x hx => h.nextSibling x (fun heq => hnodup.1 (heq ▸ hx)) ?_
    rw [hnone]
    exact (some_ne_none x).symm
  rw [concat_eq_append] at hbefore hlinked ⊢
  rw [getLast?_concat] at hbefore
  rw [if_neg (by rw [hbefore]; exact some_ne_none b)]
  rw [append_assoc, singleton_append] at hlinked ⊢
  refine hlinked.unlink (h.relinked b hbefore) fun x hxb hxc => h.nextSibling x hxc ?_
  rw [hbefore]
  exact fun heq => hxb (some.inj heq).symm

end

theorem predecessor_eq (hout : c ∉ l) : predecessor (l ++ c :: m) c = l.getLast? := by
  have hall : ∀ x ∈ l, decide (x ≠ c) = true := by
    intro x hx
    rw [decide_eq_true_eq]
    rintro rfl
    exact hout hx
  rw [predecessor, takeWhile_append_of_pos hall, takeWhile_cons_of_neg (by simp),
    append_nil]

section

variable (h : VfsRep spare s held K) (hp : s.nodes p = some pn)

include h hp

/-- The children of `p` around one of them. -/
theorem VfsRep.split_children (hpar : s.parent c = some p) :
    ∃ l m, K p = l ++ c :: m ∧ c ∉ l ∧ c ∉ m ∧ ∀ b, l.getLast? = some b → s.parent b = some p := by
  have hokp := h.node p pn hp
  obtain ⟨l, m, hK⟩ := append_of_mem ((hokp.children c).mpr hpar)
  have hnodup := hokp.linked.nodup
  rw [hK] at hnodup
  have hsplit := nodup_append.mp hnodup
  refine ⟨l, m, hK, fun hin => hsplit.2.2 c hin c mem_cons_self rfl,
    (nodup_cons.mp hsplit.2.1).1, fun b hb => (hokp.children b).mp ?_⟩
  rw [hK]
  exact mem_append_left _ (mem_of_getLast? hb)

theorem VfsRep.detached (hc : s.nodes c = some cn) (hpar : s.parent c = some p) :
    Detached s (s.detach p c (predecessor (K p) c)) p c pn cn (predecessor (K p) c) := by
  obtain ⟨l, m, hK, hout, _, hsibling⟩ := h.split_children hp hpar
  rw [hK, predecessor_eq hout]
  refine KernelBoot.Fs.detached hp hc ?_ (fun hb => h.parent_ne (hsibling p hb))
    (fun hb => hout (mem_of_getLast? hb)) (fun b hb => isSome_of_parent (hsibling b hb))
  rintro rfl
  exact h.parent_ne hpar

/-- The directory with one child less. -/
theorem VfsRep.detach_directory
    (hc : s.nodes c = some cn) (hne : p ≠ c) (hK : K p = l ++ c :: m) (hout : c ∉ l ++ m)
    (hd : Detached s s' p c pn cn l.getLast?) :
    NodeOk s' (fun x => if x = c then held c + 1 else held x)
      (fun x => if x = p then l ++ m else K x) p
      { pn with
        firstChild := if l.getLast? = none then s.nextSibling c else pn.firstChild
        childCount := pn.childCount - 1 } := by
  obtain ⟨hkept, hnamed, hlinked, hcount, hchildren, hdistinct, hleaf, hunder, hrefs⟩ :=
    h.node p pn hp
  rw [hK] at hlinked hcount hdistinct hleaf
  refine ⟨hkept, hnamed, ?_, ?_, fun y => ?_, ?_, fun hno => ?_, fun q hq => ?_, ?_⟩
  · rw [if_pos rfl]
    exact hd.linked hlinked rfl
  · rw [length_append, length_cons] at hcount
    rw [if_pos rfl, length_append]
    dsimp only
    omega
  · rw [if_pos rfl, hd.parent hp hne]
    have hold := hchildren y
    rw [hK] at hold
    split
    next hyc => exact iff_of_false (hyc ▸ hout) (some_ne_none p).symm
    next hyc =>
      rw [← hold, mem_append, mem_append, mem_cons]
      exact ⟨Or.imp_right .inr, Or.imp_right fun hmem => hmem.resolve_left hyc⟩
  · rw [if_pos rfl, hd.name hp hc]
    exact hdistinct.sublist ((Sublist.append_left (sublist_cons_self c m) l).map _)
  · exact absurd (hleaf hno) (append_ne_nil_of_right_ne_nil _ (cons_ne_nil _ _))
  · rw [hd.isSome hp hc]
    exact hunder q hq
  · rw [if_neg hne]
    exact hrefs

/-- A child is taken out of its directory, which leaves its own reference to the caller. -/
theorem VfsRep.detach (hc : s.nodes c = some cn) (hpar : s.parent c = some p) :
    VfsRep (fun x => spare x ∨ x = p) (s.detach p c (predecessor (K p) c))
      (fun x => if x = c then held c + 1 else held x)
      (fun x => if x = p then (K p).erase c else K x) := by
  have hokc := h.node c cn hc
  have hparent : cn.parent = some p := (parent_of_node hc).symm.trans hpar
  have hne : p ≠ c := by
    rintro rfl
    exact h.parent_ne hpar
  have hrefs := hokc.references
  rw [hparent, isSome_some, if_pos rfl] at hrefs
  have hd := h.detached hp hc hpar
  obtain ⟨l, m, hK, hout, hout', hsibling⟩ := h.split_children hp hpar
  have herase : (K p).erase c = l ++ m := by
    rw [hK, erase_append_right _ hout, erase_cons_head]
  rw [hK, predecessor_eq hout] at hd ⊢
  generalize s.detach p c l.getLast? = s' at hd
  rw [← hK, herase]
  -- the other lists have neither `c` nor the child before it
  have hnext : ∀ x n, s.nodes x = some n → x ≠ p → ∀ y ∈ K x,
      s'.nextSibling y = s.nextSibling y := by
    intro x n hn hxp y hy
    have hyx := (h.mem_children hn).mp hy
    refine hd.nextSibling y ?_ ?_
    · rintro rfl
      exact hxp (some.inj (hyx.symm.trans hpar))
    · intro hb
      exact hxp (some.inj (hyx.symm.trans (hsibling y hb)))
  have hunder : ∀ x n, s.nodes x = some n → ∀ q, n.parent = some q → (s'.nodes q).isSome = true := by
    intro x n hn q hq
    rw [hd.isSome hp hc]
    exact (h.node x n hn).under q hq
  have hchildren : ∀ x, x ≠ p → ∀ y, s'.parent y = some x ↔ s.parent y = some x := by
    intro x hxp y
    rw [hd.parent hp hne]
    split
    next hyc =>
      rw [hyc, hpar]
      refine ⟨fun hno => ?_, fun heq => absurd (some.inj heq).symm hxp⟩
      cases hno
    next => rfl
  refine h.of_edit hd.live (hd.isSome hp hc) (fun x n hn => ?_) (fun x hx => ?_) (fun x hx => ?_)
  · by_cases hxp : x = p
    · subst hxp
      rw [hd.parentNode] at hn
      cases hn
      exact ⟨h.detach_directory hp hc hne hK (not_mem_append hout hout') hd,
        fun hno => absurd (.inr rfl) hno⟩
    by_cases hxc : x = c
    · -- the child
      subst hxc
      rw [hd.childNode] at hn
      cases hn
      refine ⟨hokc.relinked (if_neg hxp) (hnext x cn hc hxp) (hchildren x hxp)
        (fun y _ => congrFun (hd.name hp hc) y) (fun q hq => ?_) ?_, fun _ => .inl ?_⟩
      · cases hq
      · rw [if_pos rfl, hrefs]
        rfl
      · dsimp only
        omega
    · obtain ⟨n, link, hold, rfl⟩ := hd.node hxp hxc hn
      refine ⟨(h.node x n hold).relinked (if_neg hxp) (hnext x n hold hxp) (hchildren x hxp)
        (fun y _ => congrFun (hd.name hp hc) y) (hunder x n hold) ?_,
        fun hno => h.needed x n hold fun hspare => hno (.inl hspare)⟩
      rw [if_neg hxc]
      exact (h.node x n hold).references
  · obtain ⟨climb, hclimb⟩ := h.ended x hx
    refine hclimb.cut (a := c) ?_ fun y hy => ?_
    · rw [hd.parent hp hne, if_pos rfl]
    · rw [hd.parent hp hne, if_neg hy]
  · split at hx
    next hxc =>
      rw [hxc, hc]
      rfl
    next => exact h.held x hx

end

end Detach

/-! ## Creating -/

/-- A new node, a root held by its creator. -/
theorem VfsRep.create (h : VfsRep spare s held K) {node : VfsNode} (hfresh : s.nodes a = none)
    (hkept : node.destroying = false) (hnamed : node.name ≠ []) (hroot : node.parent = none)
    (hfirst : node.firstChild = none) (hlast : node.nextSibling = none)
    (hcount : node.childCount = 0) (hrefs : node.references = 1) : VfsRep spare
      ⟨fun x => if x = a then some node else s.nodes x, a :: s.live⟩
      (fun x => if x = a then held a + 1 else held x) (fun x => if x = a then [] else K x) := by
  generalize hs : (⟨fun x => if x = a then some node else s.nodes x, a :: s.live⟩ : VfsHeap) = s'
  have hnodes : ∀ x, s'.nodes x = if x = a then some node else s.nodes x := by
    intro x
    rw [← hs]
  have hparent : ∀ x, s'.parent x = s.parent x := by
    intro x
    rw [parent, hnodes]
    split
    next hx => rw [hx, parent, hfresh, bind_some, hroot, bind_none]
    next => rfl
  have hnext : ∀ x, s'.nextSibling x = s.nextSibling x := by
    intro x
    rw [nextSibling, hnodes]
    split
    next hx => rw [hx, nextSibling, hfresh, bind_some, hlast, bind_none]
    next => rfl
  have hdead : (s.nodes a).isSome ≠ true := by
    rw [hfresh]
    exact Bool.false_ne_true
  have hnobody : ∀ x, s.parent x ≠ some a := fun x hx => hdead (h.parent_live hx)
  have hheld : held a = 0 := Classical.byContradiction fun hne => hdead (h.held a hne)
  have hsome : ∀ x, (s'.nodes x).isSome = true ↔ x = a ∨ (s.nodes x).isSome = true := by
    intro x
    rw [hnodes]
    split
    next hx => exact ⟨fun _ => .inl hx, fun _ => rfl⟩
    next hx => exact ⟨.inr, fun hor => hor.resolve_left hx⟩
  refine ⟨fun x => ?_, ?_, fun x m hm => ?_, fun x m hm hno => ?_, fun x hx => ?_, fun x hx => ?_⟩
  · rw [hsome, ← h.live x, ← hs, mem_cons]
  · rw [← hs]
    exact nodup_cons.mpr ⟨fun hmem => hdead ((h.live a).mp hmem), h.liveOnce⟩
  · rw [hnodes] at hm
    split at hm
    next hx =>
      subst hx
      cases hm
      refine ⟨hkept, hnamed, ?_, ?_, fun c => ?_, ?_, fun _ => if_pos rfl, fun p hp => ?_, ?_⟩
      · rw [if_pos rfl, hfirst]
        rfl
      · rw [if_pos rfl, hcount]
        rfl
      · rw [if_pos rfl, hparent]
        exact ⟨fun hno => absurd hno not_mem_nil, fun hc => absurd hc (hnobody c)⟩
      · rw [if_pos rfl]
        exact nodup_nil
      · rw [hroot] at hp
        cases hp
      · rw [if_pos rfl, hroot, hrefs, hheld]
        rfl
    next hx =>
      have hok := h.node x m hm
      refine hok.frame (if_neg hx) (fun c _ => hnext c) (fun c => by rw [hparent]) (fun c hc => ?_)
        (fun p hp => ?_) (if_neg hx)
      · have hca : c ≠ a := by
          rintro rfl
          exact hdead (isSome_of_parent ((hok.children c).mp hc))
        rw [name, hnodes, if_neg hca]
        rfl
      · exact (hsome p).mpr (.inr (hok.under p hp))
  · rw [hnodes] at hm
    split at hm
    next =>
      cases hm
      rw [hrefs]
      exact .inl Nat.one_ne_zero
    next => exact h.needed x m hm hno
  · rcases (hsome x).mp hx with rfl | hold
    · refine ⟨[x], rfl, ?_⟩
      rw [hparent, parent, hfresh, bind_none]
      rfl
    · obtain ⟨l, hl⟩ := h.ended x hold
      exact ⟨l, hl.congr fun c _ => hparent c⟩
  · refine (hsome x).mpr ?_
    split at hx
    next hxa => exact .inl hxa
    next => exact .inr (h.held x hx)

end Rep

end KernelBoot.Fs
