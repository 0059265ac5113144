import KernelBoot.Fs.VfsPath
import KernelBoot.Laws.Fs.VfsTree

/-!
# Path resolution stays under its root

A walk that stands on a node differs from the heap it began with by one reference on that node, so
the whole walk can be read over the heap it began with: `nextNode` is the node it goes to next.
From a node it goes to the node itself, to a child, or to the parent of a node other than the root,
and none of these leaves the subtree of the root. The walk with credentials makes the same moves and
stops at the first node that does not grant search.

The calls are taken one at a time: no other call changes the tree under a walk.
-/

namespace KernelBoot.Fs

open Lib VfsHeap

variable {next working : Nat} {rest : List UInt8} {grants : VfsHeap → Nat → Bool}

/-! ## One more reference -/

def VfsHeap.retained (s : VfsHeap) (a : Nat) : VfsHeap :=
  s.update a fun n => { n with references := n.references + 1 }

/-- The node can be retained, up to the limit of the count. -/
def Referenced (s : VfsHeap) (a : Nat) : Prop :=
  ∃ n, s.nodes a = some n ∧ n.destroying = false ∧ n.references ≠ 0

section Updates

variable {s : VfsHeap} {a b : Nat} {f g : VfsNode → VfsNode}

theorem VfsHeap.eq_of_nodes {s t : VfsHeap} (hnodes : ∀ x, s.nodes x = t.nodes x)
    (hlive : s.live = t.live) : s = t := by
  cases s
  cases t
  rw [mk.injEq]
  exact ⟨funext hnodes, hlive⟩

theorem update_update_self : (s.update a f).update a g = s.update a fun n => g (f n) := by
  refine eq_of_nodes (fun x => ?_) rfl
  by_cases hx : x = a
  · rw [update_nodes, if_pos hx, update_nodes, if_pos rfl, update_nodes, if_pos hx, Option.map_map]
    rfl
  · rw [update_ne hx, update_ne hx, update_ne hx]

theorem update_comm (hne : a ≠ b) : (s.update a f).update b g = (s.update b g).update a f := by
  refine eq_of_nodes (fun x => ?_) rfl
  by_cases hb : x = b
  · have hba : b ≠ a := hne.symm
    rw [hb, update_nodes, if_pos rfl, update_ne hba, update_ne hba, update_nodes, if_pos rfl]
  · rw [update_ne hb]
    by_cases ha : x = a
    · rw [ha, update_nodes, if_pos rfl, update_nodes, if_pos rfl, update_ne hne]
    · rw [update_ne ha, update_ne ha, update_ne hb]

theorem update_id (hf : ∀ n, f n = n) : s.update a f = s := by
  refine eq_of_nodes (fun x => ?_) rfl
  rw [update_nodes, funext hf, Option.map_id']
  split
  next hx => rw [hx]
  next => rfl

end Updates

section Walk

variable {spare : Nat → Prop} {s : VfsHeap} {held : Nat → Nat} {K : Nat → List Nat}
variable {root current : Nat}

theorem retain_eq {a : Nat} {s' : VfsHeap} (h : vfsNodeRetain s a = (true, s')) :
    Referenced s a ∧ s' = s.retained a := by
  revert h
  fun_cases vfsNodeRetain s a
  · rintro ⟨⟩
  next n hn hcan =>
    rintro ⟨⟩
    exact ⟨⟨n, hn, by simpa using hcan.1, hcan.2.1⟩, rfl⟩
  · rintro ⟨⟩

/-- A node with a reference to spare is not destroyed. -/
theorem release_eq {a : Nat} {n : VfsNode} (hn : s.nodes a = some n) (hkept : n.destroying = false)
    (hmany : 2 ≤ n.references) :
    vfsNodeRelease s a = s.update a fun n => { n with references := n.references - 1 } := by
  have hleft : n.references - 1 ≠ 0 := by omega
  have hheld : ¬ (n.destroying = true ∨ n.references = 0) := by
    rintro (hdestroying | hnone)
    · rw [hkept] at hdestroying
      cases hdestroying
    · omega
  rw [vfsNodeRelease, hn]
  dsimp only
  rw [if_neg hheld, tryDestroy, update_self hn]
  exact if_pos (.inr (.inl hleft))

theorem release_retained (hcurrent : Referenced s current) :
    vfsNodeRelease (s.retained current) current = s := by
  obtain ⟨n, hn, hkept, hrefs⟩ := hcurrent
  have hself : (s.retained current).nodes current =
      some { n with references := n.references + 1 } := update_self hn
  have hmany : 2 ≤ n.references + 1 := by omega
  rw [release_eq hself hkept hmany, retained, update_update_self]
  exact update_id fun m => by simp only [Nat.add_sub_cancel]

/-- The walk moves its reference from one node to the next. -/
theorem release_after_retain (hcurrent : Referenced s current) {s' : VfsHeap}
    (hretain : vfsNodeRetain (s.retained current) next = (true, s')) :
    Referenced s next ∧ vfsNodeRelease s' current = s.retained next := by
  obtain ⟨n, hn, hkept, hrefs⟩ := hcurrent
  obtain ⟨hnext, rfl⟩ := retain_eq hretain
  have hself : (s.retained current).nodes current =
      some { n with references := n.references + 1 } := update_self hn
  by_cases hsame : next = current
  · subst hsame
    have htwice : ((s.retained next).retained next).nodes next =
        some { n with references := n.references + 1 + 1 } := update_self hself
    have hmany : 2 ≤ n.references + 1 + 1 := by omega
    refine ⟨⟨n, hn, hkept, hrefs⟩, ?_⟩
    rw [release_eq htwice hkept hmany, retained, update_update_self]
    exact update_id fun m => by simp only [Nat.add_sub_cancel]
  · have hother : ((s.retained current).retained next).nodes current =
        some { n with references := n.references + 1 } := by
      rw [retained, update_ne (Ne.symm hsame)]
      exact hself
    have hmany : 2 ≤ n.references + 1 := by omega
    refine ⟨?_, ?_⟩
    · obtain ⟨m, hm, hm'⟩ := hnext
      rw [retained, update_ne hsame] at hm
      exact ⟨m, hm, hm'⟩
    · rw [release_eq hother hkept hmany, retained, update_comm hsame, retained,
        update_update_self]
      congr 1
      exact update_id fun m => by simp only [Nat.add_sub_cancel]

theorem retained_parent (a : Nat) : (s.retained a).parent = s.parent :=
  update_parent fun _ => rfl

theorem retained_children {a b : Nat} {n m : VfsNode} (hn : s.nodes b = some n)
    (hm : (s.retained a).nodes b = some m) : (s.retained a).children m = s.children n := by
  have hfirst : m.firstChild = n.firstChild := by
    have hsame := update_bind (s := s) (a := a) (f := fun n => { n with references := n.references + 1 })
      VfsNode.firstChild (fun _ => rfl) b
    rw [hn] at hsame
    exact (congrArg (·.bind VfsNode.firstChild) hm).symm.trans hsame
  have hnext : (s.retained a).nextSibling = s.nextSibling := update_nextSibling fun _ => rfl
  rw [children, children, hfirst, hnext]
  rfl

/-! ## One component -/

/-- Where a walk can go from `current`. -/
def Near (s : VfsHeap) (root current next : Nat) : Prop :=
  next = current ∨ s.parent next = some current ∨ current ≠ root ∧ s.parent current = some next

theorem parentReference_cases :
    parentReference (s.retained current) root current = (none, s.retained current) ∨
      ∃ next s', parentReference (s.retained current) root current = (some next, s') ∧
        vfsNodeRetain (s.retained current) next = (true, s') ∧ Near s root current next := by
  unfold parentReference
  rw [retained_parent]
  dsimp only
  split
  next s' hretain =>
    refine .inr ⟨_, s', rfl, hretain, ?_⟩
    cases hparent : s.parent current with
    | none => exact .inl rfl
    | some p =>
      dsimp only
      split
      next hroot => exact .inr (.inr ⟨hroot, hparent⟩)
      next => exact .inl rfl
  next => exact .inl rfl

theorem lookup_cases (h : VfsRep spare s held K) (name : List UInt8) :
    vfsNodeLookup (s.retained current) current name = (none, s.retained current) ∨
      ∃ next s', vfsNodeLookup (s.retained current) current name = (some next, s') ∧
        vfsNodeRetain (s.retained current) next = (true, s') ∧ Near s root current next := by
  fun_cases vfsNodeLookup (s.retained current) current name
  · exact .inl rfl
  · exact .inl rfl
  · exact .inl rfl
  next m hm _ child hfind s' hretain =>
    refine .inr ⟨child, s', rfl, hretain, .inr (.inl ?_)⟩
    -- the children are those of the heap without the walk's reference
    have hlive : (s.nodes current).isSome = true := by
      rw [← update_isSome (s := s) (a := current), ← retained, hm, Option.isSome_some]
    obtain ⟨n, hn⟩ := Option.isSome_iff_exists.mp hlive
    have hchild := List.mem_of_find?_eq_some hfind
    rw [retained_children hn hm, h.children_eq hn] at hchild
    exact (h.mem_children hn).mp hchild
  · exact .inl rfl

/-- A step retains the next node, or leaves the heap alone. -/
theorem stepComponent_cases (h : VfsRep spare s held K) (root : Nat) (component : List UInt8) :
    stepComponent (s.retained current) root current component = (none, s.retained current) ∨
      ∃ next s', stepComponent (s.retained current) root current component = (some next, s') ∧
        vfsNodeRetain (s.retained current) next = (true, s') ∧ Near s root current next := by
  fun_cases stepComponent (s.retained current) root current component
  next s' hretain => exact .inr ⟨current, s', rfl, hretain, .inl rfl⟩
  · exact .inl rfl
  · exact parentReference_cases
  · exact lookup_cases h component

/-- The node a walk goes to from `current`; `rest` begins with a component. -/
def nextNode (s : VfsHeap) (root current : Nat) (rest : List UInt8) : Option Nat :=
  if nameSize ≤ (componentOf rest).length then none
  else (stepComponent (s.retained current) root current (componentOf rest)).1

theorem nextNode_near (h : VfsRep spare s held K) (hcurrent : Referenced s current)
    (hnext : nextNode s root current rest = some next) :
    Referenced s next ∧ Near s root current next := by
  revert hnext
  fun_cases nextNode s root current rest
  · rintro ⟨⟩
  · rcases stepComponent_cases h root (componentOf rest) with
      hnone | ⟨found, s', hfound, hretain, hnear⟩
    · rw [hnone]
      rintro ⟨⟩
    · rw [hfound]
      rintro ⟨⟩
      exact ⟨(release_after_retain hcurrent hretain).1, hnear⟩

/-- Below the root: the climb from the node meets it. -/
def Below (s : VfsHeap) (root a : Nat) : Prop :=
  Relation.ReflTransGen (fun x y => s.parent x = some y) a root

theorem Near.below (hnear : Near s root current next) (h : Below s root current) :
    Below s root next := by
  rcases hnear with rfl | hchild | ⟨hne, hparent⟩
  · exact h
  · exact Relation.ReflTransGen.head hchild h
  · rcases Relation.ReflTransGen.cases_head h with heq | ⟨p, hp, hrest⟩
    · exact absurd heq hne
    · rw [hparent] at hp
      cases hp
      exact hrest

/-! ## The walk -/

/-- A walk over the heap it began with. -/
theorem walkPath_step (h : VfsRep spare s held K) (grants : VfsHeap → Nat → Bool)
    (hgrants : grants (s.retained current) current = grants s current)
    (hcurrent : Referenced s current) (hrest : skipSlashes rest ≠ []) :
    walkPath grants root (s.retained current) current rest =
      if grants s current = true then
        match nextNode s root current (skipSlashes rest) with
        | none => (none, s)
        | some next =>
          walkPath grants root (s.retained next) next (afterComponent (skipSlashes rest))
      else (none, s) := by
  rw [walkPath, dif_neg hrest, hgrants, nextNode]
  cases grants s current with
  | false => rw [if_pos (by rfl), if_neg Bool.false_ne_true, release_retained hcurrent]
  | true =>
    rw [if_neg (by decide), if_pos rfl]
    dsimp only
    split
    next hlong => rw [release_retained hcurrent]
    next hshort =>
    rcases stepComponent_cases h root (componentOf (skipSlashes rest)) with
      hnone | ⟨next, s', hfound, hretain, _⟩
    · rw [hnone]
      dsimp only
      rw [release_retained hcurrent]
    · rw [hfound]
      dsimp only
      rw [(release_after_retain hcurrent hretain).2]

theorem walkPath_end (hrest : skipSlashes rest = []) :
    walkPath grants root s current rest = (some current, s) := by
  rw [walkPath, dif_pos hrest]

/-- What a lookup leaves behind: the heap it found, with one reference on the node it returns, which
is below the root. -/
def Resolves (s : VfsHeap) (root : Nat) (result : Option Nat × VfsHeap) : Prop :=
  match result.1 with
  | none => result.2 = s
  | some n => Below s root n ∧ result.2 = s.retained n

theorem walkPath_resolves (h : VfsRep spare s held K)
    (hgrants : ∀ a, grants (s.retained a) a = grants s a) (hcurrent : Referenced s current)
    (hbelow : Below s root current) (rest : List UInt8) :
    Resolves s root (walkPath grants root (s.retained current) current rest) := by
  induction hlength : rest.length using Nat.strongRecOn generalizing current rest with
  | ind length ih =>
    by_cases hrest : skipSlashes rest = []
    · rw [walkPath_end hrest]
      exact ⟨hbelow, rfl⟩
    rw [walkPath_step h grants (hgrants current) hcurrent hrest]
    split
    next =>
      split
      next => rfl
      next next hnext =>
        obtain ⟨hheld, hnear⟩ := nextNode_near h hcurrent hnext
        have hshorter := afterComponent_shortens hrest
        exact ih _ (hlength ▸ hshorter) hheld (hnear.below hbelow) _ rfl
    next => rfl

/-- The nodes a walk from `current` looks up a component from. -/
def searched (s : VfsHeap) (root current : Nat) (rest : List UInt8) : List Nat :=
  if _h : skipSlashes rest = [] then []
  else
    current ::
      match nextNode s root current (skipSlashes rest) with
      | none => []
      | some next => searched s root next (afterComponent (skipSlashes rest))
termination_by rest.length
decreasing_by exact afterComponent_shortens ‹_›

theorem none_iff_and {P : Prop} (n : Nat) :
    (none : Option Nat) = some n ↔ (none : Option Nat) = some n ∧ P :=
  ⟨fun hno => (nomatch hno), And.left⟩

/-- A walk that asks arrives where one that does not ask arrives, if every answer is yes. -/
theorem walkPath_granted_iff (h : VfsRep spare s held K)
    (hgrants : ∀ a, grants (s.retained a) a = grants s a) (hcurrent : Referenced s current)
    (rest : List UInt8) (n : Nat) :
    (walkPath grants root (s.retained current) current rest).1 = some n ↔
      (walkPath (fun _ _ => true) root (s.retained current) current rest).1 = some n ∧
        ∀ a ∈ searched s root current rest, grants s a = true := by
  induction hlength : rest.length using Nat.strongRecOn generalizing current rest with
  | ind length ih =>
    by_cases hrest : skipSlashes rest = []
    · rw [walkPath_end hrest, walkPath_end hrest, searched, dif_pos hrest]
      exact ⟨fun heq => ⟨heq, List.forall_mem_nil _⟩, And.left⟩
    rw [walkPath_step h grants (hgrants current) hcurrent hrest,
      walkPath_step h (fun _ _ => true) rfl hcurrent hrest, if_pos rfl, searched,
      dif_neg hrest, List.forall_mem_cons]
    cases hnext : nextNode s root current (skipSlashes rest) with
    | none =>
      dsimp only
      rw [ite_self]
      exact none_iff_and n
    | some next =>
      have hshorter := afterComponent_shortens hrest
      have hrec := ih _ (hlength ▸ hshorter) (nextNode_near h hcurrent hnext).1 _ rfl
      dsimp only
      split
      next hyes =>
        rw [hrec]
        exact ⟨fun ⟨hn, hall⟩ => ⟨hn, hyes, hall⟩, fun ⟨hn, _, hall⟩ => ⟨hn, hall⟩⟩
      next hno => exact ⟨fun hnone => (nomatch hnone), fun hall => absurd hall.2.1 hno⟩

/-! ## The lookups -/

theorem walkFrom_cases (s : VfsHeap) (root start : Nat) (rest : List UInt8) :
    (∀ grants', walkFrom grants' root s start rest = (none, s)) ∨
      Referenced s start ∧ ∀ grants', walkFrom grants' root s start rest =
        walkPath grants' root (s.retained start) start rest := by
  unfold walkFrom
  split
  next s' hretain =>
    obtain ⟨hstart, rfl⟩ := retain_eq hretain
    exact .inr ⟨hstart, fun _ => rfl⟩
  next => exact .inl fun _ => rfl

theorem walkFrom_resolves (h : VfsRep spare s held K)
    (hgrants : ∀ a, grants (s.retained a) a = grants s a) {start : Nat}
    (hbelow : Below s root start) (rest : List UInt8) :
    Resolves s root (walkFrom grants root s start rest) := by
  rcases walkFrom_cases s root start rest with hnone | ⟨hstart, hwalk⟩
  · rw [hnone]
    rfl
  · rw [hwalk]
    exact walkPath_resolves h hgrants hstart hbelow rest

theorem walkFrom_granted_iff (h : VfsRep spare s held K)
    (hgrants : ∀ a, grants (s.retained a) a = grants s a) (start : Nat) (rest : List UInt8)
    (n : Nat) : (walkFrom grants root s start rest).1 = some n ↔
      (walkFrom (fun _ _ => true) root s start rest).1 = some n ∧
        ∀ a ∈ searched s root start rest, grants s a = true := by
  rcases walkFrom_cases s root start rest with hnone | ⟨hstart, hwalk⟩
  · rw [hnone, hnone]
    exact none_iff_and n
  · rw [hwalk, hwalk]
    exact walkPath_granted_iff h hgrants hstart rest n

theorem lookupPath_resolves (h : VfsRep spare s held K) (root : Nat) (path : List UInt8) :
    Resolves s root (vfsLookupPath s root path) := by
  fun_cases vfsLookupPath s root path
  · rfl
  · exact walkFrom_resolves h (fun _ => rfl) Relation.ReflTransGen.refl _

/-- A reference does not change what a node grants. -/
theorem access_retained (context : SecurityContext) (requested a : Nat) :
    vfsNodeAccess (s.retained a) a context requested = vfsNodeAccess s a context requested := by
  unfold vfsNodeAccess
  rw [retained, update_nodes, if_pos rfl]
  cases s.nodes a with
  | none => rfl
  | some n => rfl

/-- The node a lookup starts from, and the path from there. -/
def lookupStart (root working : Nat) (path : List UInt8) : Nat × List UInt8 :=
  if path.head? = some slash then (root, path.drop 1) else (working, path)

theorem lookupPathAt_eq {path : List UInt8} : vfsLookupPathAt s root working path =
      if path = [] ∨ !isDirectory s root ∨ !isDirectory s working then (none, s)
      else
        walkFrom (fun _ _ => true) root s (lookupStart root working path).1
          (lookupStart root working path).2 := by
  unfold vfsLookupPathAt vfsLookupPath lookupStart
  split
  next => rfl
  next =>
    split
    next habsolute => rw [if_neg (not_not_intro habsolute)]
    next => rfl

theorem lookupPathAtAccess_eq {path : List UInt8} {context : SecurityContext} :
    vfsLookupPathAtAccess s root working path context =
      if path = [] ∨ !isDirectory s root ∨ !isDirectory s working then (none, s)
      else
        walkFrom (fun s current => vfsNodeAccess s current context 1) root s
          (lookupStart root working path).1 (lookupStart root working path).2 := by
  unfold vfsLookupPathAtAccess lookupStart
  split
  next => rfl
  next =>
    dsimp only
    split
    next => rfl
    next => rfl

theorem lookupStart_below (hworking : Below s root working) (path : List UInt8) :
    Below s root (lookupStart root working path).1 := by
  fun_cases lookupStart root working path
  · exact Relation.ReflTransGen.refl
  · exact hworking

end Walk

/-- Every lookup returns a node below the root or none, and changes no reference count but that of
the node it returns; the lookup with credentials returns the node of the one without exactly when
every node it looks up a component from grants search. -/
theorem path_resolution {s : VfsSystem} (h : VfsInv s) {root working : Nat}
    (hworking : Below s.heap root working) (path : List UInt8) (context : SecurityContext) :
    Resolves s.heap root (vfsLookupPath s.heap root path) ∧
      Resolves s.heap root (vfsLookupPathAt s.heap root working path) ∧
      Resolves s.heap root (vfsLookupPathAtAccess s.heap root working path context) ∧
      ∀ n, (vfsLookupPathAtAccess s.heap root working path context).1 = some n ↔
        (vfsLookupPathAt s.heap root working path).1 = some n ∧
          ∀ a ∈ searched s.heap root (lookupStart root working path).1
              (lookupStart root working path).2,
            vfsNodeAccess s.heap a context 1 = true := by
  obtain ⟨K, h⟩ := h
  have hstart := lookupStart_below hworking path
  have hgrants := fun a => access_retained (s := s.heap) context 1 a
  rw [lookupPathAt_eq, lookupPathAtAccess_eq]
  refine ⟨lookupPath_resolves h root path, ?_⟩
  split
  next => exact ⟨rfl, rfl, none_iff_and⟩
  next =>
    exact ⟨walkFrom_resolves h (fun _ => rfl) hstart _, walkFrom_resolves h hgrants hstart _,
      walkFrom_granted_iff h hgrants _ _⟩

/-- A root with a directory in it; only the owner may search the inner one. -/
def privateTree : List VfsCall :=
  [.create [114] .directory 1 1 493 (some 1), .create [100] .directory 1 1 448 (some 2),
    .addChild 1 2]

theorem privateTree_inv : VfsInv (run VfsCall.step .initial privateTree) := by
  have hlegal : Each VfsCall.step VfsCall.Legal .initial privateTree := by
    refine ⟨fun a _ => rfl, fun a ha => ?_, trivial, trivial⟩
    cases ha
    rfl
  exact run_keeps (fun s call h hcall => VfsCall.inv h hcall) VfsInv.initial hlegal

/-- The path `../d/../..` from the inner directory. -/
theorem path_resolution_privateTree :
    Resolves (run VfsCall.step .initial privateTree).heap 1
      (vfsLookupPathAtAccess (run VfsCall.step .initial privateTree).heap 1 2
        [46, 46, 47, 100, 47, 46, 46, 47, 46, 46] ⟨2, 2⟩) :=
  (path_resolution privateTree_inv (Relation.ReflTransGen.single (by decide +kernel))
    [46, 46, 47, 100, 47, 46, 46, 47, 46, 46] ⟨2, 2⟩).2.2.1

end KernelBoot.Fs
