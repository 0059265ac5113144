import KernelBoot.Lib.Run
import Mathlib.Data.List.Nodup
import Mathlib.Data.List.Perm.Subperm
import Mathlib.Logic.Function.Basic

/-!
# Cells whose content is disposed of once

A store of cells under keys. A cell is filled, references to its content are taken and dropped, and
it is closed; closing disposes of the content at once when no reference is out, and otherwise the
last drop does. The store remembers every content ever installed, numbered per cell, and every
disposal. `Sound` is what legal operations keep: nothing is disposed of twice, nothing that was not
installed, nothing that is still referenced; and what a cell no longer holds has been disposed of.
-/

namespace KernelBoot.Lib.Lifetime

open List Function

variable {κ ο : Type*}

/-- One cell: what it holds, whether it is being closed, the references out, and how many contents
it has held. -/
@[ext] structure Cell (ο : Type*) where
  content : Option ο
  closing : Bool
  refs : Nat
  number : Nat

/-- The `number`-th content of the cell `key`. -/
structure Birth (κ ο : Type*) where
  key : κ
  number : Nat
  content : ο
  deriving DecidableEq

structure Store (κ ο : Type*) where
  cells : κ → Cell ο
  births : List (Birth κ ο)
  disposed : List (Birth κ ο)

variable {s : Store κ ο} {b : Birth κ ο}

inductive Op (κ ο : Type*) where
  | install (key : κ) (content : ο)
  | take (key : κ)
  | drop (key : κ)
  | close (key : κ)

namespace Cell

def install (c : Cell ο) (o : ο) : Cell ο :=
  { c with content := some o, closing := false, number := c.number + 1 }

def take (c : Cell ο) : Cell ο := { c with refs := c.refs + 1 }

def drop (c : Cell ο) : Cell ο :=
  { c with
    refs := c.refs - 1
    content := if c.closing = true ∧ c.refs = 1 then none else c.content }

def close (c : Cell ο) : Cell ο :=
  { c with closing := true, content := if c.refs = 0 then none else c.content }

/-- What is disposed of when the cell `k` changes from `c` to `c'`. -/
def disposal (k : κ) (c c' : Cell ο) : List (Birth κ ο) :=
  match c.content, c'.content with
  | some o, none => [⟨k, c.number, o⟩]
  | _, _ => []

end Cell

section Machine

variable [DecidableEq κ]

/-- Change one cell, disposing of the content it loses. -/
def Store.become (s : Store κ ο) (k : κ) (c : Cell ο) : Store κ ο :=
  { s with
    cells := Function.update s.cells k c
    disposed := s.disposed ++ Cell.disposal k (s.cells k) c }

def step (s : Store κ ο) : Op κ ο → Store κ ο
  | .install k o =>
    { s with
      cells := Function.update s.cells k ((s.cells k).install o)
      births := s.births ++ [⟨k, (s.cells k).number + 1, o⟩] }
  | .take k => { s with cells := Function.update s.cells k (s.cells k).take }
  | .drop k => s.become k (s.cells k).drop
  | .close k => s.become k (s.cells k).close

end Machine

/-- When an operation may be made: only an empty cell is filled, only an open one is referenced, and
only a reference that is out is dropped. -/
def Legal (s : Store κ ο) : Op κ ο → Prop
  | .install k _ => (s.cells k).content = none
  | .take k => (s.cells k).content ≠ none ∧ (s.cells k).closing = false
  | .drop k => (s.cells k).refs ≠ 0
  | .close _ => True

/-! ## Soundness -/

structure Sound (s : Store κ ο) : Prop where
  /-- No reference to an empty cell. -/
  empty : ∀ k, (s.cells k).content = none → (s.cells k).refs = 0
  /-- A closing cell keeps its content for a reference only. -/
  held : ∀ k o, (s.cells k).content = some o → (s.cells k).closing = true → (s.cells k).refs ≠ 0
  /-- What a cell holds was installed in it and not disposed of. -/
  current : ∀ k o, (s.cells k).content = some o →
    (⟨k, (s.cells k).number, o⟩ : Birth κ ο) ∈ s.births ∧
    (⟨k, (s.cells k).number, o⟩ : Birth κ ο) ∉ s.disposed
  numbered : ∀ b ∈ s.births, b.number ≤ (s.cells b.key).number
  /-- What was installed is disposed of, or its cell still holds it. -/
  settled : ∀ b ∈ s.births, b ∈ s.disposed ∨
    ((s.cells b.key).content = some b.content ∧ (s.cells b.key).number = b.number)
  installed : s.disposed ⊆ s.births
  once : s.disposed.Nodup

theorem sound_of_empty (hcells : ∀ k, (s.cells k).content = none ∧ (s.cells k).refs = 0)
    (hb : s.births = []) (hd : s.disposed = []) : Sound s where
  empty k _ := (hcells k).2
  held k o h _ := by rw [(hcells k).1] at h; cases h
  current k o h := by rw [(hcells k).1] at h; cases h
  numbered b h := by rw [hb] at h; cases h
  settled b h := by rw [hb] at h; cases h
  installed := by rw [hd]; exact nil_subset _
  once := by rw [hd]; exact nodup_nil

theorem mem_disposal {k : κ} {c c' : Cell ο} :
    b ∈ Cell.disposal k c c' ↔
      c.content = some b.content ∧ c'.content = none ∧ b.key = k ∧ b.number = c.number := by
  obtain ⟨key, number, content⟩ := b
  unfold Cell.disposal
  split
  next o ho hn => grind
  next hne =>
    constructor
    · intro h; cases h
    · rintro ⟨h, h', -, -⟩
      exact absurd h' (hne _ h)

/-- Disposals of a kind never outnumber installations of that kind. -/
theorem Sound.disposed_countP_le (hs : Sound s) (p : Birth κ ο → Bool) :
    s.disposed.countP p ≤ s.births.countP p :=
  (hs.once.subperm hs.installed).countP_le p

/-- Disposed of, or waiting for the last reference. -/
def Retired (s : Store κ ο) (b : Birth κ ο) : Prop :=
  b ∈ s.disposed ∨ (s.cells b.key).closing = true

theorem Retired.disposed (hs : Sound s) (hb : b ∈ s.births)
    (hr : Retired s b) (hrefs : (s.cells b.key).refs = 0) : b ∈ s.disposed := by
  rcases hr with hd | hc
  · exact hd
  · rcases hs.settled b hb with hd | ⟨ho, -⟩
    · exact hd
    · exact absurd hrefs (hs.held b.key b.content ho hc)

variable [DecidableEq κ]

/-- A cell whose content stays or goes, with its number kept: the one argument behind drops, takes
and closes. -/
theorem Sound.become (hs : Sound s) (k : κ) {c : Cell ο}
    (hnumber : c.number = (s.cells k).number)
    (hcontent : c.content = (s.cells k).content ∨ c.content = none)
    (hempty : c.content = none → c.refs = 0)
    (hheld : ∀ o, c.content = some o → c.closing = true → c.refs ≠ 0) : Sound (s.become k c) := by
  have hcells : ∀ j, (s.become k c).cells j = if j = k then c else s.cells j := fun j => by
    simp only [Store.become, update_apply]
  have hbirths : (s.become k c).births = s.births := rfl
  have hdisposed : ∀ b, b ∈ (s.become k c).disposed ↔ b ∈ s.disposed ∨
      ((s.cells k).content = some b.content ∧ c.content = none ∧ b.key = k ∧
        b.number = (s.cells k).number) := fun b => by
    simp only [Store.become, mem_append, mem_disposal]
  refine ⟨?_, ?_, ?_, ?_, ?_, ?_, ?_⟩
  · intro j hj
    have := hs.empty j
    grind
  · intro j o hj hclosing
    have := hs.held j
    grind
  · intro j o hj
    have := hs.current j o
    have := hs.current k o
    rw [hbirths, hdisposed]
    grind
  · intro b hb
    have := hs.numbered b hb
    grind
  · intro b hb
    have hold := hs.settled b hb
    rw [hdisposed, hcells]
    -- the birth the cell held is disposed of exactly when the content goes
    rcases hold with hd | ⟨hc, hn⟩
    · exact .inl (.inl hd)
    · grind
  · intro b hb
    rw [hdisposed] at hb
    rcases hb with hb | ⟨ho, -, hk, hn⟩
    · exact hs.installed hb
    · have := (hs.current k b.content ho).1
      rwa [← hn, ← hk] at this
  · refine Nodup.append hs.once ?_ ?_
    · unfold Cell.disposal
      split
      · exact nodup_singleton _
      · exact nodup_nil
    · intro b hb hnew
      obtain ⟨ho, -, hk, hn⟩ := mem_disposal.mp hnew
      have := (hs.current k b.content ho).2
      rw [← hn, ← hk] at this
      exact this hb

theorem Sound.install (hs : Sound s) {k : κ} {o : ο}
    (hempty : (s.cells k).content = none) : Sound (step s (.install k o)) := by
  have hfresh : (⟨k, (s.cells k).number + 1, o⟩ : Birth κ ο) ∉ s.disposed := by
    intro h
    have := hs.numbered _ (hs.installed h)
    simp only at this
    omega
  have hcells : ∀ j, (step s (.install k o)).cells j =
      if j = k then (s.cells k).install o else s.cells j := fun j => by
    simp only [step, update_apply]
  have hbirths : ∀ b, b ∈ (step s (.install k o)).births ↔
      b ∈ s.births ∨ b = ⟨k, (s.cells k).number + 1, o⟩ := fun b => by
    simp only [step, mem_append, mem_singleton]
  have hdisposed : (step s (.install k o)).disposed = s.disposed := rfl
  have hrefs := hs.empty k hempty
  refine ⟨?_, ?_, ?_, ?_, ?_, ?_, hs.once⟩
  · intro j hj
    have := hs.empty j
    grind [Cell.install]
  · intro j o' hj hclosing
    have := hs.held j
    grind [Cell.install]
  · intro j o' hj
    have := hs.current j o'
    rw [hbirths, hdisposed]
    grind [Cell.install]
  · intro b hb
    have := hs.numbered b
    grind [Cell.install]
  · intro b hb
    have := hs.settled b
    rw [hdisposed]
    grind [Cell.install]
  · intro b hb
    exact (hbirths b).mpr (.inl (hs.installed hb))

theorem Sound.step (hs : Sound s) {op : Op κ ο} (hop : Legal s op) :
    Sound (step s op) := by
  cases op with
  | install k o => exact hs.install hop
  | take k =>
    obtain ⟨hne, hopen⟩ := hop
    have htake := hs.become k (c := (s.cells k).take) rfl (.inl rfl) (fun h => absurd h hne)
      (fun _ _ hc => by rw [show ((s.cells k).take).closing = (s.cells k).closing from rfl, hopen] at hc
                        cases hc)
    have hnone : Cell.disposal k (s.cells k) (s.cells k).take = [] := by
      rw [eq_nil_iff_forall_not_mem]
      intro b hb
      exact hne (mem_disposal.mp hb).2.1
    rwa [Store.become, hnone, append_nil] at htake
  | drop k =>
    refine hs.become k rfl ?_ ?_ ?_
    · by_cases h : (s.cells k).closing = true ∧ (s.cells k).refs = 1
      · exact .inr (if_pos h)
      · exact .inl (if_neg h)
    · intro h
      have := hs.empty k
      grind [Cell.drop, Legal]
    · intro o h hc
      have := hs.held k o
      grind [Cell.drop, Legal]
  | close k =>
    refine hs.become k rfl ?_ ?_ ?_
    · by_cases h : (s.cells k).refs = 0
      · exact .inr (if_pos h)
      · exact .inl (if_neg h)
    · intro h
      have := hs.empty k
      grind [Cell.close]
    · intro o h hc
      grind [Cell.close]

/-! ## Retirement -/

theorem Retired.step (hs : Sound s) (hb : b ∈ s.births)
    (hr : Retired s b) {op : Op κ ο} (hop : Legal s op) : Retired (step s op) b := by
  rcases hr with hd | hc
  · left
    cases op <;> simp [Lifetime.step, Store.become, hd]
  cases op with
  | install k o =>
    by_cases hk : b.key = k
    · -- an installation finds the cell empty, so `b` is gone already
      rcases hs.settled b hb with hd | ⟨ho, -⟩
      · exact .inl hd
      · rw [hk, show (s.cells k).content = none from hop] at ho
        cases ho
    · right
      simpa [Lifetime.step, update_of_ne hk] using hc
  | take k => right; by_cases hk : b.key = k <;> simp_all [Lifetime.step, Cell.take]
  | drop k => right; by_cases hk : b.key = k <;> simp_all [Lifetime.step, Store.become, Cell.drop]
  | close k => right; by_cases hk : b.key = k <;> simp_all [Lifetime.step, Store.become, Cell.close]

theorem births_subset_step (s : Store κ ο) (op : Op κ ο) : s.births ⊆ (step s op).births := by
  cases op with
  | install k o => exact subset_append_left _ _
  | take | drop | close => exact Subset.refl _

/-- Over a legal run the store stays sound, forgets no installation, and what was retired stays so. -/
theorem Sound.run (hs : Sound s) {ops : List (Op κ ο)}
    (hops : Each Lifetime.step Legal s ops) :
    Sound (run Lifetime.step s ops) ∧ s.births ⊆ (run Lifetime.step s ops).births ∧
      ∀ b ∈ s.births, Retired s b → Retired (run Lifetime.step s ops) b := by
  induction ops generalizing s with
  | nil => exact ⟨hs, Subset.refl _, fun _ _ h => h⟩
  | cons op ops ih =>
    obtain ⟨hop, hrest⟩ := hops
    obtain ⟨hsound, hsub, hretired⟩ := ih (hs.step hop) hrest
    have hone := births_subset_step s op
    exact ⟨hsound, Subset.trans hone hsub, fun b hb hr => hretired b (hone hb) (hr.step hs hb hop)⟩

/-! ## Runs over distinct cells -/

theorem run_close (s : Store κ ο) {ks : List κ} (hks : ks.Nodup) :
    run step s (ks.map .close) =
      { s with
        cells := fun k => if k ∈ ks then (s.cells k).close else s.cells k
        disposed := s.disposed ++
          ks.flatMap fun k => Cell.disposal k (s.cells k) (s.cells k).close } := by
  induction ks generalizing s with
  | nil => simp
  | cons k ks ih =>
    obtain ⟨hk, hks⟩ := nodup_cons.mp hks
    have hother : ∀ j ∈ ks, (step s (.close k)).cells j = s.cells j := fun j hj =>
      update_of_ne (fun h : j = k => hk (h ▸ hj)) _ _
    rw [map_cons, run_cons, ih _ hks]
    simp only [step, Store.become, Store.mk.injEq, true_and]
    refine ⟨?_, ?_⟩
    · funext j
      by_cases hj : j = k
      · subst hj
        simp [hk]
      · simp [hj]
    · rw [flatMap_cons, append_assoc]
      congr 2
      refine flatMap_congr fun j hj => ?_
      have := hother j hj
      simp only [step, Store.become] at this
      rw [this]

theorem run_install (s : Store κ ο) {ks : List κ} (o : κ → ο) (hks : ks.Nodup) :
    run step s (ks.map fun k => .install k (o k)) =
      { s with
        cells := fun k => if k ∈ ks then (s.cells k).install (o k) else s.cells k
        births := s.births ++ ks.map fun k => ⟨k, (s.cells k).number + 1, o k⟩ } := by
  induction ks generalizing s with
  | nil => simp
  | cons k ks ih =>
    obtain ⟨hk, hks⟩ := nodup_cons.mp hks
    rw [map_cons, run_cons, ih _ hks]
    simp only [step, Store.mk.injEq, and_true]
    refine ⟨?_, ?_⟩
    · funext j
      by_cases hj : j = k
      · subst hj
        simp [hk]
      · simp [hj]
    · rw [map_cons, append_assoc, singleton_append]
      congr 2
      refine map_congr_left fun j hj => ?_
      rw [update_of_ne (fun h : j = k => hk (h ▸ hj))]

theorem each_close (s : Store κ ο) (ks : List κ) : Each step Legal s (ks.map .close) := by
  induction ks generalizing s with
  | nil => trivial
  | cons k ks ih => exact ⟨trivial, ih _⟩

theorem each_install (s : Store κ ο) {ks : List κ} (o : κ → ο) (hks : ks.Nodup)
    (hempty : ∀ k ∈ ks, (s.cells k).content = none) :
    Each step Legal s (ks.map fun k => .install k (o k)) := by
  induction ks generalizing s with
  | nil => trivial
  | cons k ks ih =>
    obtain ⟨hk, hks⟩ := nodup_cons.mp hks
    refine ⟨hempty k mem_cons_self, ih _ hks fun j hj => ?_⟩
    simp only [step]
    rw [update_of_ne (fun h : j = k => hk (h ▸ hj))]
    exact hempty j (mem_cons_of_mem k hj)

end KernelBoot.Lib.Lifetime
