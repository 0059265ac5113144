import Mathlib.Data.List.Nodup
import Mathlib.Logic.Relation

/-!
# Following links

A link leads from an address to the next one, or to nothing. `Linked next p l q`: following the links
from `p` visits the addresses `l` in turn and arrives at `q`. The same notion serves for a list whose
nodes hold the address of their successor, and for the climb from a node to the root of its tree.
Where the links end (`q = none`) no address is visited twice, so a walk with enough fuel sees them
all.
-/

namespace KernelBoot.Lib

open List

variable {α : Type*}

/-- Following `next` from `p` visits `l` and arrives at `q`. -/
def Linked (next : α → Option α) : Option α → List α → Option α → Prop
  | p, [], q => p = q
  | p, a :: l, q => p = some a ∧ Linked next (next a) l q

/-- The addresses visited in at most `fuel` steps. -/
def follow (next : α → Option α) : Nat → Option α → List α
  | 0, _ => []
  | _ + 1, none => []
  | fuel + 1, some a => a :: follow next fuel (next a)

variable {next next' : α → Option α} {p q : Option α} {l m : List α} {a b : α}

theorem linked_append :
    Linked next p (l ++ m) q ↔ ∃ r, Linked next p l r ∧ Linked next r m q := by
  induction l generalizing p with
  | nil =>
    constructor
    · exact fun h => ⟨p, rfl, h⟩
    · rintro ⟨r, rfl, h⟩
      exact h
  | cons a l ih =>
    simp only [cons_append, Linked, ih]
    constructor
    · rintro ⟨hp, r, hl, hm⟩
      exact ⟨r, ⟨hp, hl⟩, hm⟩
    · rintro ⟨r, ⟨hp, hl⟩, hm⟩
      exact ⟨hp, r, hl, hm⟩

/-- A chain with one of its addresses in view. -/
theorem linked_middle :
    Linked next p (l ++ a :: m) q ↔ Linked next p l (some a) ∧ Linked next (next a) m q := by
  rw [linked_append]
  constructor
  · rintro ⟨r, hl, rfl, hm⟩
    exact ⟨hl, hm⟩
  · rintro ⟨hl, hm⟩
    exact ⟨some a, hl, rfl, hm⟩

/-- Only the links of the visited addresses matter. -/
theorem Linked.congr (h : Linked next p l q) (hagree : ∀ a ∈ l, next' a = next a) :
    Linked next' p l q := by
  induction l generalizing p with
  | nil => exact h
  | cons a l ih =>
    refine ⟨h.1, ?_⟩
    rw [hagree a mem_cons_self]
    exact ih h.2 fun b hb => hagree b (mem_cons_of_mem a hb)

theorem Linked.unique (hl : Linked next p l none) (hm : Linked next p m none) : l = m := by
  induction l generalizing p m with
  | nil =>
    cases m with
    | nil => rfl
    | cons b m =>
      have hp : p = none := hl
      rw [hp] at hm
      cases hm.1
  | cons a l ih =>
    cases m with
    | nil =>
      have hp : p = none := hm
      rw [hp] at hl
      cases hl.1
    | cons b m =>
      cases hl.1.symm.trans hm.1
      rw [ih hl.2 hm.2]

/-- A chain that ends visits no address twice. -/
theorem Linked.nodup (h : Linked next p l none) : l.Nodup := by
  induction l generalizing p with
  | nil => exact nodup_nil
  | cons a l ih =>
    refine nodup_cons.mpr ⟨fun hmem => ?_, ih h.2⟩
    obtain ⟨l₁, l₂, rfl⟩ := append_of_mem hmem
    -- from its second visit on, the chain would have to repeat itself
    have hagain := (linked_middle.mp h.2).2
    have hlength := congrArg List.length (hagain.unique h.2)
    rw [length_append, length_cons] at hlength
    omega

theorem Linked.follow (h : Linked next p l none) {fuel : Nat} (hfuel : l.length ≤ fuel) :
    follow next fuel p = l := by
  induction l generalizing p fuel with
  | nil =>
    have hp : p = none := h
    rw [hp]
    cases fuel with
    | zero => rfl
    | succ fuel => rfl
  | cons a l ih =>
    obtain ⟨fuel, rfl⟩ : ∃ n, fuel = n + 1 := ⟨fuel - 1, by rw [length_cons] at hfuel; omega⟩
    rw [h.1, KernelBoot.Lib.follow, ih h.2 (Nat.le_of_succ_le_succ hfuel)]

/-! ## Taking an address out -/

/-- The last address before `a` links past it. -/
theorem Linked.unlink (h : Linked next p (l ++ b :: a :: m) none)
    (hb : next' b = next a) (hothers : ∀ c, c ≠ b → c ≠ a → next' c = next c) :
    Linked next' p (l ++ b :: m) none := by
  have hnodup := h.nodup
  obtain ⟨hl, hrest⟩ := linked_middle.mp h
  have hdisjoint := nodup_append.mp hnodup
  have hbam := nodup_cons.mp hdisjoint.2.1
  have ham := nodup_cons.mp hbam.2
  refine linked_middle.mpr ⟨hl.congr fun c hc => ?_, ?_⟩
  · exact hothers c (fun heq => hdisjoint.2.2 c hc b mem_cons_self heq)
      (fun heq => hdisjoint.2.2 c hc a (mem_cons_of_mem b mem_cons_self) heq)
  · rw [hb]
    refine hrest.2.congr fun c hc => hothers c ?_ ?_
    · rintro rfl
      exact hbam.1 (mem_cons_of_mem a hc)
    · rintro rfl
      exact ham.1 hc

/-! ## Climbing -/

/-- A climb that ends never comes back. -/
theorem Linked.no_return (h : Linked next (some a) l none) :
    ¬ Relation.TransGen (fun x y => next x = some y) a a := by
  have hshorter : ∀ b, Relation.TransGen (fun x y => next x = some y) a b →
      ∃ m, Linked next (some b) m none ∧ m.length < l.length := by
    intro b hb
    induction hb with
    | single hstep =>
      cases l with
      | nil => cases h
      | cons c l =>
        obtain ⟨hc, hrest⟩ := h
        cases hc
        rw [hstep] at hrest
        exact ⟨l, hrest, Nat.lt_succ_self _⟩
    | tail _ hstep ih =>
      obtain ⟨m, hm, hlt⟩ := ih
      cases m with
      | nil => cases hm
      | cons c m =>
        obtain ⟨hc, hrest⟩ := hm
        cases hc
        rw [hstep] at hrest
        exact ⟨m, hrest, Nat.lt_of_succ_lt hlt⟩
  intro hcycle
  obtain ⟨m, hm, hlt⟩ := hshorter a hcycle
  rw [hm.unique h] at hlt
  exact absurd hlt (Nat.lt_irrefl _)

/-- An address is linked elsewhere: climbs still end if the one from there does. -/
theorem Linked.redirect (h : Linked next p l none) {m : List α} (hm : Linked next' (next' a) m none)
    (hothers : ∀ c, c ≠ a → next' c = next c) : ∃ l', Linked next' p l' none := by
  by_cases hmem : a ∈ l
  · obtain ⟨l₁, l₂, rfl⟩ := append_of_mem hmem
    have hdisjoint := nodup_append.mp h.nodup
    refine ⟨l₁ ++ a :: m, linked_middle.mpr ⟨?_, hm⟩⟩
    exact (linked_middle.mp h).1.congr fun c hc =>
      hothers c fun heq => hdisjoint.2.2 c hc a mem_cons_self heq
  · exact ⟨l, h.congr fun c hc => hothers c fun heq => hmem (heq ▸ hc)⟩

/-- An address is linked to `b`, whose climb does not pass it: climbs still end. -/
theorem Linked.extend (h : Linked next p l none) {m : List α}
    (hm : Linked next (some b) m none) (hout : a ∉ m) (hnext : next' a = some b)
    (hothers : ∀ c, c ≠ a → next' c = next c) : ∃ l', Linked next' p l' none := by
  have hm' : Linked next' (some b) m none :=
    hm.congr fun c hc => hothers c fun heq => hout (heq ▸ hc)
  exact h.redirect (hnext ▸ hm') hothers

/-- An address loses its link: climbs still end. -/
theorem Linked.cut (h : Linked next p l none) (hnext : next' a = none)
    (hothers : ∀ c, c ≠ a → next' c = next c) : ∃ l', Linked next' p l' none :=
  h.redirect (m := []) hnext hothers

end KernelBoot.Lib
