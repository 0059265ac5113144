import Mathlib.Data.List.Infix
import Mathlib.Logic.Function.Basic

/-!
# Radix trees in a memory of tables

A memory gives every address a table of entries; an entry may name a child table. A path of indices
is followed from a root, and a table is reached or not. What makes updates local is that no table is
reached by two paths of the tree: `Separated` says so over a prefix-closed set of paths, which keeps
the entries below the last level, whose contents are data, out of the tree.

`walk_congr` is the frame rule every update rests on: a walk only depends on the entries it passes.
-/

namespace KernelBoot.Lib

open List

variable {A I E : Type*}

/-- The table a path leads to. -/
def walk (child : E → Option A) (m : A → I → E) : A → List I → Option A
  | a, [] => some a
  | a, i :: path => (child (m a i)).bind fun b => walk child m b path

/-- A set of paths that holds with each path all its prefixes. -/
def PrefixClosed (D : List I → Prop) : Prop := ∀ p q, D (p ++ q) → D p

/-- No table is reached by two paths of `D`. -/
def Separated (child : E → Option A) (m : A → I → E) (root : A) (D : List I → Prop) : Prop :=
  ∀ p q a, D p → D q → walk child m root p = some a → walk child m root q = some a → p = q

variable {child : E → Option A} {m m' : A → I → E} {root a b : A} {p q t : List I} {i : I}

theorem walk_append : walk child m root (p ++ q) =
    (walk child m root p).bind fun b => walk child m b q := by
  induction p generalizing root with
  | nil => rfl
  | cons i p ih =>
    simp only [cons_append, walk]
    cases child (m root i) with
    | none => rfl
    | some b => exact ih

theorem walk_concat : walk child m root (p ++ [i]) =
    (walk child m root p).bind fun b => child (m b i) := by
  rw [walk_append]
  simp only [walk, Option.bind_fun_some]

/-- What a path reaches, its prefixes reach. -/
theorem walk_isSome_of_append (h : (walk child m root (p ++ q)).isSome) : (walk child m root p).isSome := by
  rw [walk_append] at h
  cases hp : walk child m root p with
  | none => rw [hp] at h; exact h
  | some b => rfl

/-- A walk depends only on the children it passes. -/
theorem walk_congr (h : ∀ q i r a, p = q ++ i :: r → walk child m root q = some a →
    child (m' a i) = child (m a i)) : walk child m' root p = walk child m root p := by
  induction p using List.reverseRecOn with
  | nil => rfl
  | append_singleton p i ih =>
    have hp : walk child m' root p = walk child m root p := by
      apply ih
      intro q j r a hq
      refine h q j (r ++ [i]) a ?_
      rw [hq, append_assoc, cons_append]
    rw [walk_concat, walk_concat, hp]
    cases ha : walk child m root p with
    | none => rfl
    | some a => exact h p i [] a rfl ha

/-- Tables outside the tree may change. -/
theorem walk_congr_tables {D : List I → Prop} (hD : PrefixClosed D)
    (h : ∀ q a, D q → walk child m root q = some a → m' a = m a) (hp : D p) :
    walk child m' root p = walk child m root p := by
  apply walk_congr
  intro q i r a hq ha
  rw [h q a (hD q (i :: r) (hq ▸ hp)) ha]

section Write

variable [DecidableEq A] [DecidableEq I] {D : List I → Prop} {e : E}

/-- Store one entry. -/
def write (m : A → I → E) (a : A) (i : I) (e : E) : A → I → E :=
  Function.update m a (Function.update (m a) i e)

theorem write_here : write m a i e a i = e := by
  rw [write, Function.update_self, Function.update_self]

theorem write_apart {j : I} (h : ¬ (b = a ∧ j = i)) : write m a i e b j = m b j := by
  by_cases hb : b = a
  · subst hb
    rw [write, Function.update_self, Function.update_of_ne fun hj => h ⟨rfl, hj⟩]
  · rw [write, Function.update_of_ne hb]

theorem write_other_table (h : b ≠ a) : write m a i e b = m b := Function.update_of_ne h _ _

section

variable (hD : PrefixClosed D) (hsep : Separated child m root D) (ht : D t)
  (ha : walk child m root t = some a)

include hD hsep ht ha

/-- Storing into a table of the tree disturbs only the paths through that entry. -/
theorem walk_write_apart (hp : D p) (hnot : ¬ t ++ [i] <+: p) :
    walk child (write m a i e) root p = walk child m root p := by
  apply walk_congr
  intro q j r b hq hb
  rw [write_apart]
  rintro ⟨rfl, rfl⟩
  -- the table written to is reached by `t` only, so the path goes through the entry itself
  have hqt : q = t := hsep q t b (hD q (j :: r) (hq ▸ hp)) ht hb ha
  apply hnot
  rw [hq, hqt]
  exact ⟨r, by rw [append_assoc, singleton_append]⟩

theorem walk_write_here :
    walk child (write m a i e) root (t ++ [i]) = child e := by
  have hnot : ¬ t ++ [i] <+: t := by
    intro h
    have hle := h.length_le
    rw [length_append, length_singleton] at hle
    omega
  rw [walk_concat, walk_write_apart hD hsep ht ha ht hnot, ha, Option.bind_some, write_here]

/-- Below an entry that names no table, or a table without children, nothing is reached. -/
theorem walk_write_below
    (he : ∀ b, child e = some b → b ≠ a ∧ ∀ j, child (m b j) = none) {j : I} {r : List I} :
    walk child (write m a i e) root (t ++ [i] ++ j :: r) = none := by
  rw [walk_append, walk_write_here hD hsep ht ha]
  cases hb : child e with
  | none => rfl
  | some b =>
    obtain ⟨hne, hempty⟩ := he b hb
    simp only [Option.bind_some, walk, write_other_table hne, hempty j, Option.bind_none]

end

end Write

end KernelBoot.Lib
