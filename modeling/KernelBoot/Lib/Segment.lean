import Mathlib

/-!
# Linked lists that tile an interval

A memory of nodes: at an address stands an item and the address of the next node. `Segment` says that
the nodes from `p` on, linked in turn, lie end to end from address `a` to address `e`, each taking up
the width of its item, and that the last one links to `q`. Segments append, and a memory that agrees
on their nodes has them too. `At` names the item at an offset; items at different offsets do not
overlap.
-/

namespace KernelBoot.Lib

open List

variable {α : Type*}

/-- What a memory holds at node addresses. -/
structure Nodes (α : Type*) where
  item : Nat → α
  next : Nat → Nat

/-- The total width of a list of items. -/
def span (width : α → Nat) (xs : List α) : Nat := (xs.map width).sum

def Segment (width : α → Nat) (n : Nodes α) : (p a : Nat) → List α → (e q : Nat) → Prop
  | p, a, [], e, q => p = q ∧ a = e
  | p, a, x :: xs, e, q => p = a ∧ n.item a = x ∧ Segment width n (n.next a) (a + width x) xs e q

/-- The item at an offset of a list of items laid end to end. -/
def At (width : α → Nat) (xs : List α) (off : Nat) (x : α) : Prop :=
  ∃ before after, xs = before ++ x :: after ∧ span width before = off

variable {width : α → Nat}

@[simp] theorem span_nil : span width [] = 0 := rfl

@[simp] theorem span_cons (x : α) (xs : List α) :
    span width (x :: xs) = width x + span width xs := by
  simp [span]

@[simp] theorem span_append (xs ys : List α) :
    span width (xs ++ ys) = span width xs + span width ys := by
  simp [span]

/-! ## Segments -/

section Segments

variable {n : Nodes α} {p a e q : Nat} {xs ys : List α}

theorem Segment.end_eq (h : Segment width n p a xs e q) : e = a + span width xs := by
  induction xs generalizing p a with
  | nil => exact h.2.symm
  | cons x xs ih => rw [ih h.2.2, span_cons, Nat.add_assoc]

theorem segment_append :
    Segment width n p a (xs ++ ys) e q ↔
      ∃ r, Segment width n p a xs (a + span width xs) r ∧
        Segment width n r (a + span width xs) ys e q := by
  induction xs generalizing p a with
  | nil => exact ⟨fun h => ⟨p, ⟨rfl, rfl⟩, h⟩, fun ⟨r, hr, h⟩ => hr.1 ▸ h⟩
  | cons x xs ih =>
    simp only [cons_append, Segment, ih, span_cons, ← Nat.add_assoc]
    constructor
    · rintro ⟨hp, hx, r, h, h'⟩
      exact ⟨r, ⟨hp, hx, h⟩, h'⟩
    · rintro ⟨r, ⟨hp, hx, h⟩, h'⟩
      exact ⟨hp, hx, r, h, h'⟩

/-- A list with one of its nodes in view. -/
theorem segment_middle {x : α} :
    Segment width n p a (xs ++ x :: ys) e q ↔
      Segment width n p a xs (a + span width xs) (a + span width xs) ∧
      n.item (a + span width xs) = x ∧
      Segment width n (n.next (a + span width xs)) (a + span width xs + width x) ys e q := by
  rw [segment_append]
  constructor
  · rintro ⟨r, h, rfl, hx, h'⟩
    exact ⟨h, hx, h'⟩
  · rintro ⟨h, hx, h'⟩
    exact ⟨_, h, rfl, hx, h'⟩

/-- Only what the nodes of a segment hold matters to it. -/
theorem Segment.congr {n' : Nodes α} (h : Segment width n p a xs e q)
    (hagree : ∀ x, a ≤ x → x + width (n.item x) ≤ e → n'.item x = n.item x ∧ n'.next x = n.next x) :
    Segment width n' p a xs e q := by
  induction xs generalizing p a with
  | nil => exact h
  | cons x xs ih =>
    obtain ⟨hp, hx, hrest⟩ := h
    have hend := hrest.end_eq
    obtain ⟨hitem, hnext⟩ := hagree a (Nat.le_refl a) (by rw [hx]; omega)
    refine ⟨hp, hitem.trans hx, ?_⟩
    rw [hnext]
    exact ih hrest fun y hy hle => hagree y (by omega) hle

/-- One list at most lies between two addresses when every item has a width. -/
theorem Segment.unique (hwidth : ∀ x, 0 < width x) (hx : Segment width n p a xs e q)
    (hy : Segment width n p a ys e q) : xs = ys := by
  induction xs generalizing p a ys with
  | nil =>
    cases ys with
    | nil => rfl
    | cons y ys =>
      have := hy.end_eq
      have := hwidth y
      have := hx.2
      rw [span_cons] at *
      omega
  | cons x xs ih =>
    cases ys with
    | nil =>
      have := hx.end_eq
      have := hwidth x
      have := hy.2
      rw [span_cons] at *
      omega
    | cons y ys =>
      obtain ⟨-, rfl, hx⟩ := hx
      obtain ⟨-, rfl, hy⟩ := hy
      rw [ih hx hy]

end Segments

/-! ## Items at offsets -/

section Offsets

variable {xs ys : List α} {x y : α} {off off' : Nat}

theorem at_cons :
    At width (y :: ys) off x ↔ (off = 0 ∧ y = x) ∨
      (width y ≤ off ∧ At width ys (off - width y) x) := by
  constructor
  · rintro ⟨before, after, heq, hspan⟩
    cases before with
    | nil =>
      obtain ⟨rfl, rfl⟩ := cons.inj heq
      exact .inl ⟨hspan.symm, rfl⟩
    | cons b before =>
      obtain ⟨rfl, rfl⟩ := cons.inj heq
      rw [span_cons] at hspan
      exact .inr ⟨by omega, before, after, rfl, by omega⟩
  · rintro (⟨rfl, rfl⟩ | ⟨hle, before, after, rfl, hspan⟩)
    · exact ⟨[], ys, rfl, rfl⟩
    · exact ⟨y :: before, after, rfl, by rw [span_cons]; omega⟩

theorem not_at_nil : ¬ At width [] off x := by
  rintro ⟨before, after, heq, -⟩
  cases before <;> cases heq

theorem at_append :
    At width (xs ++ ys) off x ↔ At width xs off x ∨
      (span width xs ≤ off ∧ At width ys (off - span width xs) x) := by
  induction xs generalizing off with
  | nil => simp [not_at_nil]
  | cons z xs ih =>
    rw [cons_append, at_cons, at_cons, ih, span_cons, Nat.sub_sub]
    constructor
    · rintro (h | ⟨hle, h | ⟨hle', h⟩⟩)
      · exact .inl (.inl h)
      · exact .inl (.inr ⟨hle, h⟩)
      · exact .inr ⟨by omega, h⟩
    · rintro ((h | ⟨hle, h⟩) | ⟨hle, h⟩)
      · exact .inl h
      · exact .inr ⟨hle, .inl h⟩
      · exact .inr ⟨by omega, .inr ⟨by omega, h⟩⟩

/-- Items at different offsets lie apart. -/
theorem At.apart (h : At width xs off x) (h' : At width xs off' y) (hne : off ≠ off') :
    off + width x ≤ off' ∨ off' + width y ≤ off := by
  induction xs generalizing off off' with
  | nil => exact absurd h not_at_nil
  | cons z zs ih =>
    rcases at_cons.mp h with ⟨rfl, rfl⟩ | ⟨hle, hin⟩
    · rcases at_cons.mp h' with ⟨rfl, rfl⟩ | ⟨hle', -⟩
      · exact absurd rfl hne
      · exact .inl (by omega)
    · rcases at_cons.mp h' with ⟨rfl, rfl⟩ | ⟨hle', hin'⟩
      · exact .inr (by omega)
      · rcases ih hin hin' (by omega) with hlt | hlt
        · exact .inl (by omega)
        · exact .inr (by omega)

/-- Two cuts of a list at the same offset are the same cut. -/
theorem span_cut_unique (hwidth : ∀ x, 0 < width x) {zs : List α} (h : xs ++ x :: ys = zs)
    {xs' ys' : List α} (h' : xs' ++ y :: ys' = zs) (hspan : span width xs = span width xs') :
    xs = xs' ∧ x = y ∧ ys = ys' := by
  induction xs generalizing xs' zs with
  | nil =>
    cases xs' with
    | nil =>
      obtain ⟨rfl, rfl⟩ := cons.inj (h.trans h'.symm)
      exact ⟨rfl, rfl, rfl⟩
    | cons z xs' =>
      have := hwidth z
      rw [span_nil, span_cons] at hspan
      omega
  | cons w xs ih =>
    cases xs' with
    | nil =>
      have := hwidth w
      rw [span_nil, span_cons] at hspan
      omega
    | cons z xs' =>
      obtain ⟨rfl, hrest⟩ := cons.inj (h.trans h'.symm)
      obtain ⟨rfl, hx, hy⟩ := ih hrest rfl (by simpa using hspan)
      exact ⟨rfl, hx, hy⟩

/-- An offset has one item when every item has a width. -/
theorem At.unique (hwidth : ∀ x, 0 < width x) (h : At width xs off x) (h' : At width xs off y) :
    x = y := by
  obtain ⟨before, after, rfl, hspan⟩ := h
  obtain ⟨before', after', heq, hspan'⟩ := h'
  exact (span_cut_unique hwidth rfl heq.symm (hspan.trans hspan'.symm)).2.1

end Offsets

end KernelBoot.Lib
