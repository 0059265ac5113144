import KernelBoot.Lib.Linked

/-!
# Doubly linked lists

A list whose nodes hold the addresses of both neighbours: following `next` from `head` visits the
list, and following `prev` from `tail` visits it backwards. Both directions are chains in the sense
of `Lib.Linked`, so an edit is proved for one direction and used for both.
-/

namespace KernelBoot.Lib

open List

variable {α : Type*} {next next' prev prev' : α → Option α} {p p' q head head' tail tail' : Option α}
variable {l m : List α} {a : α}

/-! ## One direction -/

theorem Linked.start (h : Linked next p l none) : p = l.head? := by
  cases l with
  | nil => exact h
  | cons a l => exact h.1

/-- A chain without one of its addresses: the one before it, or the start, leads past it. -/
theorem Linked.skip [DecidableEq α] (h : Linked next p (l ++ a :: m) none)
    (hnext : ∀ c, c ≠ a → next' c = if l.getLast? = some c then next a else next c)
    (hstart : p' = if l.getLast? = none then next a else p) : Linked next' p' (l ++ m) none := by
  rcases eq_nil_or_concat l with rfl | ⟨k, b, rfl⟩
  · rw [hstart, if_pos getLast?_nil]
    have hout := (nodup_cons.mp h.nodup).1
    refine h.2.congr fun c hc => ?_
    rw [hnext c (ne_of_mem_of_not_mem hc hout), getLast?_nil, if_neg (Option.some_ne_none c).symm]
  have hlast : (k ++ [b]).getLast? = some b := getLast?_concat
  rw [concat_eq_append] at h hnext hstart ⊢
  rw [hlast] at hnext hstart
  rw [append_assoc, singleton_append] at h
  have hba : b ≠ a := by
    have hnodup := (nodup_append.mp h.nodup).2.1
    rintro rfl
    exact (nodup_cons.mp hnodup).1 mem_cons_self
  rw [hstart, if_neg (Option.some_ne_none b), append_assoc, singleton_append]
  refine h.unlink ?_ fun c hcb hca => ?_
  · rw [hnext b hba, if_pos rfl]
  · rw [hnext c hca, if_neg fun heq => hcb (Option.some.inj heq).symm]

/-- A chain with an address after its last one. -/
theorem Linked.concat [DecidableEq α] (h : Linked next p l none) (ha : next' a = none)
    (hnext : ∀ c ∈ l, next' c = if l.getLast? = some c then some a else next c)
    (hstart : p' = if l.getLast? = none then some a else p) : Linked next' p' (l ++ [a]) none := by
  rcases eq_nil_or_concat l with rfl | ⟨k, b, rfl⟩
  · rw [hstart, if_pos getLast?_nil]
    exact ⟨rfl, ha⟩
  have hlast : (k ++ [b]).getLast? = some b := getLast?_concat
  rw [concat_eq_append] at h hnext hstart ⊢
  rw [hlast] at hnext hstart
  rw [hstart, if_neg (Option.some_ne_none b), linked_middle]
  obtain ⟨hk, _⟩ := linked_middle.mp h
  have hdisjoint := (nodup_append.mp h.nodup).2.2
  refine ⟨linked_middle.mpr ⟨hk.congr fun c hc => ?_, ?_⟩, ha⟩
  · have hcb : c ≠ b := hdisjoint c hc b mem_cons_self
    rw [hnext c (mem_append_left _ hc), if_neg fun heq => hcb (Option.some.inj heq).symm]
  · rw [hnext b (mem_append_right _ mem_cons_self), if_pos rfl]
    rfl

/-! ## Both directions -/

structure DoublyLinked (next prev : α → Option α) (head tail : Option α) (l : List α) : Prop where
  forward : Linked next head l none
  backward : Linked prev tail l.reverse none

theorem DoublyLinked.nil : DoublyLinked next prev none none [] := ⟨rfl, rfl⟩

section

variable (h : DoublyLinked next prev head tail l)

include h

theorem DoublyLinked.congr (hnext : ∀ c ∈ l, next' c = next c) (hprev : ∀ c ∈ l, prev' c = prev c) :
    DoublyLinked next' prev' head tail l :=
  ⟨h.forward.congr hnext, h.backward.congr fun c hc => hprev c (mem_reverse.mp hc)⟩

theorem DoublyLinked.head_eq : head = l.head? :=
  h.forward.start

theorem DoublyLinked.tail_eq : tail = l.getLast? := by
  rw [h.backward.start, head?_reverse]

theorem DoublyLinked.nodup : l.Nodup := h.forward.nodup

end

/-- The neighbours of an address in the list. -/
theorem DoublyLinked.neighbours (h : DoublyLinked next prev head tail (l ++ a :: m)) :
    prev a = l.getLast? ∧ next a = m.head? := by
  have hbackward := h.backward
  rw [reverse_append, reverse_cons, append_assoc, singleton_append,
    linked_middle] at hbackward
  refine ⟨?_, (linked_middle.mp h.forward).2.start⟩
  rw [hbackward.2.start, head?_reverse]

/-- Appending an address. -/
theorem DoublyLinked.concat [DecidableEq α] (h : DoublyLinked next prev head tail l)
    (ha : next' a = none) (hprev : prev' a = tail)
    (hnext : ∀ c ∈ l, next' c = if tail = some c then some a else next c)
    (hprevs : ∀ c ∈ l, prev' c = prev c)
    (hhead : head' = if tail = none then some a else head) :
    DoublyLinked next' prev' head' (some a) (l ++ [a]) := by
  rw [h.tail_eq] at hnext hhead
  refine ⟨h.forward.concat ha hnext hhead, ?_⟩
  rw [reverse_append, reverse_singleton, singleton_append]
  refine ⟨rfl, ?_⟩
  rw [hprev]
  exact h.backward.congr fun c hc => hprevs c (mem_reverse.mp hc)

/-- Taking an address out: its neighbours, or the ends of the list, are linked past it. -/
theorem DoublyLinked.unlink [DecidableEq α] (h : DoublyLinked next prev head tail (l ++ a :: m))
    (hnext : ∀ c, c ≠ a → next' c = if prev a = some c then next a else next c)
    (hprev : ∀ c, c ≠ a → prev' c = if next a = some c then prev a else prev c)
    (hhead : head' = if prev a = none then next a else head)
    (htail : tail' = if next a = none then prev a else tail) :
    DoublyLinked next' prev' head' tail' (l ++ m) := by
  obtain ⟨hbefore, hafter⟩ := h.neighbours
  rw [hbefore] at hnext hhead
  rw [hafter, ← getLast?_reverse] at hprev htail
  refine ⟨h.forward.skip hnext hhead, ?_⟩
  have hbackward := h.backward
  rw [reverse_append, reverse_cons, append_assoc, singleton_append] at hbackward
  rw [reverse_append]
  exact hbackward.skip hprev htail

end KernelBoot.Lib
