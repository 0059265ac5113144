import KernelBoot.Lib.DoublyLinked
import KernelBoot.Sched.WaitQueue

/-!
# Wait queues are queues

`QueuesRep w L`: the linked structures of `w` are the lists `L`, one for each queue. Each operation of
the source is one on lists: `enqueue` appends, `dequeue` takes the first element, `remove` takes one
out. A node is on a list exactly when it says so, and then on the one it names, so no task is on two
queues.
-/

namespace KernelBoot.Sched

open Lib List

structure QueuesRep (w : WaitQueues) (L : QueueId → List Nat) : Prop where
  linked : ∀ q, DoublyLinked (fun t => (w.nodes t).next) (fun t => (w.nodes t).previous)
    (w.queues q).head (w.queues q).tail (L q)
  count : ∀ q, (w.queues q).count = (L q).length
  member : ∀ q t, t ∈ L q ↔ (w.nodes t).queued = true ∧ (w.nodes t).queue = some q

/-- One of the lists replaced. -/
def put (L : QueueId → List Nat) (q : QueueId) (l : List Nat) : QueueId → List Nat := fun x =>
  if x = q then l else L x

theorem put_self (L : QueueId → List Nat) (q : QueueId) (l : List Nat) : put L q l q = l := if_pos rfl

theorem put_ne (L : QueueId → List Nat) {q x : QueueId} (l : List Nat) (hx : x ≠ q) :
    put L q l x = L x := if_neg hx

variable {w : WaitQueues} {L : QueueId → List Nat} {q : QueueId} {a : Nat}

theorem QueuesRep.initial : QueuesRep .initial fun _ => [] := by
  refine ⟨fun q => DoublyLinked.nil, fun q => rfl, fun q t => ⟨fun hno => ?_, fun hno => ?_⟩⟩
  · exact absurd hno not_mem_nil
  · cases hno.1

theorem QueuesRep.queued_of_mem (h : QueuesRep w L) (ha : a ∈ L q) : w.isQueued a = true :=
  ((h.member q a).mp ha).1

theorem QueuesRep.not_mem (h : QueuesRep w L) (ha : w.isQueued a = false) (q : QueueId) :
    a ∉ L q := by
  intro hmem
  rw [h.queued_of_mem hmem] at ha
  cases ha

/-- A task is on one queue at most. -/
theorem QueuesRep.same_queue (h : QueuesRep w L) {r : QueueId} (hq : a ∈ L q) (hr : a ∈ L r) :
    q = r :=
  Option.some.inj (((h.member q a).mp hq).2.symm.trans ((h.member r a).mp hr).2)

theorem QueuesRep.nodup (h : QueuesRep w L) (q : QueueId) : (L q).Nodup := (h.linked q).nodup

/-! ## Reading after an update -/

section Updates

variable {x : Nat} {r : QueueId} {f : WaitNode → WaitNode} {g : WaitQueue → WaitQueue}

theorem setNode_self : (w.setNode a f).nodes a = f (w.nodes a) := if_pos rfl

theorem setNode_ne (w : WaitQueues) (hx : x ≠ a) : (w.setNode a f).nodes x = w.nodes x := if_neg hx

theorem setNode_queues : (w.setNode a f).queues = w.queues := rfl

theorem setQueue_self : (w.setQueue q g).queues q = g (w.queues q) := if_pos rfl

theorem setQueue_ne (w : WaitQueues) (hr : r ≠ q) : (w.setQueue q g).queues r = w.queues r :=
  if_neg hr

theorem setQueue_nodes : (w.setQueue q g).nodes = w.nodes := rfl

theorem relink_nodes (neighbour : Option Nat) : (w.relink neighbour q f g).nodes x =
    if neighbour = some x then f (w.nodes x) else w.nodes x := by
  cases neighbour with
  | none => rfl
  | some b =>
    by_cases hx : x = b
    · subst hx
      rw [if_pos rfl]
      exact setNode_self
    · rw [if_neg fun heq => hx (Option.some.inj heq).symm]
      exact setNode_ne w hx

theorem relink_queues (neighbour : Option Nat) : (w.relink neighbour q f g).queues r =
    if neighbour = none ∧ r = q then g (w.queues r) else w.queues r := by
  cases neighbour with
  | none =>
    by_cases hr : r = q
    · subst hr
      rw [if_pos ⟨rfl, rfl⟩]
      exact setQueue_self
    · rw [if_neg fun hno => hr hno.2]
      exact setQueue_ne w hr
  | some b =>
    rw [if_neg fun hno => Option.some_ne_none b hno.1]
    rfl

end Updates

/-! ## Appending -/

theorem enqueue_refused (ha : w.isQueued a = true) : w.enqueue q a = (false, w) := if_pos ha

/-- The fields after an enqueue. -/
structure Enqueued (w w' : WaitQueues) (q : QueueId) (a : Nat) : Prop where
  self : w'.nodes a =
    { previous := (w.queues q).tail, next := none, queue := some q, queued := true }
  next : ∀ x, x ≠ a →
    (w'.nodes x).next = if (w.queues q).tail = some x then some a else (w.nodes x).next
  others : ∀ x, x ≠ a → (w'.nodes x).previous = (w.nodes x).previous ∧
    (w'.nodes x).queue = (w.nodes x).queue ∧ (w'.nodes x).queued = (w.nodes x).queued
  queue : w'.queues q =
    { head := if (w.queues q).tail = none then some a else (w.queues q).head
      tail := some a
      count := (w.queues q).count + 1 }
  queues : ∀ r, r ≠ q → w'.queues r = w.queues r

theorem enqueue_accepted (ha : w.isQueued a = false) (htail : (w.queues q).tail ≠ some a) :
    ∃ w', w.enqueue q a = (true, w') ∧ Enqueued w w' q a := by
  rw [WaitQueues.enqueue, if_neg (by rw [ha]; exact Bool.false_ne_true)]
  refine ⟨_, rfl, ?_, fun x hx => ?_, fun x hx => ?_, ?_, fun r hr => ?_⟩
  · rw [setQueue_nodes, relink_nodes, if_neg htail, setNode_self]
  · rw [setQueue_nodes, relink_nodes, setNode_ne _ hx]
    split
    next => rfl
    next => rfl
  · rw [setQueue_nodes, relink_nodes, setNode_ne _ hx]
    split
    next => exact ⟨rfl, rfl, rfl⟩
    next => exact ⟨rfl, rfl, rfl⟩
  · rw [setQueue_self, relink_queues]
    by_cases hempty : (w.queues q).tail = none
    · rw [if_pos ⟨hempty, rfl⟩, if_pos hempty]
      rfl
    · rw [if_neg fun hno => hempty hno.1, if_neg hempty]
      rfl
  · rw [setQueue_ne _ hr, relink_queues, if_neg fun hno => hr hno.2]
    rfl

theorem QueuesRep.tail_ne (h : QueuesRep w L) (ha : w.isQueued a = false) :
    (w.queues q).tail ≠ some a := by
  intro htail
  rw [(h.linked q).tail_eq] at htail
  exact h.not_mem ha q (mem_of_getLast? htail)

/-- An enqueue appends to one list. -/
theorem QueuesRep.enqueue (h : QueuesRep w L) (ha : w.isQueued a = false) (q : QueueId) :
    ∃ w', w.enqueue q a = (true, w') ∧ QueuesRep w' (put L q (L q ++ [a])) := by
  obtain ⟨w', hw', he⟩ := enqueue_accepted ha (h.tail_ne (q := q) ha)
  have hout : ∀ r x, x ∈ L r → x ≠ a := fun r x hx heq => h.not_mem ha r (heq ▸ hx)
  refine ⟨w', hw', fun r => ?_, fun r => ?_, fun r t => ?_⟩
  · by_cases hr : r = q
    · subst hr
      rw [put_self, he.queue]
      refine (h.linked r).concat ?_ ?_ (fun c hc => ?_) (fun c hc => ?_) rfl
      · rw [he.self]
      · rw [he.self]
      · exact he.next c (hout r c hc)
      · exact (he.others c (hout r c hc)).1
    · rw [put_ne L _ hr, he.queues r hr]
      refine (h.linked r).congr (fun c hc => ?_) fun c hc => (he.others c (hout r c hc)).1
      -- the last node of `q` is on no other queue
      rw [he.next c (hout r c hc), if_neg]
      intro hlast
      rw [(h.linked q).tail_eq] at hlast
      exact hr (h.same_queue hc (mem_of_getLast? hlast))
  · by_cases hr : r = q
    · rw [hr, put_self, he.queue, length_append, length_singleton, ← h.count q]
    · rw [put_ne L _ hr, he.queues r hr, h.count r]
  · by_cases ht : t = a
    · subst ht
      rw [he.self]
      by_cases hr : r = q
      · rw [hr, put_self]
        exact ⟨fun _ => ⟨rfl, rfl⟩, fun _ => mem_append_right _ mem_cons_self⟩
      · rw [put_ne L _ hr]
        exact ⟨fun hno => absurd hno (h.not_mem ha r),
          fun hno => absurd (Option.some.inj hno.2).symm hr⟩
    · obtain ⟨_, hqueue, hqueued⟩ := he.others t ht
      rw [hqueue, hqueued, ← h.member r t]
      by_cases hr : r = q
      · rw [hr, put_self, mem_append, mem_singleton, or_iff_left ht]
      · rw [put_ne L _ hr]

/-! ## Taking out -/

/-- The fields after an unlink. -/
structure Unlinked (w w' : WaitQueues) (q : QueueId) (a : Nat) : Prop where
  self : (w'.nodes a).queued = false
  next : ∀ x, x ≠ a →
    (w'.nodes x).next = if (w.nodes a).previous = some x then (w.nodes a).next else (w.nodes x).next
  previous : ∀ x, x ≠ a → (w'.nodes x).previous =
    if (w.nodes a).next = some x then (w.nodes a).previous else (w.nodes x).previous
  others : ∀ x, x ≠ a → (w'.nodes x).queue = (w.nodes x).queue ∧
    (w'.nodes x).queued = (w.nodes x).queued
  queue : w'.queues q =
    { head := if (w.nodes a).previous = none then (w.nodes a).next else (w.queues q).head
      tail := if (w.nodes a).next = none then (w.nodes a).previous else (w.queues q).tail
      count := (w.queues q).count - 1 }
  queues : ∀ r, r ≠ q → w'.queues r = w.queues r

theorem unlinkNode_fields (w : WaitQueues) (q : QueueId) (a : Nat) :
    Unlinked w (w.unlinkNode q a) q a := by
  have hnode : ∀ x, x ≠ a → (w.unlinkNode q a).nodes x =
      { w.nodes x with
        next := if (w.nodes a).previous = some x then (w.nodes a).next else (w.nodes x).next
        previous :=
          if (w.nodes a).next = some x then (w.nodes a).previous else (w.nodes x).previous } := by
    intro x hx
    rw [WaitQueues.unlinkNode, setQueue_nodes, setNode_ne _ hx, relink_nodes, relink_nodes]
    by_cases hnext : (w.nodes a).next = some x
    · rw [if_pos hnext, if_pos hnext]
      by_cases hprevious : (w.nodes a).previous = some x
      · rw [if_pos hprevious, if_pos hprevious]
      · rw [if_neg hprevious, if_neg hprevious]
    · rw [if_neg hnext, if_neg hnext]
      by_cases hprevious : (w.nodes a).previous = some x
      · rw [if_pos hprevious, if_pos hprevious]
      · rw [if_neg hprevious, if_neg hprevious]
  refine ⟨?_, fun x hx => ?_, fun x hx => ?_, fun x hx => ?_, ?_, fun r hr => ?_⟩
  · rw [WaitQueues.unlinkNode, setQueue_nodes, setNode_self]
  · rw [hnode x hx]
  · rw [hnode x hx]
  · rw [hnode x hx]
    exact ⟨rfl, rfl⟩
  · rw [WaitQueues.unlinkNode, setQueue_self, setNode_queues, relink_queues, relink_queues]
    by_cases hnext : (w.nodes a).next = none
    · rw [if_pos ⟨hnext, rfl⟩, if_pos hnext]
      by_cases hprevious : (w.nodes a).previous = none
      · rw [if_pos ⟨hprevious, rfl⟩, if_pos hprevious]
      · rw [if_neg fun hno => hprevious hno.1, if_neg hprevious]
    · rw [if_neg fun hno => hnext hno.1, if_neg hnext]
      by_cases hprevious : (w.nodes a).previous = none
      · rw [if_pos ⟨hprevious, rfl⟩, if_pos hprevious]
      · rw [if_neg fun hno => hprevious hno.1, if_neg hprevious]
  · rw [WaitQueues.unlinkNode, setQueue_ne _ hr, setNode_queues, relink_queues,
      if_neg fun hno => hr hno.2, relink_queues, if_neg fun hno => hr hno.2]

/-- Unlinking takes a task out of its list. -/
theorem QueuesRep.unlink (h : QueuesRep w L) {l m : List Nat} (hl : L q = l ++ a :: m) :
    QueuesRep (w.unlinkNode q a) (put L q (l ++ m)) := by
  have hu := unlinkNode_fields w q a
  have hmem : a ∈ L q := by
    rw [hl]
    exact mem_append_right _ mem_cons_self
  have hnodup := h.nodup q
  have hlinked := h.linked q
  rw [hl] at hnodup hlinked
  have hout : a ∉ l ++ m := (nodup_middle.mp hnodup |> nodup_cons.mp).1
  obtain ⟨hbefore, hafter⟩ := hlinked.neighbours
  refine ⟨fun r => ?_, fun r => ?_, fun r t => ?_⟩
  · by_cases hr : r = q
    · rw [hr, put_self, hu.queue]
      exact hlinked.unlink hu.next hu.previous rfl rfl
    rw [put_ne L _ hr, hu.queues r hr]
    -- the neighbours of `a` are on its queue
    have hother : ∀ c ∈ L r, c ∉ L q := fun c hc hcq => hr (h.same_queue hc hcq)
    have hself : ∀ c ∈ L r, c ≠ a := fun c hc heq => hother c hc (heq ▸ hmem)
    refine (h.linked r).congr (fun c hc => ?_) fun c hc => ?_
    · rw [hu.next c (hself c hc), if_neg]
      intro hprevious
      rw [hbefore] at hprevious
      refine hother c hc ?_
      rw [hl]
      exact mem_append_left _ (mem_of_getLast? hprevious)
    · rw [hu.previous c (hself c hc), if_neg]
      intro hnext
      rw [hafter] at hnext
      refine hother c hc ?_
      rw [hl]
      exact mem_append_right _ (mem_cons_of_mem a (mem_of_head? hnext))
  · by_cases hr : r = q
    · rw [hr, put_self, hu.queue]
      dsimp only
      rw [h.count q, hl, length_append, length_append, length_cons]
      omega
    · rw [put_ne L _ hr, hu.queues r hr, h.count r]
  · by_cases ht : t = a
    · subst ht
      rw [hu.self]
      refine ⟨fun hin => ?_, fun hno => nomatch hno.1⟩
      by_cases hr : r = q
      · rw [hr, put_self] at hin
        exact absurd hin hout
      · rw [put_ne L _ hr] at hin
        exact absurd (h.same_queue hin hmem) hr
    · obtain ⟨hqueue, hqueued⟩ := hu.others t ht
      rw [hqueue, hqueued, ← h.member r t]
      by_cases hr : r = q
      · rw [hr, put_self, hl, mem_append, mem_append, mem_cons, or_iff_right ht]
      · rw [put_ne L _ hr]

theorem QueuesRep.dequeue_nil (h : QueuesRep w L) (hl : L q = []) : w.dequeue q = (none, w) := by
  have hhead : (w.queues q).head = none := by rw [(h.linked q).head_eq, hl, head?_nil]
  rw [WaitQueues.dequeue, hhead]

theorem QueuesRep.dequeue_cons (h : QueuesRep w L) {m : List Nat} (hl : L q = a :: m) :
    ∃ w', w.dequeue q = (some a, w') ∧ QueuesRep w' (put L q m) ∧ w'.isQueued a = false := by
  have hhead : (w.queues q).head = some a := by rw [(h.linked q).head_eq, hl, head?_cons]
  rw [WaitQueues.dequeue, hhead]
  exact ⟨_, rfl, h.unlink (l := []) hl, (unlinkNode_fields w q a).self⟩

/-- A removal from the queue the task is on. -/
theorem QueuesRep.remove (h : QueuesRep w L) (ha : a ∈ L q) :
    ∃ l m w', L q = l ++ a :: m ∧ w.remove q a = (true, w') ∧ QueuesRep w' (put L q (l ++ m)) := by
  obtain ⟨l, m, hl⟩ := append_of_mem ha
  obtain ⟨hqueued, hqueue⟩ := (h.member q a).mp ha
  refine ⟨l, m, w.unlinkNode q a, hl, ?_, h.unlink hl⟩
  rw [WaitQueues.remove, hqueued, hqueue, decide_eq_true rfl]
  rfl

end KernelBoot.Sched
