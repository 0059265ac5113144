import KernelBoot.Laws.Sched.WaitQueue
import KernelBoot.Sched.Scheduler

/-!
# Where the tasks are

`Placed s L cpu loose` accounts for every task but the idle one: by its state it is on the ready
queue, on a wait queue, the one task `cpu` that has been chosen to run, or the one task `loose` that
is blocked and has been taken off its queue again. `cpu` is the current task except between the steps
of a function of the scheduler.

Each section of the scheduler changes one task and at most two lists, so for each there is one lemma
here, by `Placed.change`. The idle task may be anywhere: it is what `scheduler_next` falls back on,
whether or not it is on a queue.
-/

namespace KernelBoot.Sched

open Lib List

/-- The place of one task. -/
def TaskOk (s : Scheduler) (L : QueueId → List Nat) (cpu loose : Option Nat) (t : Nat) : Prop :=
  match s.state t with
  | .ready => cpu ≠ some t ∧ loose ≠ some t ∧ (∀ n, t ∉ L (.wait n)) ∧
      (t ∈ L .ready ∨ s.started t = false)
  | .running => cpu = some t ∧ loose ≠ some t ∧ ∀ q, t ∉ L q
  | .blocked => cpu ≠ some t ∧ t ∉ L .ready ∧
      ((loose ≠ some t ∧ ∃ n, t ∈ L (.wait n)) ∨ (loose = some t ∧ ∀ q, t ∉ L q))
  | .terminated => cpu ≠ some t ∧ loose ≠ some t ∧ ∀ q, t ∉ L q

structure Placed (s : Scheduler) (L : QueueId → List Nat) (cpu loose : Option Nat) : Prop where
  queues : QueuesRep s.waits L
  tasks : ∀ t, s.idle ≠ some t → TaskOk s L cpu loose t

section Places

variable {s s' : Scheduler} {L L' : QueueId → List Nat} {cpu cpu' loose loose' : Option Nat} {t : Nat}

theorem TaskOk.congr (h : TaskOk s L cpu loose t) (hstate : s'.state t = s.state t)
    (hstarted : s'.started t = s.started t) (hlists : ∀ q, t ∈ L' q ↔ t ∈ L q)
    (hcpu : cpu' = some t ↔ cpu = some t) (hloose : loose' = some t ↔ loose = some t) :
    TaskOk s' L' cpu' loose' t := by
  unfold TaskOk at h ⊢
  rw [hstate]
  simp only [hstarted, hlists, hcpu, hloose, ne_eq]
  exact h

/-- Only the task `t` has changed. -/
theorem Placed.change (h : Placed s L cpu loose) (hidle : s'.idle = s.idle)
    (hqueues : QueuesRep s'.waits L') (t : Nat)
    (hstate : ∀ x, x ≠ t → s'.state x = s.state x)
    (hstarted : ∀ x, x ≠ t → s'.started x = s.started x)
    (hlists : ∀ x, x ≠ t → ∀ q, x ∈ L' q ↔ x ∈ L q)
    (hcpu : ∀ x, x ≠ t → (cpu' = some x ↔ cpu = some x))
    (hloose : ∀ x, x ≠ t → (loose' = some x ↔ loose = some x))
    (htask : s.idle ≠ some t → TaskOk s' L' cpu' loose' t) : Placed s' L' cpu' loose' := by
  refine ⟨hqueues, fun x hx => ?_⟩
  rw [hidle] at hx
  by_cases hxt : x = t
  · subst hxt
    exact htask hx
  · exact (h.tasks x hx).congr (hstate x hxt) (hstarted x hxt) (hlists x hxt) (hcpu x hxt)
      (hloose x hxt)

/-- What the places do not depend on. -/
theorem Placed.frame (h : Placed s L cpu loose) (hwaits : s'.waits = s.waits)
    (hstate : s'.state = s.state) (hidle : s'.idle = s.idle) (hstarted : s'.started = s.started) :
    Placed s' L cpu loose := by
  refine ⟨hwaits ▸ h.queues, fun t ht => ?_⟩
  rw [hidle] at ht
  exact (h.tasks t ht).congr (congrFun hstate t) (congrFun hstarted t) (fun q => Iff.rfl) Iff.rfl
    Iff.rfl

theorem none_ne (t : Nat) : (none : Option Nat) ≠ some t := (Option.some_ne_none t).symm

theorem some_ne {x : Nat} (hx : x ≠ t) : some t ≠ some x := fun heq => hx (Option.some.inj heq).symm

theorem setState_self (state : TaskState) : (s.setState t state).state t = state := if_pos rfl

theorem setState_ne {x : Nat} (hx : x ≠ t) (state : TaskState) :
    (s.setState t state).state x = s.state x := if_neg hx

/-! ## Membership after an edit -/

theorem mem_put_append {x : Nat} (hx : x ≠ t) (q r : QueueId) :
    x ∈ put L q (L q ++ [t]) r ↔ x ∈ L r := by
  by_cases hr : r = q
  · rw [hr, put_self, mem_append, mem_singleton, or_iff_left hx]
  · rw [put_ne L _ hr]

theorem mem_put_middle {x : Nat} (hx : x ≠ t) {q : QueueId} {l m : List Nat}
    (hl : L q = l ++ t :: m) (r : QueueId) : x ∈ put L q (l ++ m) r ↔ x ∈ L r := by
  by_cases hr : r = q
  · rw [hr, put_self, hl, mem_append, mem_append, mem_cons, or_iff_right hx]
  · rw [put_ne L _ hr]

/-- A task that is taken out is on no list any more. -/
theorem not_mem_put_middle {w : WaitQueues} (h : QueuesRep w L) {q : QueueId} {l m : List Nat}
    (hl : L q = l ++ t :: m) (r : QueueId) : t ∉ put L q (l ++ m) r := by
  have hmem : t ∈ L q := by
    rw [hl]
    exact mem_append_right _ mem_cons_self
  by_cases hr : r = q
  · rw [hr, put_self]
    have hnodup := h.nodup q
    rw [hl] at hnodup
    exact (nodup_cons.mp (nodup_middle.mp hnodup)).1
  · rw [put_ne L _ hr]
    exact fun hin => hr (h.same_queue hin hmem)

theorem mem_put_self (q : QueueId) : t ∈ put L q (L q ++ [t]) q := by
  rw [put_self]
  exact mem_append_right _ mem_cons_self

/-- A task that is appended is on that list only. -/
theorem mem_put_append_self (hout : ∀ q, t ∉ L q) (q r : QueueId) :
    t ∈ put L q (L q ++ [t]) r ↔ r = q := by
  by_cases hr : r = q
  · rw [hr]
    exact ⟨fun _ => rfl, fun _ => mem_put_self q⟩
  · rw [put_ne L _ hr]
    exact ⟨fun hin => absurd hin (hout r), fun heq => absurd heq hr⟩

/-! ## The steps -/

theorem TaskOk.not_mem_of_running (h : TaskOk s L cpu loose t) (hstate : s.state t = .running)
    (q : QueueId) : t ∉ L q := by
  rw [TaskOk, hstate] at h
  exact h.2.2 q

/-- A task that is not idle runs exactly when it has been chosen. -/
theorem Placed.running_iff (h : Placed s L cpu loose) (ht : s.idle ≠ some t) :
    s.state t = .running ↔ cpu = some t := by
  have hok := h.tasks t ht
  unfold TaskOk at hok
  cases hstate : s.state t with
  | ready | blocked | terminated =>
    rw [hstate] at hok
    exact iff_of_false TaskState.noConfusion hok.1
  | running =>
    rw [hstate] at hok
    exact ⟨fun _ => hok.1, fun _ => rfl⟩

/-- A task that waits is blocked. -/
theorem Placed.blocked_of_waiting (h : Placed s L cpu loose) {n : Nat} (ht : s.idle ≠ some t)
    (hmem : t ∈ L (.wait n)) : s.state t = .blocked ∧ cpu ≠ some t ∧ loose ≠ some t := by
  have hok := h.tasks t ht
  unfold TaskOk at hok
  cases hstate : s.state t with
  | ready =>
    rw [hstate] at hok
    exact absurd hmem (hok.2.2.1 n)
  | running | terminated =>
    rw [hstate] at hok
    exact absurd hmem (hok.2.2 _)
  | blocked =>
    rw [hstate] at hok
    rcases hok.2.2 with ⟨hloose, _⟩ | ⟨_, hout⟩
    · exact ⟨rfl, hok.1, hloose⟩
    · exact absurd hmem (hout _)

/-- The task taken off its queue is on none. -/
theorem TaskOk.not_mem_of_loose (h : TaskOk s L cpu (some t) t) (q : QueueId) : t ∉ L q := by
  unfold TaskOk at h
  cases hstate : s.state t with
  | ready | running | terminated =>
    rw [hstate] at h
    exact absurd rfl h.2.1
  | blocked =>
    rw [hstate] at h
    rcases h.2.2 with ⟨hno, _⟩ | ⟨_, hout⟩
    · exact absurd rfl hno
    · exact hout q

/-- A task is put on the ready queue. -/
theorem TaskOk.of_ready (hstate : s.state t = .ready) (hcpu : cpu ≠ some t) (hloose : loose ≠ some t)
    (hout : ∀ q, t ∉ L q) : TaskOk s (put L .ready (L .ready ++ [t])) cpu loose t := by
  rw [TaskOk, hstate]
  refine ⟨hcpu, hloose, fun n hin => ?_, .inl (mem_put_self _)⟩
  cases (mem_put_append_self hout _ _).mp hin

/-- `scheduler_enqueue` of the task that runs. -/
theorem Placed.enqueue (h : Placed s L (some t) none) (henqueue : s.enqueue t = (true, s')) :
    Placed s' (put L .ready (L .ready ++ [t])) none none ∧ s'.current = s.current ∧
      s'.saved = s.saved := by
  revert henqueue
  fun_cases s.enqueue t
  · rintro ⟨⟩
  · rintro ⟨⟩
  next w hw =>
    rintro ⟨⟩
    have hqueued : s.waits.isQueued t = false := by
      cases hq : s.waits.isQueued t with
      | false => rfl
      | true =>
        rw [enqueue_refused hq] at hw
        cases hw
    obtain ⟨w', hw', hrep⟩ := h.queues.enqueue hqueued .ready
    rw [hw] at hw'
    cases hw'
    have hout := h.queues.not_mem hqueued
    refine ⟨h.change rfl hrep t (fun x hx => setState_ne hx _) (fun x _ => rfl)
      (fun x hx q => mem_put_append hx _ q) (fun x hx => ?_) (fun x _ => Iff.rfl) fun _ => ?_,
      rfl, rfl⟩
    · exact iff_of_false (none_ne x) (some_ne hx)
    · exact TaskOk.of_ready (setState_self _) (none_ne t) (none_ne t) hout

/-- What `scheduler_next` leaves when it returns a task. -/
structure Chosen (s s' : Scheduler) (L L' : QueueId → List Nat) (n : Nat) : Prop where
  result : s.next = (some n, s')
  placed : Placed s' L' (some n) none
  current : s'.current = s.current
  idle : s'.idle = s.idle
  saved : s'.saved = s.saved
  ready : ∀ x ∈ L .ready, x = n ∨ x ∈ L' .ready

/-- `scheduler_next`: the first ready task, the idle task, or none. -/
theorem Placed.next (h : Placed s L none none) :
    (s.next = (none, s) ∧ s.idle = none ∧ L .ready = []) ∨ ∃ n s' L', Chosen s s' L L' n := by
  cases hl : L .ready with
  | cons n m =>
    obtain ⟨w, hw, hrep, _⟩ := h.queues.dequeue_cons hl
    have hmiddle : L .ready = [] ++ n :: m := hl
    refine .inr ⟨n, { s with waits := w }.setState n .running, put L .ready m, ?_, ?_, rfl, rfl,
      rfl, fun x hx => ?_⟩
    · rw [Scheduler.next, hw]
    · refine h.change rfl hrep n (fun x hx => setState_ne hx _) (fun x _ => rfl)
        (fun x hx q => mem_put_middle hx hmiddle q)
        (fun x hx => iff_of_false (some_ne hx) (none_ne x)) (fun x _ => Iff.rfl) fun _ => ?_
      rw [TaskOk, setState_self]
      exact ⟨rfl, none_ne n, not_mem_put_middle h.queues hmiddle⟩
    · rw [hl, mem_cons] at hx
      rw [put_self]
      exact hx
  | nil =>
    rw [Scheduler.next, h.queues.dequeue_nil hl]
    cases hidle : s.idle with
    | none => exact .inl ⟨rfl, rfl, rfl⟩
    | some n =>
      refine .inr ⟨n, s.setState n .running, L, ?_, ?_, rfl, rfl, rfl, fun x hx => .inr hx⟩
      · rw [Scheduler.next, h.queues.dequeue_nil hl, hidle]
      · exact h.change rfl h.queues n (fun x hx => setState_ne hx _) (fun x _ => rfl)
          (fun x _ q => Iff.rfl) (fun x hx => iff_of_false (some_ne hx) (none_ne x))
          (fun x _ => Iff.rfl) fun hno => absurd hidle hno

/-- `scheduler_set_current` of the task that has been chosen. -/
theorem Placed.setCurrent (h : Placed s L (some t) none) : Placed (s.setCurrent t) L (some t) none := by
  refine h.change rfl h.queues t (fun x hx => setState_ne hx _) (fun x _ => rfl)
    (fun x _ q => Iff.rfl) (fun x _ => Iff.rfl) (fun x _ => Iff.rfl) fun ht => ?_
  have hstate : (s.setCurrent t).state t = s.state t :=
    (setState_self .running).trans ((h.running_iff ht).mpr rfl).symm
  exact (h.tasks t ht).congr hstate rfl (fun q => Iff.rfl) Iff.rfl Iff.rfl

/-- The section that queues a blocked task: it was running, or had not been started. -/
theorem Placed.queueBlocked (h : Placed s L cpu none) {q : Nat}
    (hblock : s.queueBlocked t q = some s') :
    Placed s' (put L (.wait q) (L (.wait q) ++ [t])) (if cpu = some t then none else cpu) none ∧
      s'.current = (if s.current = some t then none else s.current) ∧ s'.saved = s.saved := by
  unfold Scheduler.queueBlocked at hblock
  split at hblock
  next => cases hblock
  next hcan =>
  have hqueued : s.waits.isQueued t = false := by
    rw [← Bool.not_eq_true]
    exact fun hno => hcan (.inr hno)
  obtain ⟨w, hw, hrep⟩ := h.queues.enqueue hqueued (.wait q)
  rw [hw] at hblock
  cases hblock
  have hout := h.queues.not_mem hqueued
  refine ⟨h.change rfl hrep t (fun x hx => setState_ne hx _) (fun x _ => rfl)
    (fun x hx r => mem_put_append hx _ r) (fun x hx => ?_) (fun x _ => Iff.rfl) fun _ => ?_,
    rfl, rfl⟩
  · split
    next hcpu =>
      rw [hcpu]
      exact iff_of_false (none_ne x) (some_ne hx)
    next => exact Iff.rfl
  · rw [TaskOk, show _ = TaskState.blocked from setState_self _]
    refine ⟨?_, fun hin => ?_, .inl ⟨none_ne t, q, ?_⟩⟩
    · split
      next => exact none_ne t
      next hcpu => exact hcpu
    · cases (mem_put_append_self hout _ _).mp hin
    · exact mem_put_self _

/-- A blocked task is taken off its queue. -/
theorem Placed.remove (h : Placed s L none none) {q : Nat} (hmem : t ∈ L (.wait q))
    (ht : s.idle ≠ some t) : ∃ L', Placed { s with waits := (s.waits.remove (.wait q) t).2 } L' none
      (some t) := by
  obtain ⟨l, m, w, hl, hw, hrep⟩ := h.queues.remove hmem
  refine ⟨put L (.wait q) (l ++ m), ?_⟩
  rw [hw]
  refine h.change rfl hrep t (fun x _ => rfl) (fun x _ => rfl)
    (fun x hx r => mem_put_middle hx hl r) (fun x _ => Iff.rfl)
    (fun x hx => iff_of_false (some_ne hx) (none_ne x)) fun _ => ?_
  have hout := not_mem_put_middle h.queues hl
  rw [TaskOk, show _ = TaskState.blocked from (h.blocked_of_waiting ht hmem).1]
  exact ⟨none_ne t, hout .ready, .inr ⟨rfl, hout⟩⟩

/-- The blocked task that was taken off its queue runs again. -/
theorem Placed.resume (h : Placed s L none (some t)) (ht : s.idle ≠ some t) :
    Placed (s.setCurrent t) L (some t) none := by
  refine h.change rfl h.queues t (fun x hx => setState_ne hx _) (fun x _ => rfl)
    (fun x _ q => Iff.rfl) (fun x hx => iff_of_false (some_ne hx) (none_ne x))
    (fun x hx => iff_of_false (none_ne x) (some_ne hx)) fun _ => ?_
  rw [TaskOk, show (s.setCurrent t).state t = .running from setState_self _]
  exact ⟨rfl, none_ne t, (h.tasks t ht).not_mem_of_loose⟩

/-- The running task ends. -/
theorem Placed.terminate (h : Placed s L (some t) none) :
    Placed (s.setState t .terminated) L none none := by
  refine h.change rfl h.queues t (fun x hx => setState_ne hx _) (fun x _ => rfl)
    (fun x _ q => Iff.rfl) (fun x hx => iff_of_false (none_ne x) (some_ne hx)) (fun x _ => Iff.rfl)
    fun ht => ?_
  rw [TaskOk, setState_self]
  exact ⟨none_ne t, none_ne t,
    (h.tasks t ht).not_mem_of_running ((h.running_iff ht).mpr rfl)⟩

/-- `scheduler_start_task`. -/
theorem Placed.startTask (h : Placed s L cpu none) (t : Nat) :
    ∃ L', Placed (s.startTask t) L' cpu none := by
  unfold Scheduler.startTask
  split
  next => exact ⟨L, h⟩
  next hcan =>
  have hqueued : s.waits.isQueued t = false := by
    rw [← Bool.not_eq_true]
    exact fun hno => hcan (.inr hno)
  have hready : s.state t = .ready := Decidable.not_not.mp fun hno => hcan (.inl hno)
  obtain ⟨w, hw, hrep⟩ := h.queues.enqueue hqueued .ready
  rw [hw]
  have hout := h.queues.not_mem hqueued
  refine ⟨_, h.change rfl hrep t (fun x _ => rfl) (fun x hx => if_neg hx)
    (fun x hx r => mem_put_append hx _ r) (fun x _ => Iff.rfl) (fun x _ => Iff.rfl) fun ht => ?_⟩
  have hok := h.tasks t ht
  rw [TaskOk, hready] at hok
  exact TaskOk.of_ready hready hok.1 hok.2.1 hout

/-- What a wake-up leaves alone, and the lists it leaves. -/
structure Woken (s s' : Scheduler) (L L' : QueueId → List Nat) (q : Nat) : Prop where
  current : s'.current = s.current
  idle : s'.idle = s.idle
  saved : s'.saved = s.saved
  running : s'.running = s.running
  ready : ∀ x, x ∈ L .ready → x ∈ L' .ready
  /-- Only the first task of the queue leaves it. -/
  waiting : ∀ x n, x ∈ L (.wait n) → s.idle ≠ some x →
    x ∈ L' (.wait n) ∨ x ∈ L' .ready ∧ n = q ∧ (L (.wait q)).head? = some x

/-- `scheduler_wake_one`: the first waiting task becomes ready. The idle task may be dropped. -/
theorem Placed.wakeOne (h : Placed s L cpu loose) (q : Nat) :
    ∃ L', Placed (s.wakeOne q) L' cpu loose ∧ Woken s (s.wakeOne q) L L' q := by
  unfold Scheduler.wakeOne
  cases hl : L (.wait q) with
  | nil =>
    rw [h.queues.dequeue_nil hl]
    exact ⟨L, h, rfl, rfl, rfl, rfl, fun x hx => hx, fun x n hx _ => .inl hx⟩
  | cons t m =>
    obtain ⟨w, hw, hrep, hqueued⟩ := h.queues.dequeue_cons hl
    have hmiddle : L (.wait q) = [] ++ t :: m := hl
    have hmem : t ∈ L (.wait q) := by
      rw [hl]
      exact mem_cons_self
    have hne : QueueId.ready ≠ QueueId.wait q := QueueId.noConfusion
    rw [hw]
    dsimp only
    split
    next hstate =>
      -- only the idle task can be on a wait queue in another state
      have hidle : s.idle = some t := by
        by_contra ht
        exact hstate (h.blocked_of_waiting ht hmem).1
      refine ⟨put L (.wait q) m, ?_, rfl, rfl, rfl, rfl, fun x hx => ?_, fun x n hx hxi => ?_⟩
      · exact h.change rfl hrep t (fun x _ => rfl) (fun x _ => rfl)
          (fun x hx r => mem_put_middle hx hmiddle r) (fun x _ => Iff.rfl) (fun x _ => Iff.rfl)
          fun hno => absurd hidle hno
      · rw [put_ne L _ hne]
        exact hx
      · have hxt : x ≠ t := fun heq => hxi (heq ▸ hidle)
        exact .inl ((mem_put_middle hxt hmiddle _).mpr hx)
    next =>
      obtain ⟨w', hw', hrep'⟩ := hrep.enqueue hqueued .ready
      rw [hw']
      have hout := hrep.not_mem hqueued
      refine ⟨put (put L (.wait q) m) .ready (put L (.wait q) m .ready ++ [t]), ?_, rfl, rfl, rfl, rfl,
        fun x hx => ?_, fun x n hx _ => ?_⟩
      · refine h.change rfl hrep' t (fun x hx => setState_ne hx _) (fun x _ => rfl) (fun x hx r => ?_)
          (fun x _ => Iff.rfl) (fun x _ => Iff.rfl) fun ht => ?_
        · exact (mem_put_append hx _ r).trans (mem_put_middle hx hmiddle r)
        · obtain ⟨_, hcpu, hloose⟩ := h.blocked_of_waiting ht hmem
          exact TaskOk.of_ready (setState_self _) hcpu hloose hout
      · rw [put_self, put_ne L _ hne]
        exact mem_append_left _ hx
      · by_cases hxt : x = t
        · subst hxt
          have hn : QueueId.wait n = QueueId.wait q := h.queues.same_queue hx hmem
          refine .inr ⟨mem_put_self _, QueueId.wait.inj hn, ?_⟩
          rw [hl, head?_cons]
        · exact .inl ((mem_put_append hxt _ _).mpr ((mem_put_middle hxt hmiddle _).mpr hx))

end Places

end KernelBoot.Sched
