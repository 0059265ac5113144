import KernelBoot.Laws.Sched.Places

/-!
# The scheduler neither loses nor duplicates a task

`Stage` says, for the frames on the processor, which task has been chosen to run and what
`current_task` is. A timer interrupt can switch away from a task only at the places of `Good`: it
needs a current task that is on no queue. Such a task is resumed as the current one, so what is left
of its frames still fits (`Good t frames` for the frames of task `t`, running or saved). In every
other place the interrupt comes to nothing, because there is no current task or it is queued already.

One place is different. A blocking function that found no other task to run takes its own task off
the wait queue and makes it current again. If a wake-up has moved the task to the ready queue just
before, the removal fails unnoticed, and the task ends up current and queued (`wakeOne_beforeUndo`).
In every run without such a wake-up all is well (`tasks_wellPlaced`).
-/

namespace KernelBoot.Sched

open Lib List

/-! ## Frames -/

/-- The frames of a task that is resumed as the current one. -/
def Good : Nat → List Frame → Prop
  | _, [] => True
  | t, .previousRead previous :: rest => previous = t ∧ Good t rest
  | t, .yieldChosen previous next :: rest => previous = some t ∧ next = some t ∧ Good t rest
  | t, .blockRead blocked _ :: rest => blocked = t ∧ rest = []
  | t, .exitRead finished :: rest => finished = t ∧ rest = []
  | t, .switching previous next :: rest => next = t ∧ Good previous rest
  | _, _ :: _ => False

/-- Timer interrupts that will find their task queued. -/
def timers (t k : Nat) : List Frame := List.replicate k (.previousRead t)

/-- The stages of the functions, with the task `cpu` chosen to run and the task `loose` off its
queue. -/
inductive Stage (s : Scheduler) (L : QueueId → List Nat) :
    (cpu loose : Option Nat) → List Frame → Prop
  | empty : s.current = none → Stage s L none none []
  | task {t frames} : s.current = some t → Good t frames → Stage s L (some t) none frames
  /-- `scheduler_yield` without a current task. -/
  | hostYield : s.current = none → Stage s L none none [.yieldQueued none]
  | hostStays : s.current = none → Stage s L none none [.yieldChosen none none]
  | hostChosen {n} : s.current = none → Stage s L (some n) none [.yieldChosen none (some n)]
  | yielding {t frames} (k : Nat) : s.current = some t → t ∈ L .ready → Good t frames →
      Stage s L none none (timers t k ++ .yieldQueued (some t) :: frames)
  | yieldChosen {t n frames} (k : Nat) : s.current = some t → t ∈ L .ready → n ≠ t → Good t frames →
      Stage s L (some n) none (timers t k ++ .yieldChosen (some t) (some n) :: frames)
  | blocking {t q} : s.current = none → t ∈ L (.wait q) ∨ t ∈ L .ready ∨ s.idle = some t →
      Stage s L none none [.blockQueued t q]
  | blockChosen {t q n} : s.current = none → Stage s L (some n) none [.blockChosen t q (some n)]
  | alone {t q} : s.current = none → t ∈ L (.wait q) → s.idle = none →
      Stage s L none none [.blockChosen t q none]
  | removed {t} : s.current = none → s.idle = none → Stage s L none (some t) [.blockRemoved t]
  | exiting {t} : s.current = none → Stage s L none none [.exitDone t]
  | exitChosen {t n} : s.current = none → Stage s L (some n) none [.exitChosen t (some n)]
  | exitAlone {t} : s.current = none → Stage s L none none [.exitChosen t none]

def SchedulerInv (s : Scheduler) : Prop :=
  (∀ t, Good t (s.saved t)) ∧
    ∃ L cpu loose, Placed s L cpu loose ∧ Stage s L cpu loose s.running

theorem SchedulerInv.initial (idle : Option Nat) : SchedulerInv (.initial idle) := by
  refine ⟨fun t => trivial, fun _ => [], none, none, ⟨QueuesRep.initial, fun t _ => ?_⟩,
    Stage.empty rfl⟩
  exact ⟨none_ne t, none_ne t, fun n => not_mem_nil, .inr rfl⟩

section Steps

variable {s s' : Scheduler} {L : QueueId → List Nat} {cpu loose : Option Nat} {frames : List Frame}

/-! ## Interrupts -/

section

variable (h : Stage s L cpu loose frames)

include h

/-- What a stage reads of the state and the lists. -/
theorem Stage.mono {L' : QueueId → List Nat} (hcurrent : s'.current = s.current) (hidle : s'.idle = s.idle)
    (hready : ∀ x, x ∈ L .ready → x ∈ L' .ready)
    (hblocking : ∀ t q, t ∈ L (.wait q) → s.idle ≠ some t → t ∈ L' (.wait q) ∨ t ∈ L' .ready)
    (halone : ∀ t q, frames = [.blockChosen t q none] → t ∈ L (.wait q) → s.idle ≠ some t →
      t ∈ L' (.wait q)) : Stage s' L' cpu loose frames := by
  cases h with
  | empty hc => exact .empty (hcurrent.trans hc)
  | task hc hgood => exact .task (hcurrent.trans hc) hgood
  | hostYield hc => exact .hostYield (hcurrent.trans hc)
  | hostStays hc => exact .hostStays (hcurrent.trans hc)
  | hostChosen hc => exact .hostChosen (hcurrent.trans hc)
  | yielding k hc hmem hgood => exact .yielding k (hcurrent.trans hc) (hready _ hmem) hgood
  | yieldChosen k hc hmem hne hgood =>
    exact .yieldChosen k (hcurrent.trans hc) (hready _ hmem) hne hgood
  | @blocking t q hc hplace =>
    refine .blocking (hcurrent.trans hc) ?_
    rw [hidle]
    by_cases hself : s.idle = some t
    · exact .inr (.inr hself)
    · rcases hplace with hwait | hmem | hno
      · rcases hblocking t q hwait hself with hstays | hmoved
        · exact .inl hstays
        · exact .inr (.inl hmoved)
      · exact .inr (.inl (hready t hmem))
      · exact absurd hno hself
  | blockChosen hc => exact .blockChosen (hcurrent.trans hc)
  | @alone t q hc hwait hno =>
    have hself : s.idle ≠ some t := by
      rw [hno]
      exact none_ne t
    exact .alone (hcurrent.trans hc) (halone t q rfl hwait hself) (hidle.trans hno)
  | removed hc hno => exact .removed (hcurrent.trans hc) (hidle.trans hno)
  | exiting hc => exact .exiting (hcurrent.trans hc)
  | exitChosen hc => exact .exitChosen (hcurrent.trans hc)
  | exitAlone hc => exact .exitAlone (hcurrent.trans hc)

/-- A wake-up that does not take the task a blocking function is about to take off the queue. -/
theorem Stage.wakeOne {L' : QueueId → List Nat} {q : Nat} (hwoken : Woken s s' L L' q)
    (hundo : ∀ t rest, frames = .blockChosen t q none :: rest → (L (.wait q)).head? ≠ some t) :
    Stage s' L' cpu loose frames := by
  refine h.mono hwoken.current hwoken.idle hwoken.ready (fun t r hwait hself => ?_)
    fun t r hframes hwait hself => ?_
  · rcases hwoken.waiting t r hwait hself with hstays | ⟨hmoved, _⟩
    · exact .inl hstays
    · exact .inr hmoved
  · rcases hwoken.waiting t r hwait hself with hstays | ⟨_, rfl, hhead⟩
    · exact hstays
    · exact absurd hhead (hundo t [] hframes)

/-- A stage does not depend on the frames the state records. -/
theorem Stage.frame (hcurrent : s'.current = s.current)
    (hidle : s'.idle = s.idle) : Stage s' L cpu loose frames :=
  h.mono hcurrent hidle (fun _ hx => hx) (fun _ _ hwait _ => .inl hwait)
    fun _ _ _ hwait _ => hwait

/-- A timer interrupt that finds a current task. -/
theorem Stage.timerInterrupt {t : Nat} (hcurrent : s.current = some t) :
    Stage s L cpu loose (.previousRead t :: frames) := by
  have hnone : s.current ≠ none := by
    rw [hcurrent]
    exact Option.some_ne_none t
  cases h with
  | task hc hgood =>
    cases hc.symm.trans hcurrent
    exact .task hc ⟨rfl, hgood⟩
  | yielding k hc hmem hgood =>
    cases hc.symm.trans hcurrent
    exact .yielding (k + 1) hc hmem hgood
  | yieldChosen k hc hmem hne hgood =>
    cases hc.symm.trans hcurrent
    exact .yieldChosen (k + 1) hc hmem hne hgood
  | empty hc | hostYield hc | hostStays hc | hostChosen hc | blocking hc | blockChosen hc
  | alone hc | removed hc | exiting hc | exitChosen hc | exitAlone hc => exact absurd hc hnone

end

/-! ## The steps of the functions -/

theorem SchedulerInv.withRunning (hsaved : ∀ t, Good t (s.saved t)) (hplaced : Placed s L cpu loose)
    (hstage : Stage s L cpu loose frames) : SchedulerInv { s with running := frames } :=
  ⟨hsaved, L, cpu, loose, hplaced.frame rfl rfl rfl rfl, hstage.frame rfl rfl⟩

/-- The chosen task becomes the current one, and the frames are those it is resumed with. -/
theorem SchedulerInv.withCurrent {n : Nat} (hsaved : ∀ t, Good t (s.saved t))
    (hplaced : Placed s L (some n) none) (hgood : Good n frames) :
    SchedulerInv { s.setCurrent n with running := frames } :=
  .withRunning hsaved hplaced.setCurrent (.task rfl hgood)

/-- The steps of a task that can be switched away from. -/
theorem advance_task {t : Nat} (hsaved : ∀ t, Good t (s.saved t)) (hplaced : Placed s L (some t) none)
    (hcurrent : s.current = some t) (hgood : Good t s.running) : SchedulerInv s.advance := by
  rcases hrunning : s.running with _ | ⟨frame, rest⟩
  · rw [Scheduler.advance, hrunning]
    exact ⟨hsaved, L, some t, none, hplaced, .task hcurrent hgood⟩
  rw [hrunning] at hgood
  cases frame with
  | previousRead previous =>
    obtain ⟨rfl, hrest⟩ := hgood
    rw [Scheduler.advance, hrunning]
    dsimp only
    split
    next => exact .withRunning hsaved hplaced (.task hcurrent hrest)
    next s' henqueue =>
      obtain ⟨hplaced', hcurrent', hsaved'⟩ := hplaced.enqueue henqueue
      exact .withRunning (hsaved' ▸ hsaved) hplaced'
        (.yielding 0 (hcurrent'.trans hcurrent) (mem_put_self _) hrest)
  | yieldChosen previous next =>
    obtain ⟨rfl, rfl, hrest⟩ := hgood
    rw [Scheduler.advance, hrunning]
    dsimp only
    rw [if_neg (not_not_intro rfl)]
    exact .withCurrent hsaved hplaced hrest
  | blockRead blocked q =>
    obtain ⟨rfl, rfl⟩ := hgood
    rw [Scheduler.advance, hrunning]
    dsimp only
    split
    next => exact .withRunning hsaved hplaced (.task hcurrent trivial)
    next s' hblock =>
      obtain ⟨hplaced', hcurrent', hsaved'⟩ := hplaced.queueBlocked hblock
      rw [if_pos rfl] at hplaced'
      rw [if_pos hcurrent] at hcurrent'
      exact .withRunning (hsaved' ▸ hsaved) hplaced' (.blocking hcurrent' (.inl (mem_put_self _)))
  | exitRead finished =>
    obtain ⟨rfl, rfl⟩ := hgood
    rw [Scheduler.advance, hrunning]
    exact ⟨hsaved, L, none, none, hplaced.terminate.frame rfl rfl rfl rfl, .exiting rfl⟩
  | switching previous next =>
    obtain ⟨rfl, hrest⟩ := hgood
    rw [Scheduler.advance, hrunning]
    have hsaved' : ∀ x, Good x (if x = previous then rest else s.saved x) := by
      intro x
      split
      next hx =>
        rw [hx]
        exact hrest
      next => exact hsaved x
    exact ⟨hsaved', L, some next, none, hplaced.frame rfl rfl rfl rfl,
      .task hcurrent (hsaved' next)⟩
  | yieldQueued | blockQueued | blockChosen | blockRemoved | exitDone | exitChosen => exact hgood.elim

/-- A timer interrupt that finds its task queued gives up. -/
theorem advance_timer {t : Nat} {rest : List Frame} (hrunning : s.running = .previousRead t :: rest)
    (hplaced : Placed s L cpu loose) (hmem : t ∈ L .ready) :
    s.advance = { s with running := rest } := by
  have hrefused : s.enqueue t = (false, s) := by
    unfold Scheduler.enqueue
    split
    next => rfl
    next => rw [enqueue_refused (hplaced.queues.queued_of_mem hmem)]
  rw [Scheduler.advance, hrunning]
  dsimp only
  rw [hrefused]

theorem advance_inv (h : SchedulerInv s) : SchedulerInv s.advance := by
  obtain ⟨hsaved, L, cpu, loose, hplaced, hstage⟩ := h
  generalize hrunning : s.running = frames at hstage
  cases hstage with
  | empty hcurrent =>
    have hsame : s.advance = s := by rw [Scheduler.advance, hrunning]
    rw [hsame]
    refine ⟨hsaved, L, none, none, hplaced, ?_⟩
    rw [hrunning]
    exact .empty hcurrent
  | task hcurrent hgood => exact advance_task hsaved hplaced hcurrent (hrunning ▸ hgood)
  | hostYield hcurrent =>
    rw [Scheduler.advance, hrunning]
    rcases hplaced.next with ⟨hnext, _⟩ | ⟨n, s', L', hchosen⟩
    · rw [hnext]
      exact .withRunning hsaved hplaced (.hostStays hcurrent)
    · rw [hchosen.result]
      exact .withRunning (hchosen.saved ▸ hsaved) hchosen.placed
        (.hostChosen (hchosen.current.trans hcurrent))
  | hostStays hcurrent | exitAlone hcurrent =>
    rw [Scheduler.advance, hrunning]
    exact .withRunning hsaved hplaced (.empty hcurrent)
  | hostChosen hcurrent =>
    rw [Scheduler.advance, hrunning]
    exact .withCurrent hsaved hplaced trivial
  | @yielding t rest k hcurrent hmem hgood =>
    cases k with
    | succ k =>
      rw [advance_timer hrunning hplaced hmem]
      exact .withRunning hsaved hplaced (.yielding k hcurrent hmem hgood)
    | zero =>
      rw [Scheduler.advance, show s.running = .yieldQueued (some t) :: rest from hrunning]
      rcases hplaced.next with ⟨_, _, hnil⟩ | ⟨n, s', L', hchosen⟩
      · rw [hnil] at hmem
        exact absurd hmem not_mem_nil
      rw [hchosen.result]
      have hcurrent' := hchosen.current.trans hcurrent
      by_cases hn : n = t
      · subst hn
        exact .withRunning (hchosen.saved ▸ hsaved) hchosen.placed
          (.task hcurrent' ⟨rfl, rfl, hgood⟩)
      · have hstays := (hchosen.ready t hmem).resolve_left (Ne.symm hn)
        exact .withRunning (hchosen.saved ▸ hsaved) hchosen.placed
          (.yieldChosen 0 hcurrent' hstays hn hgood)
  | @yieldChosen t n rest k hcurrent hmem hne hgood =>
    cases k with
    | succ k =>
      rw [advance_timer hrunning hplaced hmem]
      exact .withRunning hsaved hplaced (.yieldChosen k hcurrent hmem hne hgood)
    | zero =>
      rw [Scheduler.advance, show s.running = .yieldChosen (some t) (some n) :: rest from hrunning]
      dsimp only
      rw [if_pos hne]
      exact .withCurrent hsaved hplaced ⟨rfl, hgood⟩
  | @blocking t q hcurrent hplace =>
    rw [Scheduler.advance, hrunning]
    rcases hplaced.next with ⟨hnext, hidle, hnil⟩ | ⟨n, s', L', hchosen⟩
    · rw [hnext]
      -- with nothing ready and no idle task, the task is still where it was queued
      rw [hnil, hidle] at hplace
      rcases hplace with hwait | hno | hno
      · exact .withRunning hsaved hplaced (.alone hcurrent hwait hidle)
      · exact absurd hno not_mem_nil
      · exact absurd hno (none_ne t)
    · rw [hchosen.result]
      exact .withRunning (hchosen.saved ▸ hsaved) hchosen.placed
        (.blockChosen (hchosen.current.trans hcurrent))
  | blockChosen hcurrent | exitChosen hcurrent =>
    rw [Scheduler.advance, hrunning]
    exact .withCurrent hsaved hplaced ⟨rfl, trivial⟩
  | @alone t q hcurrent hwait hidle =>
    rw [Scheduler.advance, hrunning]
    obtain ⟨L', hplaced'⟩ := hplaced.remove hwait (by rw [hidle]; exact none_ne t)
    exact ⟨hsaved, L', none, some t, hplaced'.frame rfl rfl rfl rfl, .removed hcurrent hidle⟩
  | @removed t hcurrent hidle =>
    rw [Scheduler.advance, hrunning]
    have hplaced' := hplaced.resume (by rw [hidle]; exact none_ne t)
    exact .withRunning hsaved hplaced' (.task rfl trivial)
  | exiting hcurrent =>
    rw [Scheduler.advance, hrunning]
    rcases hplaced.next with ⟨hnext, _⟩ | ⟨n, s', L', hchosen⟩
    · rw [hnext]
      exact .withRunning hsaved hplaced (.exitAlone hcurrent)
    · rw [hchosen.result]
      exact .withRunning (hchosen.saved ▸ hsaved) hchosen.placed
        (.exitChosen (hchosen.current.trans hcurrent))

/-! ## Calls -/

/-- Outside the scheduler the chosen task is the current one. -/
theorem SchedulerInv.quiet (h : SchedulerInv s) (hrunning : s.running = []) :
    ∃ L, Placed s L s.current none := by
  obtain ⟨_, L, cpu, loose, hplaced, hstage⟩ := h
  rw [hrunning] at hstage
  generalize hframes : ([] : List Frame) = frames at hstage
  cases hstage with
  | empty hcurrent =>
    rw [hcurrent]
    exact ⟨L, hplaced⟩
  | task hcurrent _ =>
    rw [hcurrent]
    exact ⟨L, hplaced⟩
  | yielding k => exact absurd hframes.symm (append_ne_nil_of_right_ne_nil _ (cons_ne_nil _ _))
  | yieldChosen k =>
    exact absurd hframes.symm (append_ne_nil_of_right_ne_nil _ (cons_ne_nil _ _))
  | hostYield | hostStays | hostChosen | blocking | blockChosen | alone | removed | exiting
  | exitChosen | exitAlone => cases hframes

theorem SchedulerInv.of_quiet (hsaved : ∀ t, Good t (s.saved t)) (hrunning : s.running = [])
    (hplaced : Placed s L s.current none) : SchedulerInv s := by
  refine ⟨hsaved, L, s.current, none, hplaced, ?_⟩
  rw [hrunning]
  cases hcurrent : s.current with
  | none => exact .empty hcurrent
  | some t => exact .task hcurrent trivial

theorem startTask_same (s : Scheduler) (t : Nat) : (s.startTask t).current = s.current ∧
    (s.startTask t).saved = s.saved ∧ (s.startTask t).running = s.running := by
  fun_cases s.startTask t
  all_goals exact ⟨rfl, rfl, rfl⟩

theorem queueBlocked_running {t q : Nat} (hblock : s.queueBlocked t q = some s') :
    s'.running = s.running := by
  revert hblock
  fun_cases s.queueBlocked t q
  · rintro ⟨⟩
  · rintro ⟨⟩
  · rintro ⟨⟩
    rfl

theorem call_inv (h : SchedulerInv s) (hrunning : s.running = []) (call : SchedulerCall) :
    SchedulerInv (call.start s) := by
  obtain ⟨L, hplaced⟩ := h.quiet hrunning
  have hsaved := h.1
  cases call with
  | startTask t =>
    obtain ⟨hcurrent, hsaved', hrunning'⟩ := startTask_same s t
    obtain ⟨L', hplaced'⟩ := hplaced.startTask t
    rw [← hcurrent] at hplaced'
    exact .of_quiet (hsaved' ▸ hsaved) (hrunning'.trans hrunning) hplaced'
  | yield =>
    show SchedulerInv s.yield
    fun_cases Scheduler.yield s
    next hcurrent => exact .withRunning hsaved (hcurrent ▸ hplaced) (.hostYield hcurrent)
    next t hcurrent =>
      exact .withRunning hsaved (hcurrent ▸ hplaced) (.task hcurrent ⟨rfl, trivial⟩)
  | block t q =>
    show SchedulerInv ((s.queueBlocked t q).getD s)
    cases hblock : s.queueBlocked t q with
    | none => exact h
    | some s' =>
      obtain ⟨hplaced', hcurrent, hsaved'⟩ := hplaced.queueBlocked hblock
      rw [← hcurrent] at hplaced'
      exact .of_quiet (hsaved' ▸ hsaved) ((queueBlocked_running hblock).trans hrunning) hplaced'
  | blockCurrent q =>
    show SchedulerInv (s.blockCurrent q)
    fun_cases s.blockCurrent q
    · exact h
    · exact h
    next t hcurrent s' hblock =>
      obtain ⟨hplaced', hcurrent', hsaved'⟩ := hplaced.queueBlocked hblock
      rw [if_pos hcurrent] at hplaced' hcurrent'
      exact .withRunning (hsaved' ▸ hsaved) hplaced' (.blocking hcurrent' (.inl (mem_put_self _)))
  | blockCurrentWithLock q =>
    show SchedulerInv (s.blockCurrentWithLock q)
    fun_cases s.blockCurrentWithLock q
    · exact h
    next t hcurrent =>
      exact .withRunning hsaved (hcurrent ▸ hplaced) (.task hcurrent ⟨rfl, rfl⟩)
  | taskExit =>
    show SchedulerInv s.taskExit
    fun_cases Scheduler.taskExit s
    · exact h
    next t hcurrent =>
      exact .withRunning hsaved (hcurrent ▸ hplaced) (.task hcurrent ⟨rfl, rfl⟩)

end Steps

/-! ## Runs -/

/-- The wake-up does not take, from the wait queue, the task that a blocking function is about to
take off it for want of another task. -/
def SchedulerTurn.Undisturbed (s : Scheduler) : SchedulerTurn → Prop
  | .wakeOne q => ∀ t rest, s.running = .blockChosen t q none :: rest →
      (s.waits.queues (.wait q)).head ≠ some t
  | _ => True

theorem SchedulerTurn.inv {s : Scheduler} (h : SchedulerInv s) {turn : SchedulerTurn}
    (hundisturbed : turn.Undisturbed s) : SchedulerInv (turn.step s) := by
  cases turn with
  | call c =>
    show SchedulerInv (if s.running = [] then c.start s else s)
    split
    next hrunning => exact call_inv h hrunning c
    next => exact h
  | advance => exact advance_inv h
  | timerInterrupt enabled =>
    show SchedulerInv (s.timerInterrupt enabled)
    fun_cases s.timerInterrupt enabled
    · exact h
    next hcurrent _ =>
      obtain ⟨hsaved, L, cpu, loose, hplaced, hstage⟩ := h
      exact .withRunning hsaved hplaced (hstage.timerInterrupt hcurrent)
    · exact h
  | wakeOne q =>
    obtain ⟨hsaved, L, cpu, loose, hplaced, hstage⟩ := h
    obtain ⟨L', hplaced', hwoken⟩ := hplaced.wakeOne q
    refine ⟨fun t => ?_, L', cpu, loose, hplaced', ?_⟩
    · show Good t ((s.wakeOne q).saved t)
      rw [hwoken.saved]
      exact hsaved t
    · show Stage (s.wakeOne q) L' cpu loose (s.wakeOne q).running
      rw [hwoken.running]
      refine hstage.wakeOne hwoken fun t rest hframes => ?_
      rw [← (hplaced.queues.linked (.wait q)).head_eq]
      exact hundisturbed t rest hframes

/-- The queue is a well-formed doubly linked list of the tasks `l`, and its count is right. -/
structure IsTaskQueue (w : WaitQueues) (q : QueueId) (l : List Nat) : Prop where
  linked : DoublyLinked (fun t => (w.nodes t).next) (fun t => (w.nodes t).previous)
    (w.queues q).head (w.queues q).tail l
  count : (w.queues q).count = l.length
  nodes : ∀ t ∈ l, (w.nodes t).queued = true ∧ (w.nodes t).queue = some q

/-- Every started task that has not ended and is not the idle task is in one place, the one its state
says. -/
structure WellPlaced (s : Scheduler) (L : QueueId → List Nat) : Prop where
  queues : ∀ q, IsTaskQueue s.waits q (L q)
  tasks : ∀ t, s.started t = true → s.state t ≠ .terminated → s.idle ≠ some t →
    (s.state t = .running ∧ s.current = some t ∧ ∀ q, t ∉ L q) ∨
    (s.state t = .ready ∧ s.current ≠ some t ∧ t ∈ L .ready ∧ ∀ n, t ∉ L (.wait n)) ∨
    (s.state t = .blocked ∧ s.current ≠ some t ∧ t ∉ L .ready ∧ ∃! n, t ∈ L (.wait n))

theorem Placed.wellPlaced {s : Scheduler} {L : QueueId → List Nat} (h : Placed s L s.current none) :
    WellPlaced s L := by
  refine ⟨fun q => ⟨h.queues.linked q, h.queues.count q, fun t => (h.queues.member q t).mp⟩,
    fun t hstarted hended hidle => ?_⟩
  have hok := h.tasks t hidle
  unfold TaskOk at hok
  cases hstate : s.state t with
  | ready =>
    rw [hstate] at hok
    obtain ⟨hcurrent, _, hwait, hplace⟩ := hok
    refine .inr (.inl ⟨rfl, hcurrent, ?_, hwait⟩)
    rcases hplace with hready | hfresh
    · exact hready
    · rw [hstarted] at hfresh
      cases hfresh
  | running =>
    rw [hstate] at hok
    exact .inl ⟨rfl, hok.1, hok.2.2⟩
  | blocked =>
    rw [hstate] at hok
    obtain ⟨hcurrent, hready, hplace⟩ := hok
    rcases hplace with ⟨_, n, hn⟩ | ⟨hno, _⟩
    · refine .inr (.inr ⟨rfl, hcurrent, hready, n, hn, fun m hm => ?_⟩)
      exact QueueId.wait.inj (h.queues.same_queue hm hn)
    · exact absurd hno (none_ne t)
  | terminated => exact absurd hstate hended

/-- In every run without such a wake-up, whenever no function of the scheduler is under way, every
queue is in order and every task is in one place. -/
theorem tasks_wellPlaced (idle : Option Nat) (turns : List SchedulerTurn)
    (hundisturbed : Each SchedulerTurn.step SchedulerTurn.Undisturbed (.initial idle) turns) :
    Always SchedulerTurn.step (fun s => s.running = [] → ∃ L, WellPlaced s L) (.initial idle) turns := by
  refine always_of_keeps (I := SchedulerInv) (fun s h hrunning => ?_)
    (fun s turn h hturn => SchedulerTurn.inv h hturn) (SchedulerInv.initial idle) hundisturbed
  obtain ⟨L, hplaced⟩ := h.quiet hrunning
  exact ⟨L, hplaced.wellPlaced⟩

/-- A task blocks and is woken before it has chosen its successor, which then is the task itself. -/
theorem tasks_wellPlaced_wokenEarly :
    Always SchedulerTurn.step (fun s => s.running = [] → ∃ L, WellPlaced s L) (.initial none)
      [.call (.startTask 1), .call .yield, .advance, .advance, .timerInterrupt true,
        .advance, .advance, .advance, .call (.blockCurrent 0), .wakeOne 0, .advance, .advance] := by
  refine tasks_wellPlaced none _ ⟨trivial, trivial, trivial, trivial, trivial, trivial, trivial,
    trivial, trivial, fun t rest hframes => ?_, trivial, trivial, trivial⟩
  have hfirst := congrArg List.head? hframes
  rw [head?_cons] at hfirst
  exact absurd hfirst (by rintro ⟨⟩)

/-- After a run in which the only task blocks, finds no other to run, and is woken before it has left
the wait queue. -/
def wokenBeforeUndo : Scheduler :=
  run SchedulerTurn.step (.initial none)
    [.call (.startTask 1), .call .yield, .advance, .advance, .call (.blockCurrent 0), .advance,
      .wakeOne 0, .advance, .advance]

/-- The task then is current and on the ready queue at once. -/
theorem wakeOne_beforeUndo :
    wokenBeforeUndo.running = [] ∧ wokenBeforeUndo.current = some 1 ∧
      (wokenBeforeUndo.waits.queues .ready).head = some 1 ∧ ¬ ∃ L, WellPlaced wokenBeforeUndo L := by
  have hstate : wokenBeforeUndo.state 1 = .running := by decide +kernel
  have hstarted : wokenBeforeUndo.started 1 = true := by decide +kernel
  have hidle : wokenBeforeUndo.idle = none := by decide +kernel
  have hhead : (wokenBeforeUndo.waits.queues .ready).head = some 1 := by decide +kernel
  refine ⟨by decide +kernel, by decide +kernel, hhead, ?_⟩
  rintro ⟨L, hqueues, htasks⟩
  have hmem : 1 ∈ L .ready := mem_of_head? ((hqueues .ready).linked.head_eq.symm.trans hhead)
  have hended : wokenBeforeUndo.state 1 ≠ .terminated := by
    rw [hstate]
    exact TaskState.noConfusion
  have hother : wokenBeforeUndo.idle ≠ some 1 := by
    rw [hidle]
    exact none_ne 1
  rcases htasks 1 hstarted hended hother with ⟨_, _, hout⟩ | ⟨hready, _⟩ | ⟨hblocked, _⟩
  · exact hout .ready hmem
  · cases hstate.symm.trans hready
  · cases hstate.symm.trans hblocked

end KernelBoot.Sched
