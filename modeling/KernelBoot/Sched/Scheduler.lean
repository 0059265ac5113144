import KernelBoot.Lib.Run
import KernelBoot.Sched.WaitQueue

/-!
# The scheduler (`kernel/sched/core/scheduler.c`, `kernel/sched/policy/round_robin.c`)

One processor runs the tasks. A section under `scheduler_lock`, a wait-queue call outside it and a
context switch are one step each; between two steps a timer interrupt or a wake-up may come in. A
function of the scheduler that is between two of its steps is a `Frame`, with its local variables and
the place it has reached. `running` is the stack of such frames on the processor, the innermost
interrupt first, and `saved` the stacks of the tasks that have been switched away from.

The counter of preemptions, `process_activate` and the kernel stack pointer play no part.
-/

namespace KernelBoot.Sched

/-- `task_state_t`. -/
inductive TaskState where
  | ready
  | running
  | blocked
  | terminated
  deriving DecidableEq

inductive Frame where
  /-- `scheduler_yield` or `scheduler_timer_interrupt`, after it has read `current_task`. -/
  | previousRead (previous : Nat)
  /-- The same, before `scheduler_next`. -/
  | yieldQueued (previous : Option Nat)
  /-- The same, after `scheduler_next`. -/
  | yieldChosen (previous next : Option Nat)
  /-- `scheduler_block_current_with_lock`, after it has read `current_task`. -/
  | blockRead (blocked q : Nat)
  /-- Both blocking functions, before `scheduler_next`. -/
  | blockQueued (blocked q : Nat)
  /-- The same, after `scheduler_next`. -/
  | blockChosen (blocked q : Nat) (next : Option Nat)
  /-- The same, after `task_wait_queue_remove`. -/
  | blockRemoved (blocked : Nat)
  /-- `scheduler_task_exit`, after it has read `current_task`. -/
  | exitRead (finished : Nat)
  | exitDone (finished : Nat)
  | exitChosen (finished : Nat) (next : Option Nat)
  /-- Before `task_context_switch`. -/
  | switching (previous next : Nat)
  deriving DecidableEq

structure Scheduler where
  waits : WaitQueues
  state : Nat → TaskState
  /-- `current_task`. -/
  current : Option Nat
  /-- `idle_task`. -/
  idle : Option Nat
  running : List Frame
  saved : Nat → List Frame
  /-- The tasks `scheduler_start_task` has accepted. -/
  started : Nat → Bool

/-- After `scheduler_initialize` and `scheduler_set_idle`, with the tasks as `task_initialize` leaves
them. -/
def Scheduler.initial (idle : Option Nat) : Scheduler where
  waits := .initial
  state := fun _ => .ready
  current := none
  idle := idle
  running := []
  saved := fun _ => []
  started := fun _ => false

namespace Scheduler

def setState (s : Scheduler) (t : Nat) (state : TaskState) : Scheduler :=
  { s with state := fun x => if x = t then state else s.state x }

/-- `scheduler_enqueue`. -/
def enqueue (s : Scheduler) (t : Nat) : Bool × Scheduler :=
  if s.state t = .terminated then (false, s)
  else
    match s.waits.enqueue .ready t with
    | (false, _) => (false, s)
    | (true, waits) => (true, { s with waits }.setState t .ready)

/-- `scheduler_next`, with `scheduler_policy_next`. -/
def next (s : Scheduler) : Option Nat × Scheduler :=
  match s.waits.dequeue .ready with
  | (some t, waits) => (some t, { s with waits }.setState t .running)
  | (none, _) =>
    match s.idle with
    | some t => (some t, s.setState t .running)
    | none => (none, s)

/-- `scheduler_set_current` of a task. -/
def setCurrent (s : Scheduler) (t : Nat) : Scheduler :=
  { s.setState t .running with current := some t }

/-- The section of the blocking functions that queues a task; `none` where they answer 0. -/
def queueBlocked (s : Scheduler) (t q : Nat) : Option Scheduler :=
  if s.state t = .terminated ∨ s.waits.isQueued t then none
  else
    match s.waits.enqueue (.wait q) t with
    | (false, _) => none
    | (true, waits) =>
      some { { s with waits }.setState t .blocked with
        current := if s.current = some t then none else s.current }

/-- The next step of the innermost frame. -/
def advance (s : Scheduler) : Scheduler :=
  match s.running with
  | [] => s
  | .previousRead t :: rest =>
    match s.enqueue t with
    | (false, _) => { s with running := rest }
    | (true, s) => { s with running := .yieldQueued (some t) :: rest }
  | .yieldQueued previous :: rest =>
    let (chosen, s) := s.next
    { s with running := .yieldChosen previous chosen :: rest }
  | .yieldChosen (some t) none :: rest => { s.setCurrent t with running := rest }
  | .yieldChosen none none :: rest => { s with running := rest }
  | .yieldChosen (some t) (some n) :: rest =>
    { s.setCurrent n with running := if n ≠ t then .switching t n :: rest else rest }
  | .yieldChosen none (some n) :: rest => { s.setCurrent n with running := rest }
  | .blockRead t q :: rest =>
    match s.queueBlocked t q with
    | none => { s with running := rest }
    | some s => { s with running := .blockQueued t q :: rest }
  | .blockQueued t q :: rest =>
    let (chosen, s) := s.next
    { s with running := .blockChosen t q chosen :: rest }
  | .blockChosen t q none :: rest =>
    { s with waits := (s.waits.remove (.wait q) t).2, running := .blockRemoved t :: rest }
  | .blockChosen t _ (some n) :: rest => { s.setCurrent n with running := .switching t n :: rest }
  | .blockRemoved t :: rest => { s.setCurrent t with running := rest }
  | .exitRead t :: rest =>
    { s.setState t .terminated with current := none, running := .exitDone t :: rest }
  | .exitDone t :: rest =>
    let (chosen, s) := s.next
    { s with running := .exitChosen t chosen :: rest }
  -- the host goes on, or the processor halts
  | .exitChosen _ none :: _ => { s with running := [] }
  | .exitChosen t (some n) :: rest => { s.setCurrent n with running := .switching t n :: rest }
  | .switching t n :: rest =>
    let saved := fun x => if x = t then rest else s.saved x
    { s with saved, running := saved n }

/-- `scheduler_timer_interrupt` up to its first read; `enabled` is `preemption_enabled`. -/
def timerInterrupt (s : Scheduler) (enabled : Bool) : Scheduler :=
  match s.current with
  | none => s
  | some t => if enabled then { s with running := .previousRead t :: s.running } else s

/-- `scheduler_wake_one`. -/
def wakeOne (s : Scheduler) (q : Nat) : Scheduler :=
  match s.waits.dequeue (.wait q) with
  | (none, _) => s
  | (some t, waits) =>
    let s := { s with waits }
    if s.state t ≠ .blocked then s
    else
      match s.waits.enqueue .ready t with
      | (true, waits) => { s with waits }.setState t .ready
      | (false, _) => { s with waits := (s.waits.enqueue (.wait q) t).2 }

/-- `scheduler_start_task`. -/
def startTask (s : Scheduler) (t : Nat) : Scheduler :=
  if s.state t ≠ .ready ∨ s.waits.isQueued t then s
  else
    match s.waits.enqueue .ready t with
    | (false, _) => s
    | (true, waits) => { s with waits, started := fun x => if x = t then true else s.started x }

/-- `scheduler_yield` up to its first read. -/
def yield (s : Scheduler) : Scheduler :=
  match s.current with
  | none => { s with running := [.yieldQueued none] }
  | some t => { s with running := [.previousRead t] }

/-- `scheduler_block`. -/
def block (s : Scheduler) (t q : Nat) : Scheduler := (s.queueBlocked t q).getD s

/-- `scheduler_block_current` up to its first section. -/
def blockCurrent (s : Scheduler) (q : Nat) : Scheduler :=
  match s.current with
  | none => s
  | some t =>
    match s.queueBlocked t q with
    | none => s
    | some s => { s with running := [.blockQueued t q] }

/-- `scheduler_block_current_with_lock` up to its first read. -/
def blockCurrentWithLock (s : Scheduler) (q : Nat) : Scheduler :=
  match s.current with
  | none => s
  | some t => { s with running := [.blockRead t q] }

/-- `scheduler_task_exit` up to its first read. -/
def taskExit (s : Scheduler) : Scheduler :=
  match s.current with
  | none => s
  | some t => { s with running := [.exitRead t] }

end Scheduler

/-- What the running code may call when it is not inside the scheduler. -/
inductive SchedulerCall where
  | startTask (t : Nat)
  | yield
  | block (t q : Nat)
  | blockCurrent (q : Nat)
  | blockCurrentWithLock (q : Nat)
  | taskExit

def SchedulerCall.start (s : Scheduler) : SchedulerCall → Scheduler
  | .startTask t => s.startTask t
  | .yield => s.yield
  | .block t q => s.block t q
  | .blockCurrent q => s.blockCurrent q
  | .blockCurrentWithLock q => s.blockCurrentWithLock q
  | .taskExit => s.taskExit

inductive SchedulerTurn where
  | call (c : SchedulerCall)
  | advance
  | timerInterrupt (enabled : Bool)
  | wakeOne (q : Nat)

def SchedulerTurn.step (s : Scheduler) : SchedulerTurn → Scheduler
  | .call c => if s.running = [] then c.start s else s
  | .advance => s.advance
  | .timerInterrupt enabled => s.timerInterrupt enabled
  | .wakeOne q => s.wakeOne q

end KernelBoot.Sched
