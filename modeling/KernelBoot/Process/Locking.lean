import KernelBoot.Lib.Locking
import KernelBoot.Process.References

/-!
# The process lock (`kernel/core/process/process.c`, `kernel/core/process/thread.c`)

The ten functions of the process layer that take `process->lock`, with every branch on which it is
given back. A program logs the process locks it acquires and releases; other locks are left out. What
is read under the lock is an argument (`ProcessControl`), and so are the answers of the subsystems
called meanwhile. `process_wait` and `process_wait_signal` take the lock once in every turn of their
loop and find the process as it is then, so they are given what each turn finds.
-/

namespace KernelBoot.Process

open Lib

/-- The task of a thread, as `process_thread_destroy_locked` meets it. -/
structure ThreadTask where
  running : Bool
  queued : Bool
  /-- The answer of `scheduler_remove`. -/
  removed : Bool

structure ProcessThread where
  task : Option ThreadTask
  references : Nat

/-- `process_thread_destroy_locked` of a thread of the process, `task_destroy_kernel` included. -/
def processThreadDestroyLocked (thread : ProcessThread) : Bool :=
  match thread.task with
  | none => false
  | some task => (!task.queued || task.removed) && !task.running

/-- `process_thread_destroy_all_locked`: the threads that are left. -/
def processThreadDestroyAllLocked : List ProcessThread → Bool × List ProcessThread
  | [] => (true, [])
  | thread :: rest =>
    if processThreadDestroyLocked thread then processThreadDestroyAllLocked rest
    else (false, thread :: rest)

/-- What the functions below read and write of a process. -/
structure ProcessControl where
  state : ProcessState
  exitStatus : Int
  pendingSignals : BitVec 32
  blockedSignals : BitVec 32
  threads : List ProcessThread
  retainedThreadReferences : Nat
  userStackPages : List Nat
  userStackTop : Nat

/-- `PROCESS_SIGNAL_MAX`. -/
def processSignalMax : Nat := 32

/-- `PROCESS_USER_STACK_PAGES`. -/
def processUserStackPages : Nat := 8

/-! ## Signals -/

/-- `take_signal_locked`: the lowest pending signal that is not blocked. -/
def takeSignalLocked (p : ProcessControl) : Option (Nat × ProcessControl) :=
  let available := p.pendingSignals &&& ~~~p.blockedSignals
  match (List.range processSignalMax).find? available.getLsbD with
  | none => none
  | some bit =>
    some (bit + 1, { p with pendingSignals := p.pendingSignals &&& ~~~(1#32 <<< bit) })

def processSendSignal (a : Nat) (p : ProcessControl) (signal : Nat) :
    LockLog Nat (Bool × ProcessControl) := do
  if signal = 0 ∨ processSignalMax < signal then return (false, p)
  acquire a
  if p.state = .exited then
    release a
    return (false, p)
  let p := { p with pendingSignals := p.pendingSignals ||| (1#32 <<< (signal - 1)) }
  release a
  return (true, p)

def processSetSignalMask (a : Nat) (p : ProcessControl) (mask : BitVec 32) :
    LockLog Nat (Bool × ProcessControl) := do
  acquire a
  if p.state = .exited then
    release a
    return (false, p)
  release a
  return (true, { p with blockedSignals := mask })

def processTakeSignal (a : Nat) (p : ProcessControl) :
    LockLog Nat (Option (Nat × ProcessControl)) := do
  acquire a
  let result := takeSignalLocked p
  release a
  return result

/-! ## Waiting -/

/-- How `scheduler_block_current_with_lock` ends: there is no current task, the task cannot be
queued, there is no other task to run, or the task slept and was woken. -/
inductive BlockOutcome where
  | noTask
  | refused
  | alone
  | switched
  deriving DecidableEq

/-- `scheduler_block_current_with_lock`: the lock is given back on every path, before the task
sleeps. -/
def schedulerBlockCurrentWithLock (a : Nat) : BlockOutcome → LockLog Nat Bool
  | .noTask => do
    release a
    return false
  | .refused => do
    release a
    return false
  | .alone => do
    release a
    return false
  | .switched => do
    release a
    return true

/-- What one turn of a wait finds: the process, and how the block ends if it comes to one. -/
abbrev Turn := ProcessControl × BlockOutcome

/-- `process_wait_signal`: the signal, or `some none` for the answer 0; `none` while it still
waits. -/
def processWaitSignal (a : Nat) : List Turn → LockLog Nat (Option (Option Nat))
  | [] => return none
  | (p, outcome) :: later => do
    acquire a
    match takeSignalLocked p with
    | some (signal, _) => do
      release a
      return some (some signal)
    | none =>
      -- the exited process is tested first, and `||` then skips the block
      if p.state = .exited then return some none
      else do
        let blocked ← schedulerBlockCurrentWithLock a outcome
        if !blocked then return some none else processWaitSignal a later

/-- `process_wait`: the exit status, or `some none` for the answer 0; `none` while it still waits. -/
def processWait (a : Nat) : List Turn → LockLog Nat (Option (Option Int))
  | [] => return none
  | (p, outcome) :: later => do
    acquire a
    if p.state = .exited then do
      release a
      return some (some p.exitStatus)
    else do
      let blocked ← schedulerBlockCurrentWithLock a outcome
      if blocked then processWait a later else return some none

/-! ## The end of a process -/

def processTerminate (a : Nat) (p : ProcessControl) (isCurrent : Bool) (status : Int) :
    LockLog Nat (Bool × ProcessControl) := do
  acquire a
  if p.state = .exited ∨ isCurrent then
    release a
    return (false, p)
  if p.threads.any fun thread => thread.task.all (·.running) then
    release a
    return (false, p)
  let (destroyed, threads) := processThreadDestroyAllLocked p.threads
  let p := { p with threads }
  if !destroyed then
    release a
    return (false, p)
  let p := { p with exitStatus := status, state := .exited }
  release a
  return (true, p)

/-- The look at the replacement's state. -/
def replacementLocks (parent : Nat) : Option Nat → LockLog Nat Unit
  | none => pure ()
  | some replacement =>
    if replacement ≠ parent then do
      acquire replacement
      release replacement
    else pure ()

/-- One turn of the second loop of `process_reparent_children`. -/
def reparentChildLocks (s : Processes) (parent child : Nat) : LockLog Nat Processes := do
  replacementLocks parent (s.replacement parent).1
  acquire child
  release child
  return s.reparentChild parent child

def reparentLocks (parent : Nat) : List Nat → Processes → LockLog Nat Processes
  | [], s => return s
  | child :: rest, s => do
    let s ← reparentChildLocks s parent child
    reparentLocks parent rest s

/-- `process_reparent_children`; its snapshot is taken under the table's lock. -/
def processReparentChildren (s : Processes) (parent : Nat) : LockLog Nat Processes :=
  let (children, s) := Processes.snapshot parent (List.range processMax) s
  reparentLocks parent children s

/-- What `process_destroy` is told by others. -/
structure DestroyAnswers where
  handlesRetained : Bool
  isCurrent : Bool
  signalWaiters : Nat
  exitWaiters : Nat
  spaceDestroyed : Bool

/-- `process_destroy` of the process at `a` of `s`, up to the release of its lock; after that it
works on the table only. -/
def processDestroy (a : Nat) (s : Processes) (p : ProcessControl) (answers : DestroyAnswers) :
    LockLog Nat (Bool × ProcessControl) := do
  acquire a
  if p.threads.any fun thread => 1 < thread.references then
    release a
    return (false, p)
  if p.retainedThreadReferences ≠ 0 then
    release a
    return (false, p)
  if answers.handlesRetained then
    release a
    return (false, p)
  if answers.isCurrent ∨ p.state = .running ∨ answers.signalWaiters ≠ 0 ∨
      answers.exitWaiters ≠ 0 then
    release a
    return (false, p)
  let (destroyed, threads) := processThreadDestroyAllLocked p.threads
  let p := { p with threads }
  if !destroyed then
    release a
    return (false, p)
  let _ ← processReparentChildren s a
  if !answers.spaceDestroyed then
    release a
    return (false, p)
  let p := { p with userStackPages := [], state := .exited }
  release a
  return (true, p)

/-! ## The start of a process -/

def processActivate (a : Nat) (p : ProcessControl) (spaceActivated : Bool) :
    LockLog Nat (Bool × ProcessControl) := do
  acquire a
  if (p.state ≠ .ready ∧ p.state ≠ .running) ∨ p.userStackPages = [] ∨ !spaceActivated then
    release a
    return (false, p)
  let p := { p with state := .running }
  release a
  return (true, p)

def processLoadImage (a : Nat) (p : ProcessControl) (loaded : Bool) :
    LockLog Nat (Bool × ProcessControl) := do
  acquire a
  if p.state ≠ .new ∨ !loaded then
    release a
    return (false, p)
  let p := { p with state := .ready }
  release a
  return (true, p)

/-- The frames of a user stack, page by page; `none` as soon as one cannot be had or mapped. -/
def mapStackPages (frame : Nat → Nat) (mapped : Nat → Bool) : List Nat → Option (List Nat)
  | [] => some []
  | page :: rest =>
    if frame page = 0 ∨ !mapped page then none
    else (mapStackPages frame mapped rest).map (frame page :: ·)

def processMapUserStack (a : Nat) (p : ProcessControl) (pageAddress : Nat) (frame : Nat → Nat)
    (mapped : Nat → Bool) : LockLog Nat (Bool × ProcessControl) := do
  acquire a
  if p.state ≠ .ready ∨ pageAddress % 4096 ≠ 0 ∨ pageAddress < 2 ^ 39 ∨
      2 ^ 48 - processUserStackPages * 4096 ≤ pageAddress ∨ p.userStackPages ≠ [] then
    release a
    return (false, p)
  match mapStackPages frame mapped (List.range processUserStackPages) with
  | none =>
    release a
    return (false, p)
  | some frames =>
    let p := { p with
      userStackPages := frames
      userStackTop := pageAddress + processUserStackPages * 4096 }
    release a
    return (true, p)

/-! ## The ten calls -/

inductive LockedCall where
  | waitSignal (turns : List Turn)
  | wait (turns : List Turn)
  | takeSignal (p : ProcessControl)
  | sendSignal (p : ProcessControl) (signal : Nat)
  | setSignalMask (p : ProcessControl) (mask : BitVec 32)
  | terminate (p : ProcessControl) (isCurrent : Bool) (status : Int)
  | destroy (s : Processes) (p : ProcessControl) (answers : DestroyAnswers)
  | activate (p : ProcessControl) (spaceActivated : Bool)
  | loadImage (p : ProcessControl) (loaded : Bool)
  | mapUserStack (p : ProcessControl) (pageAddress : Nat) (frame : Nat → Nat) (mapped : Nat → Bool)

/-- The locking of a call on the process at `a`. -/
def LockedCall.locks (a : Nat) : LockedCall → List (LockEvent Nat)
  | .waitSignal turns => lockTrace (processWaitSignal a turns)
  | .wait turns => lockTrace (processWait a turns)
  | .takeSignal p => lockTrace (processTakeSignal a p)
  | .sendSignal p signal => lockTrace (processSendSignal a p signal)
  | .setSignalMask p mask => lockTrace (processSetSignalMask a p mask)
  | .terminate p isCurrent status => lockTrace (processTerminate a p isCurrent status)
  | .destroy s p answers => lockTrace (processDestroy a s p answers)
  | .activate p spaceActivated => lockTrace (processActivate a p spaceActivated)
  | .loadImage p loaded => lockTrace (processLoadImage a p loaded)
  | .mapUserStack p pageAddress frame mapped =>
    lockTrace (processMapUserStack a p pageAddress frame mapped)

end KernelBoot.Process
