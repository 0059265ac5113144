import KernelBoot.Process.Locking

/-!
# The process lock is given back

For each of the ten calls, the state of `process->lock` when it returns, by the rules of
`Lib.Locking` along its branches. Nine of them leave the lock free on every path, and never take it
twice or release it unheld; `process_destroy` does so although it works on the locks of other
processes while it holds its own, because reparenting leaves the parent out.

`process_wait_signal` is the exception. When it finds an exited process with no signal to take, it
returns without having blocked, and so without anyone having released the lock (`waitSignal_spec`).
-/

namespace KernelBoot.Process

open Lib List

variable {a : Nat} {p : ProcessControl}

/-! ## Signals -/

theorem sendSignal_spec (a : Nat) (p : ProcessControl) (signal : Nat) :
    LockSpec a false (processSendSignal a p signal) false := by
  refine LockSpec.ite (fun _ => LockSpec.pure a false _) fun _ => LockSpec.locked ?_
  exact LockSpec.guard (.unlockReturn a _)

theorem setSignalMask_spec (a : Nat) (p : ProcessControl) (mask : BitVec 32) :
    LockSpec a false (processSetSignalMask a p mask) false :=
  LockSpec.locked (.guard (.unlockReturn a _))

theorem takeSignal_spec (a : Nat) (p : ProcessControl) :
    LockSpec a false (processTakeSignal a p) false :=
  LockSpec.locked (LockSpec.unlockReturn a _)

/-! ## Waiting -/

/-- Every way a block can end releases the lock. -/
theorem block_eq (a : Nat) (outcome : BlockOutcome) :
    schedulerBlockCurrentWithLock a outcome = (do
      release a
      return decide (outcome = .switched)) := by
  cases outcome with
  | noTask => rfl
  | refused => rfl
  | alone => rfl
  | switched => rfl

theorem block_spec (a : Nat) (outcome : BlockOutcome) :
    LockSpec a true (schedulerBlockCurrentWithLock a outcome) false := by
  rw [block_eq]
  exact LockSpec.unlockReturn a _

theorem wait_spec (a : Nat) (turns : List Turn) :
    LockSpec a false (processWait a turns) false := by
  induction turns with
  | nil => exact LockSpec.pure a false _
  | cons turn later ih =>
    obtain ⟨p, outcome⟩ := turn
    refine LockSpec.locked (.guard ?_)
    refine (block_spec a outcome).bind fun blocked => ?_
    exact LockSpec.ite (fun _ => ih) fun _ => LockSpec.pure a false _

/-- A turn of the wait finds the process exited and no signal to take. -/
def meetsExit : List Turn → Bool
  | [] => false
  | (p, outcome) :: later =>
    if (takeSignalLocked p).isSome then false
    else if p.state = .exited then true
    else if outcome = .switched then meetsExit later
    else false

/-- The lock is held at the end exactly when the wait met an exited process. -/
theorem waitSignal_spec (a : Nat) (turns : List Turn) :
    LockSpec a false (processWaitSignal a turns) (meetsExit turns) := by
  induction turns with
  | nil => exact LockSpec.pure a false _
  | cons turn later ih =>
    obtain ⟨p, outcome⟩ := turn
    rw [meetsExit, processWaitSignal]
    refine LockSpec.locked ?_
    cases takeSignalLocked p with
    | some taken => exact LockSpec.unlockReturn a _
    | none =>
      rw [Option.isSome_none, if_neg Bool.false_ne_true]
      dsimp only
      split
      next => exact LockSpec.pure a true _
      next =>
        rw [block_eq]
        by_cases hswitched : outcome = .switched
        · rw [if_pos hswitched, decide_eq_true hswitched]
          exact LockSpec.unlocked ih
        · rw [if_neg hswitched, decide_eq_false hswitched]
          exact LockSpec.unlockReturn a _

/-! ## The end of a process -/

theorem terminate_spec (a : Nat) (p : ProcessControl) (isCurrent : Bool) (status : Int) :
    LockSpec a false (processTerminate a p isCurrent status) false := by
  refine LockSpec.locked (.guard ?_)
  refine LockSpec.guard ?_
  exact LockSpec.guard (.unlockReturn a _)

/-- Another process's lock, taken and given back. -/
theorem otherLock_spec {other : Nat} (hne : other ≠ a) (held : Bool) {β : Type}
    {m : LockLog Nat β} {after : Bool} (hm : LockSpec a held m after) :
    LockSpec a held (do acquire other; release other; m) after :=
  (LockSpec.acquire_other hne held).bind fun _ => (LockSpec.release_other hne held).bind fun _ => hm

/-- The snapshot leaves the parent out. -/
theorem snapshot_ne {parent : Nat} {slots : List Nat} {s : Processes} {child : Nat}
    (hchild : child ∈ (Processes.snapshot parent slots s).1) : child ≠ parent := by
  fun_induction Processes.snapshot parent slots s
  · exact absurd hchild not_mem_nil
  next ih => exact ih hchild
  next ih => exact ih hchild
  next ih => exact ih hchild
  next hne _ _ _ _ hrest ih =>
    rcases mem_cons.mp hchild with rfl | hlater
    · exact hne
    · exact ih (by rwa [hrest])

/-- Reparenting never touches the lock of the parent, whether it is held or not. -/
theorem reparentChild_spec {child : Nat} (hne : child ≠ a) (held : Bool) (s : Processes) :
    LockSpec a held (reparentChildLocks s a child) held := by
  have hchild := otherLock_spec hne held (LockSpec.pure a held (s.reparentChild a child))
  have hreplacement : LockSpec a held (replacementLocks a (s.replacement a).1) held := by
    cases (s.replacement a).1 with
    | none => exact LockSpec.pure a held ()
    | some replacement =>
      refine LockSpec.ite (fun hother => ?_) fun _ => LockSpec.pure a held ()
      exact (LockSpec.acquire_other hother held).bind fun _ => LockSpec.release_other hother held
  exact hreplacement.bind fun _ => hchild

theorem reparentLocks_spec (held : Bool) {children : List Nat} (hne : ∀ c ∈ children, c ≠ a)
    (s : Processes) : LockSpec a held (reparentLocks a children s) held := by
  induction children generalizing s with
  | nil => exact LockSpec.pure a held s
  | cons child rest ih =>
    refine (reparentChild_spec (hne child mem_cons_self) held s).bind fun s' => ?_
    exact ih (fun c hc => hne c (mem_cons_of_mem child hc)) s'

theorem reparentChildren_spec (a : Nat) (held : Bool) (s : Processes) :
    LockSpec a held (processReparentChildren s a) held := by
  have hne : ∀ c ∈ (Processes.snapshot a (List.range processMax) s).1, c ≠ a :=
    fun c hc => snapshot_ne hc
  exact reparentLocks_spec held hne (Processes.snapshot a (List.range processMax) s).2

theorem destroy_spec (a : Nat) (s : Processes) (p : ProcessControl) (answers : DestroyAnswers) :
    LockSpec a false (processDestroy a s p answers) false := by
  refine LockSpec.locked (.guard ?_)
  refine LockSpec.guard ?_
  refine LockSpec.guard ?_
  refine LockSpec.guard ?_
  refine LockSpec.guard ?_
  refine (reparentChildren_spec a true s).bind fun _ => ?_
  exact LockSpec.guard (.unlockReturn a _)

/-! ## The start of a process -/

theorem activate_spec (a : Nat) (p : ProcessControl) (spaceActivated : Bool) :
    LockSpec a false (processActivate a p spaceActivated) false :=
  LockSpec.locked (.guard (.unlockReturn a _))

theorem loadImage_spec (a : Nat) (p : ProcessControl) (loaded : Bool) :
    LockSpec a false (processLoadImage a p loaded) false :=
  LockSpec.locked (.guard (.unlockReturn a _))

theorem mapUserStack_spec (a : Nat) (p : ProcessControl) (pageAddress : Nat) (frame : Nat → Nat)
    (mapped : Nat → Bool) :
    LockSpec a false (processMapUserStack a p pageAddress frame mapped) false := by
  refine LockSpec.locked (.guard ?_)
  cases mapStackPages frame mapped (List.range processUserStackPages) with
  | none => exact LockSpec.unlockReturn a _
  | some frames => exact LockSpec.unlockReturn a _

/-! ## All ten -/

/-- The call is a `process_wait_signal` that comes upon an exited process with no signal to take. -/
def LockedCall.MeetsExit : LockedCall → Prop
  | .waitSignal turns => meetsExit turns = true
  | _ => False

/-- Every call releases the lock of its process once for each time it takes it, but for a
`process_wait_signal` that comes upon an exited process. -/
theorem lock_released_iff (a : Nat) (call : LockedCall) :
    lockAfter a false (call.locks a) = some false ↔ ¬ call.MeetsExit := by
  cases call with
  | waitSignal turns =>
    show lockAfter a false (lockTrace (processWaitSignal a turns)) = some false ↔
      ¬ meetsExit turns = true
    rw [(waitSignal_spec a turns).trace, Option.some.injEq, Bool.not_eq_true]
  | wait turns => exact iff_of_true (wait_spec a turns).trace not_false
  | takeSignal p => exact iff_of_true (takeSignal_spec a p).trace not_false
  | sendSignal p signal => exact iff_of_true (sendSignal_spec a p signal).trace not_false
  | setSignalMask p mask => exact iff_of_true (setSignalMask_spec a p mask).trace not_false
  | terminate p isCurrent status =>
    exact iff_of_true (terminate_spec a p isCurrent status).trace not_false
  | destroy s p answers => exact iff_of_true (destroy_spec a s p answers).trace not_false
  | activate p spaceActivated => exact iff_of_true (activate_spec a p spaceActivated).trace not_false
  | loadImage p loaded => exact iff_of_true (loadImage_spec a p loaded).trace not_false
  | mapUserStack p pageAddress frame mapped =>
    exact iff_of_true (mapUserStack_spec a p pageAddress frame mapped).trace not_false

/-- An exited process with no signal pending. -/
def exitedProcess : ProcessControl where
  state := .exited
  exitStatus := 0
  pendingSignals := 0#32
  blockedSignals := 0#32
  threads := []
  retainedThreadReferences := 0
  userStackPages := []
  userStackTop := 0

/-- Waiting for a signal of an exited process answers 0 with the lock still held; the next
`process_wait` of the process finds it taken. -/
theorem lock_not_released_waitSignal :
    ((processWaitSignal 1 [(exitedProcess, .noTask)]).run []).1 = some none ∧
      (LockedCall.waitSignal [(exitedProcess, .noTask)]).locks 1 = [.acquire 1] ∧
      lockAfter 1 false ((LockedCall.waitSignal [(exitedProcess, .noTask)]).locks 1 ++
        (LockedCall.wait [(exitedProcess, .noTask)]).locks 1) = none := by
  refine ⟨?_, ?_, ?_⟩
  · decide +kernel
  · decide +kernel
  · decide +kernel

end KernelBoot.Process
