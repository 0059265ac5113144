import Mathlib.Data.List.Basic

/-!
# Programs that take and give back locks

`LockLog ι` is the monad of programs over locks named by `ι`, of which only the locking shows: a
program logs what it acquires and releases. `lockAfter` reads a log for one lock, and fails where the
lock is acquired while it is held or released while it is not. `LockSpec l before m after` is the
triple over it: from `before`, the program `m` uses `l` properly and leaves it as `after` says. The
rules below follow the constructs of the monad.
-/

namespace KernelBoot.Lib

open List

inductive LockEvent (ι : Type) where
  | acquire (lock : ι)
  | release (lock : ι)
  deriving DecidableEq

abbrev LockLog (ι : Type) := StateM (List (LockEvent ι))

variable {ι α β : Type}

def acquire (lock : ι) : LockLog ι Unit := modify (· ++ [.acquire lock])

def release (lock : ι) : LockLog ι Unit := modify (· ++ [.release lock])

/-- What a program logs. -/
def lockTrace (m : LockLog ι α) : List (LockEvent ι) := (m.run []).2

variable [DecidableEq ι]

/-- Whether a lock is held after a log; `none` if it was misused. -/
def lockAfter (lock : ι) : (held : Bool) → List (LockEvent ι) → Option Bool
  | held, [] => some held
  | held, .acquire l :: rest =>
    if l = lock then (if held then none else lockAfter lock true rest) else lockAfter lock held rest
  | held, .release l :: rest =>
    if l = lock then (if held then lockAfter lock false rest else none)
    else lockAfter lock held rest

theorem lockAfter_append (lock : ι) (held : Bool) (first second : List (LockEvent ι)) :
    lockAfter lock held (first ++ second) =
      (lockAfter lock held first).bind fun held => lockAfter lock held second := by
  induction first generalizing held with
  | nil => rfl
  | cons event rest ih =>
    cases event with
    | acquire l =>
      rw [cons_append, lockAfter, lockAfter]
      split
      next =>
        split
        next => rfl
        next => exact ih true
      next => exact ih held
    | release l =>
      rw [cons_append, lockAfter, lockAfter]
      split
      next =>
        split
        next => exact ih false
        next => rfl
      next => exact ih held

/-- From `before`, the program leaves the lock as `after` says. -/
def LockSpec (lock : ι) (before : Bool) (m : LockLog ι α) (after : Bool) : Prop :=
  ∀ log, ∃ more, (m.run log).2 = log ++ more ∧ lockAfter lock before more = some after

section Rules

variable {lock : ι} {before between after : Bool} {m : LockLog ι α}

theorem LockSpec.trace (h : LockSpec lock before m after) :
    lockAfter lock before (lockTrace m) = some after := by
  obtain ⟨more, hmore, hlock⟩ := h []
  rw [lockTrace, hmore, nil_append]
  exact hlock

theorem LockSpec.pure (lock : ι) (held : Bool) (x : α) :
    LockSpec lock held (pure x : LockLog ι α) held :=
  fun log => ⟨[], (append_nil log).symm, rfl⟩

theorem LockSpec.bind {f : α → LockLog ι β} (hm : LockSpec lock before m between)
    (hf : ∀ x, LockSpec lock between (f x) after) : LockSpec lock before (m >>= f) after := by
  intro log
  obtain ⟨first, hfirst, hbetween⟩ := hm log
  obtain ⟨second, hsecond, hafter⟩ := hf (m.run log).1 (m.run log).2
  refine ⟨first ++ second, ?_, ?_⟩
  · rw [← append_assoc, ← hfirst]
    exact hsecond
  · rw [lockAfter_append, hbetween, Option.bind_some, hafter]

theorem LockSpec.acquire (lock : ι) : LockSpec lock false (acquire lock) true :=
  fun log => ⟨[.acquire lock], rfl, by rw [lockAfter, if_pos rfl]; rfl⟩

theorem LockSpec.release (lock : ι) : LockSpec lock true (release lock) false :=
  fun log => ⟨[.release lock], rfl, by rw [lockAfter, if_pos rfl]; rfl⟩

theorem LockSpec.acquire_other {other : ι} (hne : other ≠ lock) (held : Bool) :
    LockSpec lock held (Lib.acquire other) held :=
  fun log => ⟨[.acquire other], rfl, by rw [lockAfter, if_neg hne]; rfl⟩

theorem LockSpec.release_other {other : ι} (hne : other ≠ lock) (held : Bool) :
    LockSpec lock held (Lib.release other) held :=
  fun log => ⟨[.release other], rfl, by rw [lockAfter, if_neg hne]; rfl⟩

/-- A critical section: acquire, and a rest that gives the lock back. -/
theorem LockSpec.locked (hm : LockSpec lock true m after) :
    LockSpec lock false (do Lib.acquire lock; m) after :=
  (LockSpec.acquire lock).bind fun _ => hm

/-- The end of a critical section. -/
theorem LockSpec.unlocked (hm : LockSpec lock false m after) :
    LockSpec lock true (do Lib.release lock; m) after :=
  (LockSpec.release lock).bind fun _ => hm

/-- Release, then answer: what every early exit does. -/
theorem LockSpec.unlockReturn (lock : ι) (x : α) :
    LockSpec lock true (do Lib.release lock; Pure.pure x) false :=
  LockSpec.unlocked (LockSpec.pure lock false x)

theorem LockSpec.ite {c : Prop} [Decidable c] {n : LockLog ι α}
    (hm : c → LockSpec lock before m after) (hn : ¬ c → LockSpec lock before n after) :
    LockSpec lock before (if c then m else n) after := by
  split
  next hc => exact hm hc
  next hc => exact hn hc

/-- A check that fails gives the lock back. -/
theorem LockSpec.guard {c : Prop} [Decidable c] {n : LockLog ι α} {x : α}
    (hn : LockSpec lock true n false) :
    LockSpec lock true (if c then do Lib.release lock; Pure.pure x else n) false :=
  .ite (fun _ => .unlockReturn lock x) fun _ => hn

end Rules

end KernelBoot.Lib
