import KernelBoot.Process.Handle

/-!
# Processes and their handles (`kernel/core/process/process.c`, `kernel/core/syscall/syscall.c`)

The part of a process that handle inheritance reads and writes: its state, its table and the two
standard handles. `spawnHandles` is what the SPAWN system call does with handles, in its order:
check the redirection against the parent, create the child, inherit, set the standard handles.
-/

namespace KernelBoot.Process

inductive ProcessState where
  | new
  | ready
  | running
  | exited
  deriving DecidableEq

structure ProcessT where
  state : ProcessState
  handles : HandleTable
  standardInputHandle : Nat
  standardOutputHandle : Nat

/-- A process as `process_create` leaves it. -/
def processCreate : ProcessT where
  state := .new
  handles := processHandleTableInitialize
  standardInputHandle := 0
  standardOutputHandle := 0

/-- `process_inherit_handles` for two distinct processes: the child and the retain calls. -/
def processInheritHandles (child parent : ProcessT) : Bool × ProcessT × List Callback :=
  if parent.state = .exited then (false, child, [])
  else if child.state ≠ .new then (false, child, [])
  else
    match processHandleTableInherit child.handles parent.handles with
    | (false, _, _) => (false, child, [])
    | (true, handles, callbacks) =>
      (true, { child with
        handles
        standardInputHandle := parent.standardInputHandle
        standardOutputHandle := parent.standardOutputHandle }, callbacks)

/-- `process_set_standard_handles`. -/
def processSetStandardHandles (process : ProcessT) (input output : Nat) : Bool × ProcessT :=
  if (input ≠ 0 ∧ processHandleGet process.handles input handleRead = 0) ∨
      (output ≠ 0 ∧ processHandleGet process.handles output handleWrite = 0) then (false, process)
  else (true, { process with standardInputHandle := input, standardOutputHandle := output })

/-- The test SPAWN makes of a redirection, on the parent's table. -/
def redirectValid (parent : ProcessT) (input output : Nat) : Bool :=
  (input != 0 || output != 0) &&
  (input == 0 || processHandleGet parent.handles input handleRead != 0) &&
  (output == 0 || processHandleGet parent.handles output handleWrite != 0)

/-- The handles of a spawned child; `none` where SPAWN answers an error. -/
def spawnHandles (parent : ProcessT) (redirect : Option (Nat × Nat)) : Option ProcessT :=
  let (input, output) := redirect.getD (0, 0)
  if redirect.isSome && !redirectValid parent input output then none
  else
    match processInheritHandles processCreate parent with
    | (false, _, _) => none
    | (true, child, _) =>
      match processSetStandardHandles child input output with
      | (false, _) => none
      | (true, child) => some child

end KernelBoot.Process
