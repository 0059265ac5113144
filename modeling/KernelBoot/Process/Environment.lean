import Mathlib.Data.List.Basic

/-!
# The process environment (`kernel/core/process/process.c`)

A block of 256 bytes with entries `key=value` packed back to back, each ended by a zero byte; a zero
byte in place of an entry ends the block. The loops of the source walk it with an offset; here they
walk the part of the block from that offset on. `process_environment_set` and
`process_environment_unset` rebuild the block in a zeroed buffer; `updated` is the part of that
buffer written so far, so its length is the source's `output`.
-/

namespace KernelBoot.Process

open List

/-- `PROCESS_ENVIRONMENT_SIZE`. -/
def processEnvironmentSize : Nat := 256

/-- `'='`. -/
def equalsSign : UInt8 := 61

/-- `process->environment`. -/
structure Environment where
  bytes : List UInt8
  size : bytes.length = processEnvironmentSize

/-- A zeroed buffer with these bytes written at its start. -/
def Environment.ofWritten (written : List UInt8) : Environment where
  bytes := (written ++ List.replicate processEnvironmentSize 0).take processEnvironmentSize
  size := by
    rw [length_take, length_append, length_replicate]
    omega

/-- `"PATH=/:/bin:/usr/bin"`. -/
def defaultEnvironment : List UInt8 :=
  [80, 65, 84, 72, 61, 47, 58, 47, 98, 105, 110, 58, 47, 117, 115, 114, 47, 98, 105, 110]

/-- The environment `process_create` gives a process. -/
def environmentInitial : Environment := .ofWritten defaultEnvironment

/-- The bytes up to the next zero byte or the end of the block. -/
def entryAt (rest : List UInt8) : List UInt8 := rest.takeWhile (· ≠ 0)

/-- The bytes of an entry up to its first `=`. -/
def beforeSeparator (entry : List UInt8) : List UInt8 := entry.takeWhile (· ≠ equalsSign)

def environmentKeyMatches (entry key : List UInt8) : Bool :=
  (beforeSeparator entry).length = key.length ∧ entry.take key.length = key

/-- The block goes on with an entry here. -/
def entryFollows : List UInt8 → Bool
  | [] => false
  | byte :: _ => byte ≠ 0

theorem entryAt_shortens {rest : List UInt8} (h : entryFollows rest = true) :
    (rest.drop ((entryAt rest).length + 1)).length < rest.length := by
  cases rest with
  | nil => cases h
  | cons byte rest =>
    rw [length_drop, length_cons]
    omega

/-- The loop of `process_environment_get`: the length it returns, and what it writes to `value`. -/
def environmentGetLoop (key : List UInt8) (capacity : Nat) (rest : List UInt8) :
    Nat × Option (List UInt8) :=
  if h : entryFollows rest = true then
    let entry := entryAt rest
    if environmentKeyMatches entry key then
      let separator := (beforeSeparator entry).length
      if separator = entry.length then (0, none)
      else
        let length := entry.length - separator - 1
        if capacity < length + 1 then (0, none)
        else (length, some ((rest.drop (separator + 1)).take (length + 1)))
    else environmentGetLoop key capacity (rest.drop (entry.length + 1))
  else (0, none)
termination_by rest.length
decreasing_by exact entryAt_shortens h

def processEnvironmentGet (environment : Environment) (key : List UInt8) (capacity : Nat) :
    Nat × Option (List UInt8) :=
  if key.length = 0 ∨ capacity = 0 then (0, none)
  else environmentGetLoop key capacity environment.bytes

/-- The loop that `process_environment_set` and `process_environment_unset` share: copy every entry
with another key, its zero byte included. -/
def copyOthers (key rest updated : List UInt8) : Option (List UInt8) :=
  if h : entryFollows rest = true then
    let entry := entryAt rest
    if !environmentKeyMatches entry key then
      if processEnvironmentSize ≤ updated.length + entry.length + 1 then none
      else copyOthers key (rest.drop (entry.length + 1)) (updated ++ rest.take (entry.length + 1))
    else copyOthers key (rest.drop (entry.length + 1)) updated
  else some updated
termination_by rest.length
decreasing_by all_goals exact entryAt_shortens h

def processEnvironmentSet (environment : Environment) (key value : List UInt8) :
    Bool × Environment :=
  if key.length = 0 ∨ 32 < key.length ∨ processEnvironmentSize - 2 < value.length then
    (false, environment)
  else if key.any fun byte => byte == equalsSign || byte == 0 then (false, environment)
  else
    match copyOthers key environment.bytes [] with
    | none => (false, environment)
    | some updated =>
      let entryLength := key.length + 1 + value.length
      if processEnvironmentSize ≤ updated.length + entryLength + 1 then (false, environment)
      else (true, .ofWritten (updated ++ key ++ equalsSign :: value))

def processEnvironmentUnset (environment : Environment) (key : List UInt8) : Bool × Environment :=
  if key.length = 0 ∨ 32 < key.length then (false, environment)
  else
    match copyOthers key environment.bytes [] with
    | none => (false, environment)
    | some updated => (true, .ofWritten updated)

inductive EnvironmentCall where
  | set (key value : List UInt8)
  | unset (key : List UInt8)

def EnvironmentCall.effect (environment : Environment) : EnvironmentCall → Bool × Environment
  | .set key value => processEnvironmentSet environment key value
  | .unset key => processEnvironmentUnset environment key

/-! ## `OS_SYSCALL_GETENV` (`kernel/core/syscall/syscall.c`) -/

/-- What the system call sees of the caller's memory: the bytes it can read, and the ranges
`user_range` finds writable. -/
structure UserMemory where
  byte : Nat → Option UInt8
  writable : (address size : Nat) → Bool
  writable_mono : ∀ {address size size'}, size' ≤ size → writable address size = true →
    writable address size' = true

/-- `syscall_copy_string`: up to `capacity` bytes, the last of them zero. -/
def syscallCopyString (user : UserMemory) (source : Nat) : (capacity : Nat) → Option (List UInt8)
  | 0 => none
  | capacity + 1 =>
    match user.byte source with
    | none => none
    | some byte =>
      if byte = 0 then some []
      else (syscallCopyString user (source + 1) capacity).map (byte :: ·)

/-- The arguments and the string at `arg1` are accepted, and this is the string. -/
def getenvKey (user : UserMemory) (arg1 arg2 arg3 : Nat) : Option (List UInt8) :=
  if arg1 = 0 ∨ arg2 = 0 ∨ arg3 = 0 ∨ processEnvironmentSize < arg3 ∨ !user.writable arg2 arg3 then none
  else syscallCopyString user arg1 33

/-- The answer, `none` for an error, and the bytes copied to the caller. `value` is what the buffer of
that name holds before: it is on the kernel's stack and not initialised. -/
def getenv (user : UserMemory) (environment : Environment) (arg1 arg2 arg3 : Nat)
    (value : Nat → UInt8) : Option Nat × List UInt8 :=
  match getenvKey user arg1 arg2 arg3 with
  | none => (none, [])
  | some key =>
    let (length, written) := processEnvironmentGet environment key arg3
    let value := fun i => (written.bind (·[i]?)).getD (value i)
    if user.writable arg2 (length + 1) then (some length, (List.range (length + 1)).map value)
    else (none, [])

end KernelBoot.Process
