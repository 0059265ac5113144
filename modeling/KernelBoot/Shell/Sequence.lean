import Mathlib

/-!
# Command lists of the shell (`userland/shell/shell.c`, `userland/shell/main.c`)

`shell_split_next`, and `shell_main` from `command_ready` on. A line is the bytes before its
terminator. What a command does is left open: it returns a status. An empty command does nothing and
returns none.
-/

namespace KernelBoot.Shell

open List

/-- `shell_sequence_operator_t`. -/
inductive SequenceOperator
  | none
  | semicolon
  | and
  | or
  deriving DecidableEq

def isBlank (value : UInt8) : Bool := value == 32 || value == 9

/-- The search for a separator outside quotes: what is before it, its operator, what is behind it. -/
def findSeparator (before : List UInt8) (quote : UInt8) (escaped : Bool) :
    List UInt8 → Option (List UInt8 × SequenceOperator × List UInt8)
  | [] => .none
  | value :: rest =>
    let next := fun quote escaped => findSeparator (before ++ [value]) quote escaped rest
    if escaped then next quote false
    else if value = 92 then next quote true
    else if quote ≠ 0 then next (if value = quote then 0 else quote) false
    else if value = 39 ∨ value = 34 then next value false
    else if value = 59 then some (before, .semicolon, rest)
    else if value = 38 ∧ rest.head? = some 38 then some (before, .and, rest.tail)
    else if value = 124 ∧ rest.head? = some 124 then some (before, .or, rest.tail)
    else next 0 false

/-- What `shell_split_next` returns and leaves behind. -/
structure Split where
  accepted : Bool
  line : List UInt8
  operator : SequenceOperator
  remainder : List UInt8

def shellSplitNext (line : List UInt8) (capacity : Nat) : Split :=
  match findSeparator [] 0 false line with
  | .none => ⟨true, line, .none, []⟩
  | some (first, operator, rest) =>
    let tail := (rest.dropWhile isBlank).rdropWhile isBlank
    -- the operator is set before the remainder is found too long
    if capacity ≤ tail.length then ⟨false, line, operator, []⟩
    else ⟨true, first.rdropWhile isBlank, operator, tail⟩

theorem findSeparator_length {before line first rest : List UInt8} {quote : UInt8} {escaped : Bool}
    {operator : SequenceOperator}
    (h : findSeparator before quote escaped line = some (first, operator, rest)) :
    rest.length < line.length := by
  induction line generalizing before quote escaped with
  | nil => cases h
  | cons value line ih =>
    rw [findSeparator] at h
    rw [length_cons]
    have htail : line.tail.length ≤ line.length := (tail_sublist line).length_le
    split_ifs at h
    all_goals first
      | exact Nat.lt_succ_of_lt (ih h)
      | cases h; exact Nat.lt_succ_of_le htail
      | cases h; exact Nat.lt_succ_self _

theorem trim_length_le (rest : List UInt8) :
    ((rest.dropWhile isBlank).rdropWhile isBlank).length ≤ rest.length :=
  ( rdropWhile_prefix ..).length_le.trans (dropWhile_suffix _).length_le

theorem shellSplitNext_remainder {line : List UInt8} {capacity : Nat}
    (h : (shellSplitNext line capacity).remainder ≠ []) :
    (shellSplitNext line capacity).remainder.length < line.length := by
  revert h
  fun_cases shellSplitNext line capacity
  · exact absurd rfl
  · exact absurd rfl
  next rest hfound _ _ => exact fun _ => (trim_length_le rest).trans_lt (findSeparator_length hfound)

/-- What is carried from one command to the next, also over the end of a line. -/
structure ShellState where
  pendingOperator : SequenceOperator
  lastStatus : Int

def ShellState.initial : ShellState := ⟨.none, 0⟩

/-- `run_command`. -/
def runCommand (commandOperator : SequenceOperator) (lastStatus : Int) : Bool :=
  if commandOperator = .or ∧ lastStatus = 0 then false
  else commandOperator ≠ .and ∨ lastStatus = 0

/-- `SHELL_EMPTY` of `shell_parse`. -/
def isEmptyCommand (line : List UInt8) : Bool :=
  line.all fun value => isBlank value || value == 13 || value == 10

/-- The passes of `command_ready` over one line, the command number `k` first: which commands are
executed. The status of a command is that of its place in the line. -/
def commandReady (status : Nat → Int) (k : Nat) (line : List UInt8) (s : ShellState) :
    List Bool × ShellState :=
  let split := shellSplitNext line 128
  let command := if split.accepted then split.line else []
  let executed := runCommand s.pendingOperator s.lastStatus && !isEmptyCommand command
  let next := ⟨split.operator, if executed then status k else s.lastStatus⟩
  if _h : split.remainder = [] then ([executed], next)
  else
    let later := commandReady status (k + 1) split.remainder next
    (executed :: later.1, later.2)
termination_by line.length
decreasing_by exact shellSplitNext_remainder _h

/-- A line as `shell_edit_line_cursor` lets it grow, and the statuses of its commands. -/
structure SubmittedLine where
  text : List UInt8
  status : Nat → Int
  fits : text.length < 128

/-- Which commands of each line are executed. -/
def shellMain : ShellState → List SubmittedLine → List (List Bool)
  | _, [] => []
  | s, line :: lines =>
    let done := commandReady line.status 0 line.text s
    done.1 :: shellMain done.2 lines

end KernelBoot.Shell
