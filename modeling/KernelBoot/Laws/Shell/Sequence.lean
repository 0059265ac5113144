import KernelBoot.Lib.Run
import KernelBoot.Shell.Sequence

/-!
# And-or lists of the shell

A line is evaluated from left to right. The operator that ends a line is still pending when the next
line is submitted, so it decides whether that line's first command is executed.
-/

namespace KernelBoot.Shell

open Lib List

variable {line : List UInt8} {s : ShellState}

theorem shellSplitNext_accepted (h : line.length < 128) :
    (shellSplitNext line 128).accepted = true := by
  fun_cases shellSplitNext line 128
  · rfl
  next rest hfound tail hlong =>
    have hrest : tail.length < line.length :=
      (trim_length_le rest).trans_lt (findSeparator_length hfound)
    omega
  · rfl

/-- The commands of a line, each with the operator behind it. -/
def commands (line : List UInt8) : List (List UInt8 × SequenceOperator) :=
  let split := shellSplitNext line 128
  (split.line, split.operator) :: if _h : split.remainder = [] then [] else commands split.remainder
termination_by line.length
decreasing_by exact shellSplitNext_remainder _h

/-- Whether a command behind this operator is to be executed. -/
def SequenceOperator.admits : SequenceOperator → Int → Bool
  | .and, lastStatus => lastStatus == 0
  | .or, lastStatus => lastStatus != 0
  | _, _ => true

/-- Left-to-right evaluation. The state at the end has the operator that ends the list. -/
def evaluate (status : Nat → Int) : Nat → ShellState → List (List UInt8 × SequenceOperator) →
    List Bool × ShellState
  | _, s, [] => ([], s)
  | k, s, (command, operator) :: rest =>
    let executed := s.pendingOperator.admits s.lastStatus && !isEmptyCommand command
    let next := ⟨operator, if executed then status k else s.lastStatus⟩
    let later := evaluate status (k + 1) next rest
    (executed :: later.1, later.2)

theorem runCommand_eq (operator : SequenceOperator) (lastStatus : Int) :
    runCommand operator lastStatus = operator.admits lastStatus := by
  cases operator <;> by_cases h : lastStatus = 0 <;> simp [runCommand, SequenceOperator.admits, h]

theorem commandReady_eq (status : Nat → Int) (k : Nat) (s : ShellState) (h : line.length < 128) :
    commandReady status k line s = evaluate status k s (commands line) := by
  induction hlength : line.length using Nat.strongRecOn generalizing line k s with
  | ind length ih =>
    rw [commandReady, commands, evaluate, runCommand_eq]
    dsimp only
    rw [if_pos (shellSplitNext_accepted h)]
    split
    next => rfl
    next hmore =>
      have hshort := shellSplitNext_remainder hmore
      rw [ih _ (hlength ▸ hshort) _ _ (hshort.trans h) rfl]

/-- A new line, with nothing pending. -/
def SubmittedLine.evaluate (line : SubmittedLine) (s : ShellState) : List Bool × ShellState :=
  Shell.evaluate line.status 0 ⟨.none, s.lastStatus⟩ (commands line.text)

def evaluateLines : ShellState → List SubmittedLine → List (List Bool)
  | _, [] => []
  | s, line :: lines => (line.evaluate s).1 :: evaluateLines (line.evaluate s).2 lines

/-- The operator that ended the line before would let the first command of this one be executed, or
that command is empty. -/
def Unhindered (s : ShellState) (line : SubmittedLine) : Prop :=
  s.pendingOperator.admits s.lastStatus = true ∨
    isEmptyCommand (shellSplitNext line.text 128).line = true

theorem commandReady_unhindered {line : SubmittedLine} (h : Unhindered s line) :
    commandReady line.status 0 line.text s = line.evaluate s := by
  rw [commandReady_eq _ _ _ line.fits, SubmittedLine.evaluate, commands, evaluate, evaluate]
  rcases h with h | h
  · rw [h]
    rfl
  · simp only [h, Bool.not_true, Bool.and_false]

theorem commandReady_hindered {line : SubmittedLine} (h : ¬Unhindered s line) :
    (commandReady line.status 0 line.text s).1 ≠ (line.evaluate s).1 := by
  rw [Unhindered, not_or, Bool.not_eq_true, Bool.not_eq_true] at h
  rw [commandReady_eq _ _ _ line.fits, SubmittedLine.evaluate, commands, evaluate, evaluate]
  rw [h.1, h.2]
  exact fun heq => Bool.false_ne_true (cons.inj heq).1

/-- The shell executes the commands of left-to-right evaluation exactly if no line but the last ends
in an operator that keeps the first command of the next line from being executed. -/
theorem shellMain_evaluateLines_iff (lines : List SubmittedLine) :
    shellMain .initial lines = evaluateLines .initial lines ↔
      Each (fun s line => (SubmittedLine.evaluate line s).2) Unhindered .initial lines := by
  generalize ShellState.initial = s
  induction lines generalizing s with
  | nil => exact iff_of_true rfl trivial
  | cons line lines ih =>
    rw [shellMain, evaluateLines, Each, cons.injEq]
    by_cases h : Unhindered s line
    · rw [commandReady_unhindered h, ih]
      exact and_congr_left' (iff_of_true rfl h)
    · exact iff_of_false (fun heq => commandReady_hindered h heq.1) fun hall => h hall.1

/-- `f&&` and then `g`, where `f` fails: the second line is not executed. -/
theorem shellMain_dangling :
    let lines : List SubmittedLine :=
      [⟨[102, 38, 38], fun _ => 1, by decide⟩, ⟨[103], fun _ => 0, by decide⟩]
    shellMain .initial lines = [[true], [false]] ∧
      evaluateLines .initial lines = [[true], [true]] := by
  dsimp only
  have hf : commands [102, 38, 38] = [([102], .and)] := by rw [commands]; rfl
  have hg : commands [103] = [([103], .none)] := by rw [commands]; rfl
  rw [shellMain, shellMain, shellMain, commandReady_eq _ _ _ (by decide),
    commandReady_eq _ _ _ (by decide), evaluateLines, evaluateLines, evaluateLines,
    SubmittedLine.evaluate, SubmittedLine.evaluate]
  dsimp only
  rw [hf, hg]
  decide

/-! ## Nothing of a line is lost -/

def SequenceOperator.text : SequenceOperator → List UInt8
  | .none => []
  | .semicolon => [59]
  | .and => [38, 38]
  | .or => [124, 124]

/-- The bytes that are not blank. -/
def visible (line : List UInt8) : List UInt8 := line.filter (!isBlank ·)

theorem findSeparator_parts {before first rest : List UInt8} {quote : UInt8} {escaped : Bool}
    {operator : SequenceOperator}
    (h : findSeparator before quote escaped line = some (first, operator, rest)) :
    before ++ line = first ++ operator.text ++ rest := by
  induction line generalizing before quote escaped with
  | nil => cases h
  | cons value line ih =>
    rw [findSeparator] at h
    split_ifs at h
    all_goals first
      | rw [← ih h, append_assoc, singleton_append]
      | cases h; simp_all [SequenceOperator.text, cons_head?_tail]

theorem visible_dropWhile (line : List UInt8) : visible (line.dropWhile isBlank) = visible line := by
  induction line with
  | nil => rfl
  | cons value line ih => cases h : isBlank value <;> simp_all [visible]

theorem visible_rdropWhile (line : List UInt8) : visible (line.rdropWhile isBlank) = visible line := by
  have h := visible_dropWhile line.reverse
  simp_all [visible, rdropWhile]

theorem shellSplitNext_visible (h : line.length < 128) :
    let split := shellSplitNext line 128
    visible split.line ++ split.operator.text ++ visible split.remainder = visible line := by
  have haccepted := shellSplitNext_accepted h
  revert haccepted
  fun_cases shellSplitNext line 128
  · simp [SequenceOperator.text, visible]
  · simp
  next first operator rest hfound tail _ =>
    intro _
    have htext : operator.text.filter (!isBlank ·) = operator.text := by cases operator <;> rfl
    dsimp only [tail]
    rw [← nil_append line, findSeparator_parts hfound, visible_rdropWhile, visible_rdropWhile,
      visible_dropWhile]
    simp only [visible, filter_append, htext]

/-- The commands of a line and the operators between them are the line again, but for blanks. -/
theorem commands_visible (line : SubmittedLine) :
    (commands line.text).flatMap (fun command => visible command.1 ++ command.2.text) =
      visible line.text := by
  obtain ⟨text, -, h⟩ := line
  induction hlength : text.length using Nat.strongRecOn generalizing text with
  | ind length ih =>
    rw [commands, ← shellSplitNext_visible h, flatMap_cons]
    split
    next hnone => simp [hnone, visible]
    next hmore =>
      have hshort := shellSplitNext_remainder hmore
      rw [ih _ (hlength ▸ hshort) _ (hshort.trans h) rfl]

end KernelBoot.Shell
