import KernelBoot.Lib.Attempt
import KernelBoot.Lib.LittleEndian
import KernelBoot.Mm.Heap
import KernelBoot.Mm.PageBytes
import KernelBoot.Process.Environment

/-!
# The initial user stack (`kernel/core/process/process.c`)

`process_prepare_user_stack`: the arguments are split into tokens, the strings are copied to the top of
the stack pages, and below them the vector that the program starts with. The scratch buffer of the
source is an allocation of the kernel heap; its arrays are the lists that the loops below carry. What a
failed write left in the stack pages stays there.
-/

namespace KernelBoot.Process

open Lib Lib.Attempt Mm

/-- `PROCESS_USER_STACK_PAGES`. -/
def userStackPages : Nat := 8

/-- The stack of a process whose `user_stack_page_count` is `PROCESS_USER_STACK_PAGES`. The frames are
those `process_map_user_stack` allocated, and the lowest page is a user address. -/
structure UserStack where
  pages : Fin 8 → Word
  base : Nat
  distinct : Function.Injective pages
  aligned : base % 0x1000 = 0
  user : 2 ^ 39 ≤ base ∧ base < 2 ^ 48 - userStackPages * 0x1000

/-- `user_stack_top`. -/
def UserStack.top (stack : UserStack) : Nat := stack.base + userStackPages * 0x1000

/-- The fields of a process that `process_prepare_user_stack` reads. -/
structure StackOwner where
  environment : Environment
  /-- The byte behind `environment`, the first one of `threads`. -/
  behind : UInt8
  /-- `none` while no stack is mapped. -/
  stack : Option UserStack

/-- A string as the bytes before its terminator. -/
structure CString where
  bytes : List UInt8
  nonzero : (0 : UInt8) ∉ bytes

/-- Physical memory, a page at its address. -/
abbrev Memory := Word → Page

/-- A list of bytes as a buffer. -/
def bufferOf (bytes : List UInt8) : Bytes := fun i => (bytes.getD i 0).toBitVec

/-! ## Writing to the stack -/

/-- The bytes of one turn of the copy loop: up to the end of the page or of the source. -/
def stackChunk (offset size : Nat) : Nat := min (0x1000 - offset % 0x1000) size

theorem stackChunk_pos {offset size : Nat} (h : size ≠ 0) : 0 < stackChunk offset size := by
  have := Nat.mod_lt offset (show 0 < 0x1000 by decide)
  rw [stackChunk]
  omega

/-- The frame under page number `n` of the stack. -/
def UserStack.frame (stack : UserStack) (n : Nat) : Word := stack.pages (Fin.ofNat 8 n)

/-- The loop of `process_user_stack_write`, with `source` the part that is still to be copied. -/
def stackCopy (stack : UserStack) (address : Nat) (source : List UInt8) (memory : Memory) : Memory :=
  if h : source.length = 0 then memory
  else
    let offset := address - stack.base
    let count := stackChunk offset source.length
    stackCopy stack (address + count) (source.drop count)
      (writeFrame memory (stack.frame (offset / 0x1000)) (offset % 0x1000) count
        (bufferOf source))
termination_by source.length
decreasing_by
  have : 0 < stackChunk (address - stack.base) source.length := stackChunk_pos h
  rw [List.length_drop]
  omega

def processUserStackWrite (stack : UserStack) (address : Nat) (source : List UInt8) :
    Attempt Memory Unit := do
  check (stack.base ≤ address ∧ address ≤ stack.top ∧ source.length ≤ stack.top - address)
  change (stackCopy stack address source)

/-- Copy strings below the cursor, the last one first; where each of them went, and the cursor. -/
def placeStrings (stack : UserStack) : (strings : List (List UInt8)) → (cursor : Nat) →
    (addresses : List Nat) → Attempt Memory (Nat × List Nat)
  | [], cursor, addresses => pure (cursor, addresses)
  | string :: rest, cursor, addresses => do
    processUserStackWrite stack (cursor - string.length) string
    placeStrings stack rest (cursor - string.length) ((cursor - string.length) :: addresses)

/-- The part of `process_prepare_user_stack` behind the tokenizer. The strings come with their
terminators. -/
def buildUserStack (stack : UserStack) (path : List UInt8) (tokens environment : List (List UInt8)) :
    Attempt Memory Nat := do
  let (cursor, argumentAddresses) ← placeStrings stack tokens.reverse stack.top []
  processUserStackWrite stack (cursor - path.length) path
  let pathAddress := cursor - path.length
  let (cursor, environmentAddresses) ← placeStrings stack environment.reverse pathAddress []
  let values := [1 + tokens.length, pathAddress] ++ argumentAddresses ++ [0] ++
    environmentAddresses ++ [0]
  let pointer := (cursor - (4 + tokens.length + environment.length) * 8) / 16 * 16
  processUserStackWrite stack pointer (values.flatMap (leBytes 8))
  return pointer

/-! ## Reading the environment and the arguments -/

/-- The loop over the environment block: the entries, each with the byte behind it. `none` is the exit
at the seventeenth entry. -/
def environmentScan (behind : UInt8) (rest : List UInt8) (entries : List (List UInt8)) :
    Option (List (List UInt8)) :=
  if h : entryFollows rest = true then
    if entries.length = 16 then none
    else environmentScan behind (rest.drop ((entryAt rest).length + 1))
      (entries ++ [(rest ++ [behind]).take ((entryAt rest).length + 1)])
  else some entries
termination_by rest.length
decreasing_by exact entryAt_shortens h

/-- `' '` and `'\t'`. -/
def isBlank (byte : UInt8) : Bool := byte == 32 || byte == 9

/-- `'\''` and `'"'`. -/
def isQuote (byte : UInt8) : Bool := byte == 39 || byte == 34

/-- `'\\'`. -/
def backslash : UInt8 := 92

/-- `sizeof(argument_tokens[0]) - 1`. -/
def tokenCapacity : Nat := 256

/-- The variables of the token loop; `quote` is 0 outside quotes. -/
structure TokenState where
  token : List UInt8
  quote : UInt8
  escaped : Bool
  started : Bool

def TokenState.initial : TokenState := ⟨[], 0, false, false⟩

/-- The inner loop of the tokenizer, up to a blank or the end of the arguments. `none` is the exit for a
token that is too long. -/
def tokenLoop : (rest : List UInt8) → TokenState → Option (TokenState × List UInt8)
  | [], s => some (s, [])
  | value :: rest, s =>
    if s.escaped then
      if s.token.length = tokenCapacity then none
      else tokenLoop rest { s with token := s.token ++ [value], escaped := false, started := true }
    else if value = backslash then tokenLoop rest { s with escaped := true, started := true }
    else if s.quote ≠ 0 then
      if value = s.quote then tokenLoop rest { s with quote := 0, started := true }
      else if s.token.length = tokenCapacity then none
      else tokenLoop rest { s with token := s.token ++ [value], started := true }
    else if isQuote value then tokenLoop rest { s with quote := value, started := true }
    else if isBlank value then some (s, rest)
    else if s.token.length = tokenCapacity then none
    else tokenLoop rest { s with token := s.token ++ [value], started := true }

/-- The token loop does not go back. -/
theorem tokenLoop_length {rest rest' : List UInt8} {s t : TokenState}
    (h : tokenLoop rest s = some (t, rest')) : rest'.length ≤ rest.length - 1 := by
  induction rest generalizing s with
  | nil =>
    cases h
    exact Nat.le_refl _
  | cons value rest ih =>
    have hnext : ∀ {s' : TokenState}, tokenLoop rest s' = some (t, rest') →
        rest'.length ≤ (value :: rest).length - 1 := by
      intro s' h'
      have := ih h'
      rw [List.length_cons]
      omega
    rw [tokenLoop] at h
    split_ifs at h
    · exact hnext h
    · exact hnext h
    · exact hnext h
    · exact hnext h
    · exact hnext h
    · cases h
      exact Nat.le_refl _
    · exact hnext h

/-- The outer loop: the tokens, `none` for every `goto argument_fail`. -/
def argumentTokens (rest : List UInt8) (tokens : List (List UInt8)) : Option (List (List UInt8)) :=
  if (rest.dropWhile isBlank).length = 0 then some tokens
  else if tokens.length = 8 then none
  else
    match h : tokenLoop (rest.dropWhile isBlank) .initial with
    | none => none
    | some (s, rest') =>
      if s.quote ≠ 0 ∨ s.escaped ∨ !s.started then none
      else argumentTokens rest' (tokens ++ [s.token])
termination_by rest.length
decreasing_by
  have := tokenLoop_length h
  have := (List.dropWhile_suffix isBlank (l := rest)).length_le
  omega

/-! ## `process_prepare_user_stack` -/

/-- `sizeof(process_stack_build_t)`. -/
def sizeofProcessStackBuild : Nat := 2632

/-- A string of the scratch buffer, which is zero behind what was written, with its terminator. -/
def terminated (token : List UInt8) : List UInt8 := token.takeWhile (· ≠ 0) ++ [0]

def withMemory (heap : Heap) (memory : Memory) : Heap :=
  { heap with physical := { heap.physical with memory } }

/-- The stack pointer, or `none` where the source returns 0; no answer at all if a loop of the heap ran
out of fuel. -/
def processPrepareUserStack (process : StackOwner) (path arguments : CString) (heap : Heap) :
    Option (Option Nat × Heap) :=
  match process.stack with
  | none => some (none, heap)
  | some stack =>
    if 256 < path.bytes.length ∨ 256 < arguments.bytes.length then some (none, heap)
    else
      match kmalloc heap sizeofProcessStackBuild with
      | none => none
      | some (build, heap) =>
        if build = 0 then some (none, heap)
        else
          match environmentScan process.behind process.environment.bytes [] with
          -- `return 0`, not `goto argument_fail`
          | none => some (none, heap)
          | some environment =>
            match argumentTokens arguments.bytes [] with
            | none => (kfree heap build).map fun heap => (none, heap)
            | some tokens =>
              let (result, memory) := buildUserStack stack (path.bytes ++ [0])
                (tokens.map terminated) environment heap.physical.memory
              (kfree (withMemory heap memory) build).map fun heap => (result, heap)

end KernelBoot.Process
