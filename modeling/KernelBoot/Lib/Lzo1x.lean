import KernelBoot.Lib.Lz77

/-!
# The LZO1X format

A stream is an optional run of initial literals, a list of instructions and the terminator
`11 00 00`. An instruction is a literal run or a match with up to three literals after it. Which
instructions may come next depends on the last one: `state` is 0 after a match without literals and
at the start, 1 to 3 after a match (or a start) with that many literals, and 4 after a longer run.
-/

namespace KernelBoot.Lib.Lzo1x

/-- The five forms of a match. -/
inductive MatchKind
  /-- Two bytes, right after one to three literals. -/
  | m1
  /-- Three bytes at distance 2049 or more, right after a literal run. -/
  | m1Far
  | m2
  | m3
  | m4
  deriving Repr, DecidableEq

inductive Instruction
  | literals (run : List UInt8)
  | copy (kind : MatchKind) (distance length : Nat) (trail : List UInt8)
  deriving Repr, DecidableEq

/-- The matches each form can express, and the states it is read in. -/
def MatchKind.Fits : MatchKind → (state distance length : Nat) → Prop
  | .m1, state, distance, length =>
    1 ≤ state ∧ state ≤ 3 ∧ 1 ≤ distance ∧ distance ≤ 1024 ∧ length = 2
  | .m1Far, state, distance, length =>
    state = 4 ∧ 2049 ≤ distance ∧ distance ≤ 3072 ∧ length = 3
  | .m2, _, distance, length => 1 ≤ distance ∧ distance ≤ 2048 ∧ 3 ≤ length ∧ length ≤ 8
  | .m3, _, distance, length => 1 ≤ distance ∧ distance ≤ 16384 ∧ 3 ≤ length
  | .m4, _, distance, length => 16385 ≤ distance ∧ distance ≤ 49151 ∧ 3 ≤ length

instance MatchKind.decidableFits (kind : MatchKind) (state distance length : Nat) :
    Decidable (kind.Fits state distance length) := by
  cases kind <;> exact inferInstanceAs (Decidable (_ ∧ _))

namespace Instruction

/-- The instruction may stand in this state after this much output. -/
def Fits (state produced : Nat) : Instruction → Prop
  | .literals run => state = 0 ∧ 4 ≤ run.length
  | .copy kind distance length trail =>
    kind.Fits state distance length ∧ distance ≤ produced ∧ trail.length ≤ 3

instance decidableFits (state produced : Nat) (i : Instruction) : Decidable (i.Fits state produced) := by
  cases i <;> exact inferInstanceAs (Decidable (_ ∧ _))

/-- The state after the instruction. -/
def next : Instruction → Nat
  | .literals _ => 4
  | .copy _ _ _ trail => trail.length

/-- The output after the instruction. -/
def expand (out : List UInt8) : Instruction → List UInt8
  | .literals run => out ++ run
  | .copy _ distance length trail => copyMatch out distance length ++ trail

end Instruction

/-- `n ≥ 1` past the largest length an opcode holds: a zero byte for each 255, then the rest. -/
def extension (n : Nat) : List UInt8 :=
  List.replicate ((n - 1) / 255) 0 ++ [UInt8.ofNat ((n - 1) % 255 + 1)]

/-- The two bytes of a number, low byte first. -/
def le16Bytes (n : Nat) : List UInt8 := [UInt8.ofNat n, UInt8.ofNat (n / 256)]

/-- An opcode whose low bits hold the length less two, up to `bound`; longer ones leave the bits zero
and extend. -/
def lengthBytes (opcode bound length : Nat) : List UInt8 :=
  if length ≤ bound + 2 then [UInt8.ofNat (opcode + (length - 2))]
  else UInt8.ofNat opcode :: extension (length - (bound + 2))

/-- The bytes of a match; `trailing` is the number of literals that follow it. -/
def MatchKind.encode (distance length trailing : Nat) : MatchKind → List UInt8
  | .m1 =>
    [UInt8.ofNat ((distance - 1) % 4 * 4 + trailing), UInt8.ofNat ((distance - 1) / 4)]
  | .m1Far =>
    [UInt8.ofNat ((distance - 2049) % 4 * 4 + trailing), UInt8.ofNat ((distance - 2049) / 4)]
  | .m2 =>
    [UInt8.ofNat ((length - 1) * 32 + (distance - 1) % 8 * 4 + trailing),
      UInt8.ofNat ((distance - 1) / 8)]
  | .m3 => lengthBytes 32 31 length ++ le16Bytes ((distance - 1) * 4 + trailing)
  | .m4 =>
    lengthBytes (16 + (distance - 16384) / 16384 * 8) 7 length ++
      le16Bytes ((distance - 16384) % 16384 * 4 + trailing)

namespace Instruction

def encode : Instruction → List UInt8
  | .literals run =>
    (if run.length ≤ 18 then [UInt8.ofNat (run.length - 3)] else 0 :: extension (run.length - 18)) ++
      run
  | .copy kind distance length trail => kind.encode distance length trail.length ++ trail

end Instruction

/-- Instructions that may follow one another from this state and this output on. -/
def Valid : (state : Nat) → (out : List UInt8) → List Instruction → Prop
  | _, _, [] => True
  | state, out, i :: rest => i.Fits state out.length ∧ Valid i.next (i.expand out) rest

/-- The state after a number of initial literals. -/
def initialState (count : Nat) : Nat := if count < 4 then count else 4

/-- A stream of the format; `initial` is empty when there are no initial literals. -/
structure Stream where
  initial : List UInt8
  body : List Instruction
  initial_le : initial.length ≤ 238
  valid : Valid (initialState initial.length) initial body

namespace Stream

/-- `11 00 00`. -/
def terminator : List UInt8 := [17, 0, 0]

def encode (s : Stream) : List UInt8 :=
  (if s.initial = [] then [] else UInt8.ofNat (17 + s.initial.length) :: s.initial) ++
    (s.body.flatMap Instruction.encode ++ terminator)

/-- The output the stream describes. -/
def expand (s : Stream) : List UInt8 := s.body.foldl Instruction.expand s.initial

end Stream

end KernelBoot.Lib.Lzo1x
