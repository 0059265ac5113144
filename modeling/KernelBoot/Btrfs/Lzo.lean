import KernelBoot.Lib.Lz77

/-!
# LZO decompression (`kernel/fs/btrfs/lzo.c`)

The two pointers of the source are lists here: `input` is what lies from `ip` to `end`, and `output`
what has been written from the buffer's start to `op`. A match pointer is given by its distance
behind `op`, so `match < output` is a distance larger than what has been written.
-/

namespace KernelBoot.Btrfs

open Lib

/-- The variables of the main loop. -/
structure Lzo where
  input : List UInt8
  output : List UInt8
  state : Nat
  deriving Repr, DecidableEq

/-- The new `*length` and the input behind what was read. -/
def extendLength (input : List UInt8) (length base : Nat) : Option (Nat × List UInt8) :=
  let zeros := (input.takeWhile (· = 0)).length
  match input.dropWhile (· = 0) with
  | [] => none
  | byte :: rest =>
    if 0x00ffffff / 255 < zeros ∨ 0xffffffff - base - zeros * 255 - byte.toNat < length then none
    else some (length + (base + zeros * 255 + byte.toNat), rest)

/-- The length behind an opcode that leaves it to `extend_length` when its own bits are zero. -/
def extendedLength (input : List UInt8) (length short base : Nat) : Option (Nat × List UInt8) :=
  if length = short then extendLength input length base else some (length, input)

/-- `while (t--) *op++ = *ip++;` behind its two bounds checks. -/
def copyLiterals (capacity t : Nat) (s : Lzo) : Option Lzo :=
  if s.input.length < t ∨ capacity - s.output.length < t then none
  else some { s with input := s.input.drop t, output := s.output ++ s.input.take t }

/-- The label `match_next`. -/
def matchNext (capacity next : Nat) (s : Lzo) : Option Lzo :=
  if next = 0 then some { s with state := next }
  else copyLiterals capacity next { s with state := next }

/-- `while (t--) *op++ = *match++;` behind its two bounds checks, and on to `match_next`. -/
def copyBack (capacity distance t next : Nat) (s : Lzo) : Option Lzo :=
  if s.output.length < distance ∨ capacity - s.output.length < t then none
  else matchNext capacity next { s with output := copyMatch s.output distance t }

/-- The label `copy_literals`. -/
def copyRun (capacity t : Nat) (s : Lzo) : Option Lzo :=
  (copyLiterals capacity t s).map fun s => { s with state := 4 }

/-- The label `first_match`. -/
def firstMatch (capacity t : Nat) (s : Lzo) : Option Lzo :=
  if t < 4 then matchNext capacity t { s with state := 0 }
  else copyRun capacity t { s with state := 0 }

/-- `ip[0] | ip[1] << 8`. -/
def le16 (low high : UInt8) : Nat := low.toNat ||| high.toNat <<< 8

/-- How a pass of the loop ends, when it does not fail: at the top of the loop again, or at `done`. -/
inductive LzoNext
  | again (s : Lzo)
  | done (t : Nat) (s : Lzo)
  deriving Repr, DecidableEq

/-- The last case of the loop behind the length: the end of the stream, or a match `0x4000` and more
back. `high` is what the opcode says of the distance. -/
def lzoFar (capacity high length : Nat) (s : Lzo) : Option LzoNext :=
  match s.input with
  | first :: second :: input =>
    let next := le16 first second
    let distance := high + (next >>> 2)
    if distance = 0 then some (.done length { s with input })
    else (copyBack capacity (distance + 0x4000) length (next &&& 3) { s with input }).map .again
  | _ => none

/-- One pass of the main loop. -/
def lzoInstruction (capacity : Nat) (s : Lzo) : Option LzoNext :=
  match s.input with
  | [] => none
  | opcode :: input =>
    let t := opcode.toNat
    if t < 16 then
      if s.state = 0 then do
        let (t, input) ← extendedLength input t 0 15
        (copyRun capacity (t + 3) { s with input }).map .again
      else
        match input with
        | [] => none
        | byte :: input =>
          if s.state ≠ 4 then
            (copyBack capacity (1 + (t >>> 2) + (byte.toNat <<< 2)) 2 (t &&& 3)
              { s with input }).map .again
          else
            (copyBack capacity (1 + 0x4000 + (t >>> 2) + (byte.toNat <<< 2)) 3 (t &&& 3)
              { s with input }).map .again
    else if 64 ≤ t then
      match input with
      | [] => none
      | byte :: input =>
        (copyBack capacity (1 + ((t >>> 2) &&& 7) + (byte.toNat <<< 3)) ((t >>> 5) - 1 + 2) (t &&& 3)
          { s with input }).map .again
    else if 32 ≤ t then do
      let (t, input) ← extendedLength input ((t &&& 31) + 2) 2 31
      match input with
      | low :: high :: input =>
        let next := le16 low high
        (copyBack capacity (1 + (next >>> 2)) t (next &&& 3) { s with input }).map .again
      | _ => none
    else
      match input with
      | low :: high :: _ =>
        if le16 low high &&& 0xfffc = 0xfffc ∧ t &&& 0xf8 = 0x18 then none
        else do
          let (length, input) ← extendedLength input ((t &&& 7) + 2) 2 7
          lzoFar capacity ((t &&& 8) <<< 11) length { s with input }
      | _ => none

/-- The main loop. Every pass reads at least one byte, so it is left within one pass more than there
are bytes. -/
def lzoLoop (capacity : Nat) : (fuel : Nat) → Lzo → Option (List UInt8)
  | 0, _ => none
  | fuel + 1, s =>
    match lzoInstruction capacity s with
    | none => none
    | some (.again s) => lzoLoop capacity fuel s
    | some (.done t s) => if t = 3 ∧ s.input = [] then some s.output else none

/-- What stands before the loop. A first byte 18 to 20 goes straight into the loop. -/
def lzoStart (capacity : Nat) (first : UInt8) (input : List UInt8) : Option Lzo :=
  let s : Lzo := { input, output := [], state := 0 }
  let t := first.toNat
  if 17 < t then
    if t - 17 < 4 then some s else copyRun capacity (t - 17) s
  else firstMatch capacity t s

/-- `btrfs_lzo1x_decompress`: the output written when it returns 1. -/
def btrfsLzo1xDecompress (input : List UInt8) (outputCapacity : Nat) : Option (List UInt8) :=
  match input with
  | [] => none
  | first :: rest =>
    if input.length < 3 ∨ outputCapacity = 0 then none
    else (lzoStart outputCapacity first rest).bind fun s =>
      lzoLoop outputCapacity (s.input.length + 1) s

end KernelBoot.Btrfs
