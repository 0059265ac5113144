import KernelBoot.Lib.Lz77

/-!
# Inflate (`kernel/fs/btrfs/deflate.c`)

`btrfs_zlib_inflate` with the functions it is made of. `output` is what has been written to the output
buffer, so its length is the source's `produced`; a failing call is `none`. The bit counts of the
reader are 32-bit numbers in the source, and `reader->size * 8U` wraps around.
-/

namespace KernelBoot.Btrfs

open Lib

/-- `bit_reader_t`; the source's `size` is the number of bytes in `data`. -/
structure BitReader where
  data : List UInt8
  bit : Nat
  deriving Repr, DecidableEq

/-- `reader->size * 8U`. -/
def BitReader.limit (reader : BitReader) : Nat := reader.data.length * 8 % 2 ^ 32

/-- `(reader->data[bit >> 3] >> (bit & 7U)) & 1U`. -/
def BitReader.at (reader : BitReader) (bit : Nat) : Nat :=
  ((reader.data.getD (bit >>> 3) 0).toNat >>> (bit &&& 7)) &&& 1

/-- The loop of `read_bits`: `result` with bits `i` to `i + remaining - 1` added. -/
def readBitsLoop (reader : BitReader) : (remaining i result : Nat) → Nat
  | 0, _, result => result
  | remaining + 1, i, result =>
    readBitsLoop reader remaining (i + 1) (result ||| reader.at (reader.bit + i) <<< i)

def readBits (reader : BitReader) (count : Nat) : Option (Nat × BitReader) :=
  if count > 24 ∨ reader.bit > reader.limit ∨ count > reader.limit - reader.bit then none
  else some (readBitsLoop reader count 0 0, { reader with bit := reader.bit + count })

/-- The loop of `reverse_bits`. -/
def reverseBitsLoop : (remaining value result : Nat) → Nat
  | 0, _, result => result
  | remaining + 1, value, result =>
    reverseBitsLoop remaining (value >>> 1) (result <<< 1 ||| value &&& 1)

def reverseBits (value count : Nat) : Nat := reverseBitsLoop count value 0

/-- One symbol of `huffman_t`. -/
structure HuffmanEntry where
  length : Nat
  code : Nat
  deriving Repr, DecidableEq

/-- `huffman_t`; the source's `count` is the number of entries. -/
abbrev Huffman := List HuffmanEntry

/-- `counts[bits]` behind the first loop of `huffman_build`. -/
def lengthCount (lengths : List Nat) (bits : Nat) : Nat :=
  if bits = 0 then 0 else lengths.count bits

/-- The second loop of `huffman_build`: `next[bits]`, `next[bits + 1]` and so on. -/
def nextLoop (counts : Nat → Nat) : (remaining bits code : Nat) → Option (List Nat)
  | 0, _, _ => some []
  | remaining + 1, bits, code =>
    let code := (code + counts (bits - 1)) <<< 1
    if code + counts bits > 1 <<< bits then none
    else (nextLoop counts remaining (bits + 1) code).map (code % 2 ^ 16 :: ·)

/-- The third loop of `huffman_build`. -/
def assignLoop (next : Nat → Nat) : List Nat → Huffman
  | [] => []
  | length :: lengths =>
    if length = 0 then ⟨length, 0⟩ :: assignLoop next lengths
    else
      ⟨length, reverseBits (next length) length % 2 ^ 16⟩ ::
        assignLoop (Function.update next length (next length + 1)) lengths

def huffmanBuild (lengths : List Nat) : Option Huffman :=
  if lengths.length = 0 ∨ lengths.length > 288 ∨ lengths.any (15 < ·) then none
  else
    (nextLoop (lengthCount lengths) 15 1 0).map fun next =>
      assignLoop (fun bits => next.getD (bits - 1) 0) lengths

/-- The loop of `huffman_read`. -/
def huffmanReadLoop (tree : Huffman) :
    (remaining length code : Nat) → BitReader → Option (Nat × BitReader)
  | 0, _, _, _ => none
  | remaining + 1, length, code, reader =>
    match readBits reader 1 with
    | none => none
    | some (bit, reader) =>
      let code := code ||| bit <<< (length - 1)
      match tree.findIdx? (fun entry => entry.length = length ∧ entry.code = code) with
      | some symbol => some (symbol, reader)
      | none => huffmanReadLoop tree remaining (length + 1) code reader

def huffmanRead (reader : BitReader) (tree : Huffman) : Option (Nat × BitReader) :=
  huffmanReadLoop tree 15 1 0 reader

/-- A run of `extra + base` equal lengths, `extra` being the next `bits` bits. -/
def repeatRun (reader : BitReader) (bits base previous : Nat) : Option (List Nat × BitReader) :=
  (readBits reader bits).map fun read => (List.replicate (read.1 + base) previous, read.2)

/-- What one pass of `read_code_lengths` appends to the lengths read so far. -/
def codeLengthRun (reader : BitReader) (symbol : Nat) (lengths : List Nat) :
    Option (List Nat × BitReader) :=
  if symbol < 16 then some ([symbol], reader)
  else if symbol = 16 then
    if lengths = [] then none else repeatRun reader 2 3 (lengths.getLastD 0)
  else if symbol = 17 then repeatRun reader 3 3 0
  else if symbol = 18 then repeatRun reader 7 11 0
  else none

/-- `read_code_lengths`; every pass adds a length, so it takes at most `count` of them. -/
def readCodeLengthsLoop (lengthTree : Huffman) (count : Nat) :
    (fuel : Nat) → BitReader → (lengths : List Nat) → Option (List Nat × BitReader)
  | fuel, reader, lengths =>
    if lengths.length < count then
      match fuel with
      | 0 => none
      | fuel + 1 => do
        let (symbol, reader) ← huffmanRead reader lengthTree
        let (run, reader) ← codeLengthRun reader symbol lengths
        if run.length > count - lengths.length then none
        else readCodeLengthsLoop lengthTree count fuel reader (lengths ++ run)
    else some (lengths, reader)

def readCodeLengths (reader : BitReader) (lengthTree : Huffman) (count : Nat) :
    Option (List Nat × BitReader) :=
  readCodeLengthsLoop lengthTree count count reader []

def fixedLiteralLengths : List Nat :=
  (List.range 288).map fun i => if i < 144 then 8 else if i < 256 then 9 else if i < 280 then 7 else 8

def fixedDistanceLengths : List Nat := List.replicate 32 5

/-- The literal and the distance tree. -/
def fixedTrees : Option (Huffman × Huffman) := do
  let literal ← huffmanBuild fixedLiteralLengths
  let distance ← huffmanBuild fixedDistanceLengths
  some (literal, distance)

/-- The loop of `adler32` over `a` and `b`. -/
def adlerLoop (data : List UInt8) : Nat × Nat :=
  data.foldl (fun (a, b) byte =>
    let a := (a + byte.toNat) % 65521
    (a, (b + a) % 65521)) (1, 0)

def adler32 (data : List UInt8) : Nat :=
  let (a, b) := adlerLoop data
  b <<< 16 ||| a

def lengthBase : List Nat :=
  [3, 4, 5, 6, 7, 8, 9, 10, 11, 13, 15, 17, 19, 23, 27, 31, 35, 43, 51, 59, 67, 83, 99, 115, 131, 163,
    195, 227, 258]

def lengthExtra : List Nat :=
  [0, 0, 0, 0, 0, 0, 0, 0, 1, 1, 1, 1, 2, 2, 2, 2, 3, 3, 3, 3, 4, 4, 4, 4, 5, 5, 5, 5, 0]

def distanceBase : List Nat :=
  [1, 2, 3, 4, 5, 7, 9, 13, 17, 25, 33, 49, 65, 97, 129, 193, 257, 385, 513, 769, 1025, 1537, 2049,
    3073, 4097, 6145, 8193, 12289, 16385, 24577]

def distanceExtra : List Nat :=
  [0, 0, 0, 0, 1, 1, 2, 2, 3, 3, 4, 4, 5, 5, 6, 6, 7, 7, 8, 8, 9, 9, 10, 10, 11, 11, 12, 12, 13, 13]

/-- `order`. -/
def codeLengthOrder : List Nat := [16, 17, 18, 0, 8, 7, 9, 6, 10, 5, 11, 4, 12, 3, 13, 2, 14, 1, 15]

section Blocks

variable (outputCapacity : Nat)

/-- The byte loop of a stored block. -/
def storedLoop : (length : Nat) → BitReader → List UInt8 → Option (BitReader × List UInt8)
  | 0, reader, output => some (reader, output)
  | length + 1, reader, output => do
    let (byte, reader) ← readBits reader 8
    storedLoop length reader (output ++ [UInt8.ofNat byte])

/-- The branch `type == 0`; `reader.size * 8U - length * 8U` wraps around below zero. -/
def inflateStored (reader : BitReader) (output : List UInt8) : Option (BitReader × List UInt8) := do
  let reader := { reader with bit := (reader.bit + 7) / 8 * 8 }
  let (length, reader) ← readBits reader 16
  let (inverse, reader) ← readBits reader 16
  if (length ^^^ inverse) &&& 0xffff ≠ 0xffff ∨ length > outputCapacity - output.length ∨
      reader.bit > (reader.limit + 2 ^ 32 - length * 8) % 2 ^ 32 then none
  else storedLoop length reader output

/-- The two trees' lengths in a dynamic block: the loop over `order`. -/
def readLengthLengths : (order : List Nat) → BitReader → List Nat → Option (List Nat × BitReader)
  | [], reader, lengths => some (lengths, reader)
  | symbol :: order, reader, lengths => do
    let (value, reader) ← readBits reader 3
    readLengthLengths order reader (lengths.set symbol value)

/-- The branch `type == 2` up to its trees. -/
def dynamicTrees (reader : BitReader) : Option (Huffman × Huffman × BitReader) := do
  let (hlit, reader) ← readBits reader 5
  let (hdist, reader) ← readBits reader 5
  let (hclen, reader) ← readBits reader 4
  let hlit := hlit + 257
  let hdist := hdist + 1
  let hclen := hclen + 4
  let (codeLengths, reader) ←
    readLengthLengths (codeLengthOrder.take hclen) reader (List.replicate 19 0)
  let codeTree ← huffmanBuild codeLengths
  let (allLengths, reader) ← readCodeLengths reader codeTree (hlit + hdist)
  let literalTree ← huffmanBuild (allLengths.take hlit)
  let distanceTree ← huffmanBuild ((allLengths.drop hlit).take hdist)
  some (literalTree, distanceTree, reader)

/-- How a pass of the symbol loop ends, when it does not fail. -/
inductive SymbolNext
  | again (reader : BitReader) (output : List UInt8)
  | endOfBlock (reader : BitReader)

/-- One pass of the symbol loop. -/
def inflateSymbol (literalTree distanceTree : Huffman) (reader : BitReader) (output : List UInt8) :
    Option SymbolNext := do
  let (symbol, reader) ← huffmanRead reader literalTree
  if symbol < 256 then
    if output.length ≥ outputCapacity then none
    else some (.again reader (output ++ [UInt8.ofNat symbol]))
  else if symbol = 256 then some (.endOfBlock reader)
  else if symbol > 285 then none
  else
    let index := symbol - 257
    let (extra, reader) ← readBits reader (lengthExtra.getD index 0)
    let length := lengthBase.getD index 0 + extra
    let (distanceSymbol, reader) ← huffmanRead reader distanceTree
    if distanceSymbol ≥ 30 then none
    else
      let (extra, reader) ← readBits reader (distanceExtra.getD distanceSymbol 0)
      let distance := distanceBase.getD distanceSymbol 0 + extra
      if distance > output.length ∨ length > outputCapacity - output.length then none
      else some (.again reader (copyMatch output distance length))

/-- The symbol loop; every pass reads at least one bit. -/
def symbolLoop (literalTree distanceTree : Huffman) :
    (fuel : Nat) → BitReader → List UInt8 → Option (BitReader × List UInt8)
  | 0, _, _ => none
  | fuel + 1, reader, output =>
    match inflateSymbol outputCapacity literalTree distanceTree reader output with
    | none => none
    | some (.again reader output) => symbolLoop literalTree distanceTree fuel reader output
    | some (.endOfBlock reader) => some (reader, output)

def inflateSymbols (literalTree distanceTree : Huffman) (reader : BitReader) (output : List UInt8) :
    Option (BitReader × List UInt8) :=
  symbolLoop outputCapacity literalTree distanceTree (reader.data.length * 8 + 1) reader output

/-- One pass of the block loop, with `final`. -/
def inflateBlock (reader : BitReader) (output : List UInt8) :
    Option (Nat × BitReader × List UInt8) := do
  let (final, reader) ← readBits reader 1
  let (type, reader) ← readBits reader 2
  if type = 0 then
    let (reader, output) ← inflateStored outputCapacity reader output
    some (final, reader, output)
  else if type = 1 then
    let (literalTree, distanceTree) ← fixedTrees
    let (reader, output) ← inflateSymbols outputCapacity literalTree distanceTree reader output
    some (final, reader, output)
  else if type = 2 then
    let (literalTree, distanceTree, reader) ← dynamicTrees reader
    let (reader, output) ← inflateSymbols outputCapacity literalTree distanceTree reader output
    some (final, reader, output)
  else none

/-- The block loop; every pass reads at least three bits. -/
def inflateBlocks : (fuel : Nat) → BitReader → List UInt8 → Option (BitReader × List UInt8)
  | 0, _, _ => none
  | fuel + 1, reader, output => do
    let (final, reader, output) ← inflateBlock outputCapacity reader output
    if final = 0 then inflateBlocks fuel reader output else some (reader, output)

end Blocks

/-- The checks on the first two bytes. -/
def zlibHeaderOk (first second : UInt8) : Bool :=
  first.toNat &&& 0x0f = 8 ∧ first.toNat >>> 4 ≤ 7 ∧ second.toNat &&& 0x20 = 0 ∧
    (first.toNat <<< 8 ||| second.toNat) % 31 = 0

/-- The last four bytes, high byte first. -/
def zlibExpected (input : List UInt8) : Nat :=
  (input.getD (input.length - 4) 0).toNat <<< 24 ||| (input.getD (input.length - 3) 0).toNat <<< 16 |||
    (input.getD (input.length - 2) 0).toNat <<< 8 ||| (input.getD (input.length - 1) 0).toNat

/-- `btrfs_zlib_inflate`: the output written when it returns 1. -/
def btrfsZlibInflate (input : List UInt8) (outputCapacity : Nat) : Option (List UInt8) :=
  if input.length < 6 ∨ outputCapacity = 0 ∨ zlibHeaderOk (input.getD 0 0) (input.getD 1 0) = false then
    none
  else
    let reader : BitReader := { data := (input.drop 2).take (input.length - 6), bit := 0 }
    (inflateBlocks outputCapacity (reader.data.length * 8 + 1) reader []).bind fun (_, output) =>
      if adler32 output ≠ zlibExpected input then none else some output

end KernelBoot.Btrfs
