import Mathlib

/-!
# Zstandard decompression (`kernel/fs/btrfs/zstd.c`)

The frame: header, blocks, checksum. Where the source holds a position in the input, the model holds
the input from there on. What a compressed block decodes to is a parameter, with the state that
`decode_compressed_block` carries from block to block (`recent`, `previous_weights`,
`previous_tables`) as a type of its own.
-/

namespace KernelBoot.Btrfs

/-- `p[0] | p[1] << 8 | p[2] << 16 | p[3] << 24`. -/
def le32 (p : List UInt8) : Nat :=
  (p.getD 0 0).toNat ||| (p.getD 1 0).toNat <<< 8 ||| (p.getD 2 0).toNat <<< 16 |||
    (p.getD 3 0).toNat <<< 24

def le64 (p : List UInt8) : Nat := le32 p ||| le32 (p.drop 4) <<< 32

section Checksum

def zstdRotl64 (value bits : UInt64) : UInt64 := value <<< bits ||| value >>> (64 - bits)

def p1 : UInt64 := 0x9e3779b185ebca87

def p2 : UInt64 := 0xc2b2ae3d27d4eb4f

def p3 : UInt64 := 0x165667b19e3779f9

def p4 : UInt64 := 0x85ebca77c2b2ae63

def p5 : UInt64 := 0x27d4eb2f165667c5

/-- `while (position + width <= size) { body; position += width; }`, the form of all three loops of
`zstd_xxhash32`. It is left within `size` passes. -/
def whileFits {σ : Type} (width size : Nat) (body : Nat → σ → σ) :
    (fuel position : Nat) → σ → Nat × σ
  | 0, position, s => (position, s)
  | fuel + 1, position, s =>
    if position + width ≤ size then
      whileFits width size body fuel (position + width) (body position s)
    else (position, s)

/-- `v1` to `v4`. -/
structure Lanes where
  v1 : UInt64
  v2 : UInt64
  v3 : UInt64
  v4 : UInt64

def stripe (input : List UInt8) (position : Nat) (v : Lanes) : Lanes where
  v1 := zstdRotl64 (v.v1 + UInt64.ofNat (le64 (input.drop position)) * p2) 31 * p1
  v2 := zstdRotl64 (v.v2 + UInt64.ofNat (le64 (input.drop (position + 8))) * p2) 31 * p1
  v3 := zstdRotl64 (v.v3 + UInt64.ofNat (le64 (input.drop (position + 16))) * p2) 31 * p1
  v4 := zstdRotl64 (v.v4 + UInt64.ofNat (le64 (input.drop (position + 24))) * p2) 31 * p1

/-- `hash ^= zstd_rotl64(v * p2, 31) * p1; hash = hash * p1 + p4;`. -/
def mergeLane (hash v : UInt64) : UInt64 := (hash ^^^ zstdRotl64 (v * p2) 31 * p1) * p1 + p4

def mergeLanes (v : Lanes) : UInt64 :=
  let hash := zstdRotl64 v.v1 1 + zstdRotl64 v.v2 7 + zstdRotl64 v.v3 12 + zstdRotl64 v.v4 18
  mergeLane (mergeLane (mergeLane (mergeLane hash v.v1) v.v2) v.v3) v.v4

/-- The first loop, if it is entered: the position and the hash behind it. -/
def hashStripes (input : List UInt8) : Nat × UInt64 :=
  if 32 ≤ input.length then
    let (position, v) := whileFits 32 input.length (stripe input) input.length 0
      ⟨p1 + p2, p2, 0, 0 - p1⟩
    (position, mergeLanes v)
  else (0, p5)

def hashLane (input : List UInt8) (position : Nat) (hash : UInt64) : UInt64 :=
  let lane := zstdRotl64 (UInt64.ofNat (le64 (input.drop position)) * p2) 31 * p1
  zstdRotl64 (hash ^^^ lane) 27 * p1 + p4

/-- The `if` between the second and the third loop. -/
def hashHalf (input : List UInt8) (s : Nat × UInt64) : Nat × UInt64 :=
  if s.1 + 4 ≤ input.length then
    (s.1 + 4,
      zstdRotl64 (s.2 ^^^ UInt64.ofNat (le32 (input.drop s.1)) * p1) 23 * p2 + p3)
  else s

def hashByte (input : List UInt8) (position : Nat) (hash : UInt64) : UInt64 :=
  zstdRotl64 (hash ^^^ UInt64.ofNat (input.getD position 0).toNat * p5) 11 * p1

def hashFinish (hash : UInt64) : UInt64 :=
  let hash := (hash ^^^ hash >>> 33) * p2
  let hash := (hash ^^^ hash >>> 29) * p3
  hash ^^^ hash >>> 32

def zstdXxhash32 (input : List UInt8) : Nat :=
  let (position, hash) := hashStripes input
  let (position, hash) := whileFits 8 input.length (hashLane input) input.length position
    (hash + UInt64.ofNat input.length)
  let (position, hash) := hashHalf input (position, hash)
  let (_, hash) := whileFits 1 input.length (hashByte input) input.length position hash
  (hashFinish hash).toNat % 2 ^ 32

end Checksum

/-- `header` points at where the source expects the field. -/
def frameContentSize (header : List UInt8) (descriptor singleSegment : Nat) : Nat :=
  let flag := descriptor &&& 3
  if singleSegment ≠ 0 then
    if flag = 0 then (header.getD 0 0).toNat
    else if flag = 1 then ((header.getD 0 0).toNat ||| (header.getD 1 0).toNat <<< 8) + 256
    else if flag = 2 then le32 header
    else le64 header
  else if flag = 0 then 0
  else if flag = 1 then (header.getD 0 0).toNat ||| (header.getD 1 0).toNat <<< 8
  else if flag = 2 then le32 header
  else le64 header

section Blocks

variable {σ : Type} (decodeCompressedBlock : (block output : List UInt8) → (capacity : Nat) → σ →
  Option (List UInt8 × σ))

/-- The variables of the block loop. -/
structure Zstd (σ : Type) where
  input : List UInt8
  output : List UInt8
  history : σ

/-- One pass of the block loop, with `last`. -/
def zstdBlock (capacity : Nat) (s : Zstd σ) : Option (Bool × Zstd σ) :=
  match s.input with
  | b0 :: b1 :: b2 :: input =>
    let blockHeader := b0.toNat ||| b1.toNat <<< 8 ||| b2.toNat <<< 16
    let last := blockHeader &&& 1 ≠ 0
    let blockType := (blockHeader >>> 1) &&& 3
    let blockSize := blockHeader >>> 3
    if blockType = 3 ∨ (blockType ≠ 2 ∧ blockSize > capacity - s.output.length) ∨
        (blockType ≠ 1 ∧ blockSize > input.length) ∨ (blockType = 1 ∧ input = []) then none
    else if blockType = 0 then
      some (last, { s with
        input := input.drop blockSize, output := s.output ++ input.take blockSize })
    else if blockType = 1 then
      if blockSize = 0 then none
      else
        some (last, { s with
          input := input.drop 1
          output := s.output ++ List.replicate blockSize (input.getD 0 0) })
    else
      (decodeCompressedBlock (input.take blockSize) s.output capacity s.history).map
        fun (decoded, history) =>
          (last, { input := input.drop blockSize, output := s.output ++ decoded, history })
  | _ => none

/-- The block loop. Every pass reads at least three bytes. -/
def zstdBlocks (capacity : Nat) : (fuel : Nat) → Zstd σ → Option (Zstd σ)
  | 0, _ => none
  | fuel + 1, s =>
    match zstdBlock decodeCompressedBlock capacity s with
    | none => none
    | some (true, s) => some s
    | some (false, s) => zstdBlocks capacity fuel s

/-- What stands behind the loop. -/
def zstdFinish (checksum contentSize : Nat) (s : Zstd σ) : Option (List UInt8) :=
  if checksum ≠ 0 ∧ (s.input.length < 4 ∨ le32 s.input ≠ zstdXxhash32 s.output) then none
  else
    let rest := if checksum ≠ 0 then s.input.drop 4 else s.input
    if rest ≠ [] ∨ (contentSize ≠ 0 ∧ contentSize ≠ s.output.length) then none else some s.output

/-- `btrfs_zstd_decompress`: the output written when it returns 1. `initial` is the history before
the first block. -/
def btrfsZstdDecompress (initial : σ) (input : List UInt8) (outputCapacity : Nat) :
    Option (List UInt8) :=
  if input.length < 6 ∨ outputCapacity = 0 ∨ le32 input ≠ 0xfd2fb528 then none
  else
    let descriptor := (input.getD 4 0).toNat
    if descriptor &&& 0x08 ≠ 0 then none
    else
      let singleSegment := (descriptor >>> 5) &&& 1
      let checksum := (descriptor >>> 2) &&& 1
      let flag := descriptor &&& 3
      let window := if singleSegment ≠ 0 then 0 else 1
      let dictSize := if flag = 0 then 0 else if flag = 1 then 1 else if flag = 2 then 2 else 4
      let headerSize := 1 + window + dictSize +
        if singleSegment ≠ 0 then
          if flag = 0 then 1 else if flag = 1 then 2 else if flag = 2 then 4 else 8
        else if flag = 0 then 0 else if flag = 1 then 2 else if flag = 2 then 4 else 8
      if headerSize > input.length - 4 then none
      else
        let contentSize :=
          frameContentSize (input.drop (5 + window + dictSize)) descriptor singleSegment
        if contentSize > outputCapacity then none
        else
          (zstdBlocks decodeCompressedBlock outputCapacity input.length
            { input := input.drop (4 + headerSize), output := [], history := initial }).bind
            (zstdFinish checksum contentSize)

end Blocks

end KernelBoot.Btrfs
