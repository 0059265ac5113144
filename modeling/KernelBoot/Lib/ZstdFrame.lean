import KernelBoot.Lib.Xxh64

/-!
# Zstandard frames of raw blocks

The frames of RFC 8878 whose blocks are all `Raw_Block` and that use no dictionary: magic number,
frame header, blocks and, if the header says so, the checksum. The header descriptor holds
`Frame_Content_Size_flag` in bits 7 and 6, `Single_Segment_flag` in bit 5, `Content_Checksum_flag` in
bit 2, and zeros for the unused and reserved bits and the dictionary flag.
-/

namespace KernelBoot.Lib.ZstdFrame

/-- `Frame_Content_Size_flag`. -/
inductive ContentSizeFlag
  /-- One byte for a single segment, no field otherwise. -/
  | flag0
  /-- Two bytes. -/
  | flag1
  /-- Four bytes. -/
  | flag2
  /-- Eight bytes. -/
  | flag3
  deriving Repr, DecidableEq

/-- The two bits of the flag. -/
def ContentSizeFlag.bits : ContentSizeFlag → Nat
  | .flag0 => 0
  | .flag1 => 1
  | .flag2 => 2
  | .flag3 => 3

/-- What the writer of a frame chooses in the descriptor. -/
structure Descriptor where
  contentSizeFlag : ContentSizeFlag
  singleSegment : Bool
  checksum : Bool
  deriving Repr, DecidableEq

namespace Descriptor

def byte (d : Descriptor) : UInt8 :=
  UInt8.ofNat (d.contentSizeFlag.bits * 64 + d.singleSegment.toNat * 32 + d.checksum.toNat * 4)

/-- The `Frame_Content_Size` field can say that the content has `n` bytes. -/
def Holds (d : Descriptor) (n : Nat) : Prop :=
  match d.contentSizeFlag with
  | .flag0 => d.singleSegment = true → n < 256
  | .flag1 => 256 ≤ n ∧ n < 65536 + 256
  | .flag2 => n < 256 ^ 4
  | .flag3 => n < 256 ^ 8

/-- The `Frame_Content_Size` field; the 2-byte form counts from 256. -/
def contentSize (d : Descriptor) (n : Nat) : List UInt8 :=
  match d.contentSizeFlag with
  | .flag0 => if d.singleSegment then leBytes 1 n else []
  | .flag1 => leBytes 2 (n - 256)
  | .flag2 => leBytes 4 n
  | .flag3 => leBytes 8 n

end Descriptor

/-- `Window_Size` for a `Window_Descriptor`. -/
def windowSize (window : UInt8) : Nat :=
  let base := 2 ^ (10 + window.toNat / 8)
  base + base / 8 * (window.toNat % 8)

/-- `Block_Maximum_Size`; a single segment's window is its content. -/
def blockMaximum (d : Descriptor) (window : UInt8) (contentLength : Nat) : Nat :=
  min (if d.singleSegment then contentLength else windowSize window) (128 * 1024)

structure Frame where
  descriptor : Descriptor
  /-- Not written for a single segment. -/
  window : UInt8
  blocks : List (List UInt8)
  nonempty : blocks ≠ []
  holds : descriptor.Holds blocks.flatten.length
  bounded : ∀ block ∈ blocks, block.length ≤ blockMaximum descriptor window blocks.flatten.length

/-- A `Raw_Block` with its header: `Last_Block`, two zero bits and the size. -/
def rawBlock (last : Bool) (block : List UInt8) : List UInt8 :=
  leBytes 3 (last.toNat + 8 * block.length) ++ block

def rawBlocks : List (List UInt8) → List UInt8
  | [] => []
  | [block] => rawBlock true block
  | block :: next :: rest => rawBlock false block ++ rawBlocks (next :: rest)

namespace Frame

/-- The bytes the frame stands for. -/
def content (f : Frame) : List UInt8 := f.blocks.flatten

/-- `0xFD2FB528`, low byte first. -/
def magic : List UInt8 := [0x28, 0xb5, 0x2f, 0xfd]

/-- `Content_Checksum`: the low four bytes of the hash. -/
def trailer (f : Frame) : List UInt8 :=
  if f.descriptor.checksum then leBytes 4 (Xxh64.xxh64 0 f.content).toNat else []

def encode (f : Frame) : List UInt8 :=
  magic ++ f.descriptor.byte :: ((if f.descriptor.singleSegment then [] else [f.window]) ++
    (f.descriptor.contentSize f.content.length ++ (rawBlocks f.blocks ++ f.trailer)))

end Frame

end KernelBoot.Lib.ZstdFrame
