import KernelBoot.Lib.CanonicalCode
import KernelBoot.Lib.Lz77

/-!
# The DEFLATE format and its zlib frame

Blocks as RFC 1951 writes them, as bits: stored bytes, or literals and matches in a fixed or a
transmitted pair of prefix codes. A match is given by the code and the extra bits of its length and
of its distance. The codes may be any whose lengths fit; complete codes are among them. A stored
block holds the bits skipped before its length, and a block's validity therefore depends on where it
starts.
-/

namespace KernelBoot.Lib.Deflate

open CanonicalCode

/-- The word lengths of the literal/length code and of the distance code. -/
structure Codes where
  literal : List Nat
  distance : List Nat
  deriving Repr, DecidableEq

/-- Base and number of extra bits of each length code, from code 257 on. -/
def lengthTable : List (Nat × Nat) :=
  [(3, 0), (4, 0), (5, 0), (6, 0), (7, 0), (8, 0), (9, 0), (10, 0), (11, 1), (13, 1), (15, 1), (17, 1),
    (19, 2), (23, 2), (27, 2), (31, 2), (35, 3), (43, 3), (51, 3), (59, 3), (67, 4), (83, 4), (99, 4),
    (115, 4), (131, 5), (163, 5), (195, 5), (227, 5), (258, 0)]

/-- Base and number of extra bits of each distance code. -/
def distanceTable : List (Nat × Nat) :=
  [(1, 0), (2, 0), (3, 0), (4, 0), (5, 1), (7, 1), (9, 2), (13, 2), (17, 3), (25, 3), (33, 4), (49, 4),
    (65, 5), (97, 5), (129, 6), (193, 6), (257, 7), (385, 7), (513, 8), (769, 8), (1025, 9), (1537, 9),
    (2049, 10), (3073, 10), (4097, 11), (6145, 11), (8193, 12), (12289, 12), (16385, 13), (24577, 13)]

/-- A code of one of the tables with its extra bits. -/
structure Coded where
  code : Nat
  extra : Nat
  deriving Repr, DecidableEq

namespace Coded

variable (table : List (Nat × Nat)) (c : Coded)

/-- The length or distance it stands for. -/
def value : Nat := (table.getD c.code (0, 0)).1 + c.extra

/-- The number of its extra bits. -/
def width : Nat := (table.getD c.code (0, 0)).2

def Valid : Prop := c.code < table.length ∧ c.extra < 2 ^ c.width table

/-- The extra bits. -/
def extraBits : List Bool := natBits (c.width table) c.extra

end Coded

inductive Token
  | literal (byte : UInt8)
  | copy (length distance : Coded)
  deriving Repr, DecidableEq

namespace Token

def expand (out : List UInt8) : Token → List UInt8
  | .literal byte => out ++ [byte]
  | .copy length distance =>
    copyMatch out (distance.value distanceTable) (length.value lengthTable)

/-- The token can be written in these codes after this much output. -/
def Valid (codes : Codes) (produced : Nat) : Token → Prop
  | .literal byte => Used codes.literal byte.toNat
  | .copy length distance =>
    length.Valid lengthTable ∧ distance.Valid distanceTable ∧
      Used codes.literal (257 + length.code) ∧ Used codes.distance distance.code ∧
      distance.value distanceTable ≤ produced

def bits (codes : Codes) : Token → List Bool
  | .literal byte => wordBits codes.literal byte.toNat
  | .copy length distance =>
    wordBits codes.literal (257 + length.code) ++ (length.extraBits lengthTable ++
      (wordBits codes.distance distance.code ++ distance.extraBits distanceTable))

end Token

/-- Tokens one after another. -/
def TokensValid (codes : Codes) : (out : List UInt8) → List Token → Prop
  | _, [] => Used codes.literal 256
  | out, token :: tokens =>
    token.Valid codes out.length ∧ TokensValid codes (token.expand out) tokens

/-- The tokens of a block with the end of block behind them. -/
def tokensBits (codes : Codes) (tokens : List Token) : List Bool :=
  tokens.flatMap (Token.bits codes) ++ wordBits codes.literal 256

/-- An element of the run-length coded list of code lengths. -/
inductive LengthItem
  | length (n : Nat)
  /-- The last length three to six times more. -/
  | repeatLast (extra : Nat)
  /-- Three to ten zeros. -/
  | zeros (extra : Nat)
  /-- Eleven to 138 zeros. -/
  | manyZeros (extra : Nat)
  deriving Repr, DecidableEq

namespace LengthItem

def symbol : LengthItem → Nat
  | .length n => n
  | .repeatLast _ => 16
  | .zeros _ => 17
  | .manyZeros _ => 18

def extraBits : LengthItem → List Bool
  | .length _ => []
  | .repeatLast extra => natBits 2 extra
  | .zeros extra => natBits 3 extra
  | .manyZeros extra => natBits 7 extra

/-- The lengths the element adds to those before it. -/
def run (before : List Nat) : LengthItem → List Nat
  | .length n => [n]
  | .repeatLast extra => List.replicate (extra + 3) (before.getLastD 0)
  | .zeros extra => List.replicate (extra + 3) 0
  | .manyZeros extra => List.replicate (extra + 11) 0

def Valid (before : List Nat) : LengthItem → Prop
  | .length n => n < 16
  | .repeatLast extra => extra < 4 ∧ before ≠ []
  | .zeros extra => extra < 8
  | .manyZeros extra => extra < 128

def bits (lengthCode : List Nat) (item : LengthItem) : List Bool :=
  wordBits lengthCode item.symbol ++ item.extraBits

end LengthItem

/-- Elements one after another, each with a word. -/
def ItemsValid (lengthCode : List Nat) : (before : List Nat) → List LengthItem → Prop
  | _, [] => True
  | before, item :: items =>
    (Used lengthCode item.symbol ∧ item.Valid before) ∧
      ItemsValid lengthCode (before ++ item.run before) items

/-- The lengths a list of elements stands for, behind those before it. -/
def expandItems (before : List Nat) (items : List LengthItem) : List Nat :=
  items.foldl (fun before item => before ++ item.run before) before

/-- The order in which the lengths of the code length code are written. -/
def lengthOrder : List Nat := [16, 17, 18, 0, 8, 7, 9, 6, 10, 5, 11, 4, 12, 3, 13, 2, 14, 1, 15]

/-- The head of a dynamic block. -/
structure DynamicHead where
  codes : Codes
  /-- The word lengths of the code for the code lengths. -/
  lengthCode : List Nat
  /-- How many of them are written. -/
  written : Nat
  items : List LengthItem
  deriving Repr, DecidableEq

namespace DynamicHead

structure Valid (head : DynamicHead) : Prop where
  literal_min : 257 ≤ head.codes.literal.length
  literal_max : head.codes.literal.length ≤ 288
  distance_min : 1 ≤ head.codes.distance.length
  distance_max : head.codes.distance.length ≤ 32
  written_min : 4 ≤ head.written
  written_max : head.written ≤ 19
  lengthCode_length : head.lengthCode.length = 19
  lengthCode_le : ∀ l ∈ head.lengthCode, l < 8
  unwritten : ∀ symbol ∈ lengthOrder.drop head.written, head.lengthCode.getD symbol 0 = 0
  lengthCode_fits : Fits head.lengthCode 15
  literal_fits : Fits head.codes.literal 15
  distance_fits : Fits head.codes.distance 15
  items : ItemsValid head.lengthCode [] head.items
  expand : expandItems [] head.items = head.codes.literal ++ head.codes.distance

def bits (head : DynamicHead) : List Bool :=
  natBits 5 (head.codes.literal.length - 257) ++ (natBits 5 (head.codes.distance.length - 1) ++
    (natBits 4 (head.written - 4) ++
      ((lengthOrder.take head.written).flatMap (fun symbol =>
          natBits 3 (head.lengthCode.getD symbol 0)) ++
        head.items.flatMap (LengthItem.bits head.lengthCode))))

end DynamicHead

/-- The codes of a fixed block. -/
def fixedCodes : Codes where
  literal := List.replicate 144 8 ++ List.replicate 112 9 ++ List.replicate 24 7 ++ List.replicate 8 8
  distance := List.replicate 32 5

inductive Block
  /-- `padding` is what is skipped up to the next byte. -/
  | stored (padding : List Bool) (bytes : List UInt8)
  | fixed (tokens : List Token)
  | dynamic (head : DynamicHead) (tokens : List Token)
  deriving Repr, DecidableEq

namespace Block

/-- The output after a block. -/
def expand (out : List UInt8) : Block → List UInt8
  | .stored _ bytes => out ++ bytes
  | .fixed tokens => tokens.foldl Token.expand out
  | .dynamic _ tokens => tokens.foldl Token.expand out

/-- The block may stand at this bit of the stream after this output. -/
def Valid (position : Nat) (out : List UInt8) : Block → Prop
  | .stored padding bytes =>
    padding.length < 8 ∧ (position + 3 + padding.length) % 8 = 0 ∧ bytes.length < 2 ^ 16
  | .fixed tokens => TokensValid fixedCodes out tokens
  | .dynamic head tokens => head.Valid ∧ TokensValid head.codes out tokens

/-- `BTYPE`. -/
def type : Block → Nat
  | .stored _ _ => 0
  | .fixed _ => 1
  | .dynamic _ _ => 2

/-- The block behind its first three bits. -/
def body : Block → List Bool
  | .stored padding bytes =>
    padding ++ (natBits 16 bytes.length ++ (natBits 16 (2 ^ 16 - 1 - bytes.length) ++
      bytesBits bytes))
  | .fixed tokens => tokensBits fixedCodes tokens
  | .dynamic head tokens => head.bits ++ tokensBits head.codes tokens

/-- The block behind its first bit. -/
def bits (block : Block) : List Bool := natBits 2 block.type ++ block.body

end Block

/-- The bits of a list of blocks; the first bit of each says whether it is the last. -/
def blocksBits : List Block → List Bool
  | [] => []
  | [block] => true :: block.bits
  | block :: next :: blocks => false :: (block.bits ++ blocksBits (next :: blocks))

/-- Blocks that may follow one another from this bit and this output on. -/
def BlocksValid : (position : Nat) → (out : List UInt8) → List Block → Prop
  | _, _, [] => False
  | position, out, [block] => block.Valid position out
  | position, out, block :: next :: blocks =>
    block.Valid position out ∧
      BlocksValid (position + 1 + block.bits.length) (block.expand out) (next :: blocks)

def expandBlocks (blocks : List Block) : List UInt8 := blocks.foldl Block.expand []

/-- The data starts with these blocks, and the bytes `gap` follow the one the last block ends in. -/
def Deflated (data : List UInt8) (blocks : List Block) (gap : List UInt8) : Prop :=
  ∃ padding : List Bool, padding.length < 8 ∧
    bytesBits data = blocksBits blocks ++ (padding ++ bytesBits gap)

section Zlib

/-- The two bytes of a zlib header: DEFLATE with a window of at most 32 KiB, no dictionary, and the
check bits. -/
def HeaderValid (cmf flg : UInt8) : Prop :=
  cmf.toNat % 16 = 8 ∧ cmf.toNat / 16 ≤ 7 ∧ flg.toNat / 32 % 2 = 0 ∧
    (256 * cmf.toNat + flg.toNat) % 31 = 0

/-- The sum of the bytes, each times the number of bytes from it on. -/
def weightedSum : List UInt8 → Nat
  | [] => 0
  | byte :: bytes => (bytes.length + 1) * byte.toNat + weightedSum bytes

/-- Adler-32: `A = 1 + D₁ + … + Dₙ` and `B = n + n·D₁ + … + Dₙ`, both modulo 65521. -/
def adler (data : List UInt8) : Nat :=
  (data.length + weightedSum data) % 65521 * 65536 + (1 + (data.map UInt8.toNat).sum) % 65521

/-- The four bytes of a number, high byte first. -/
def beBytes (n : Nat) : List UInt8 :=
  [UInt8.ofNat (n / 2 ^ 24), UInt8.ofNat (n / 2 ^ 16), UInt8.ofNat (n / 2 ^ 8), UInt8.ofNat n]

/-- A zlib stream of these blocks with the bytes `gap` between the last block and the checksum; in a
proper stream there are none. -/
def Framed (input : List UInt8) (blocks : List Block) (gap : List UInt8) : Prop :=
  BlocksValid 0 [] blocks ∧ ∃ cmf flg data, HeaderValid cmf flg ∧ Deflated data blocks gap ∧
    input = cmf :: flg :: (data ++ beBytes (adler (expandBlocks blocks)))

end Zlib

end KernelBoot.Lib.Deflate
