import KernelBoot.Lib.LittleEndian

/-!
# XXH64

The 64-bit hash of a byte string, in closed form: which lane is read in which round is given by its
offset, and the rounds are folds over their indices.
-/

namespace KernelBoot.Lib.Xxh64

def prime1 : UInt64 := 0x9e3779b185ebca87

def prime2 : UInt64 := 0xc2b2ae3d27d4eb4f

def prime3 : UInt64 := 0x165667b19e3779f9

def prime4 : UInt64 := 0x85ebca77c2b2ae63

def prime5 : UInt64 := 0x27d4eb2f165667c5

def rotateLeft (x : UInt64) (n : Nat) : UInt64 := ⟨x.toBitVec.rotateLeft n⟩

def round (acc lane : UInt64) : UInt64 := rotateLeft (acc + lane * prime2) 31 * prime1

def mergeRound (hash acc : UInt64) : UInt64 := (hash ^^^ round 0 acc) * prime1 + prime4

/-- The `size` bytes at an offset. -/
def lane (data : List UInt8) (size offset : Nat) : UInt64 :=
  UInt64.ofNat (leNat ((data.drop offset).take size))

/-- Accumulator `index` (0 to 3) after all stripes of 32 bytes. -/
def accumulate (data : List UInt8) (index : Nat) (start : UInt64) : UInt64 :=
  (List.range (data.length / 32)).foldl
    (fun acc stripe => round acc (lane data 8 (32 * stripe + 8 * index))) start

/-- The hash of the stripes. -/
def converge (seed : UInt64) (data : List UInt8) : UInt64 :=
  if 32 ≤ data.length then
    let acc1 := accumulate data 0 (seed + prime1 + prime2)
    let acc2 := accumulate data 1 (seed + prime2)
    let acc3 := accumulate data 2 seed
    let acc4 := accumulate data 3 (seed - prime1)
    let sum := rotateLeft acc1 1 + rotateLeft acc2 7 + rotateLeft acc3 12 + rotateLeft acc4 18
    mergeRound (mergeRound (mergeRound (mergeRound sum acc1) acc2) acc3) acc4
  else seed + prime5

/-- The whole 8-byte lanes behind the stripes. -/
def tailLanes (data : List UInt8) (hash : UInt64) : UInt64 :=
  (List.range (data.length % 32 / 8)).foldl
    (fun hash i =>
      rotateLeft (hash ^^^ round 0 (lane data 8 (data.length / 32 * 32 + 8 * i))) 27 * prime1 +
        prime4) hash

/-- A 4-byte lane behind them, if there is one. -/
def tailHalf (data : List UInt8) (hash : UInt64) : UInt64 :=
  if 4 ≤ data.length % 8 then
    rotateLeft (hash ^^^ lane data 4 (data.length / 8 * 8) * prime1) 23 * prime2 + prime3
  else hash

/-- The bytes that are left. -/
def tailBytes (data : List UInt8) (hash : UInt64) : UInt64 :=
  (List.range (data.length % 4)).foldl
    (fun hash i =>
      rotateLeft (hash ^^^ lane data 1 (data.length / 4 * 4 + i) * prime5) 11 * prime1) hash

def avalanche (hash : UInt64) : UInt64 :=
  let hash := (hash ^^^ hash >>> 33) * prime2
  let hash := (hash ^^^ hash >>> 29) * prime3
  hash ^^^ hash >>> 32

def xxh64 (seed : UInt64) (data : List UInt8) : UInt64 :=
  avalanche (tailBytes data (tailHalf data (tailLanes data
    (converge seed data + UInt64.ofNat data.length))))

end KernelBoot.Lib.Xxh64
