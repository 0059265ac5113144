import KernelBoot.Lib.Bytes

/-!
# ELF files of 64-bit little-endian machines

The two records a loader reads: the header at the start of the file and the program headers it points
to. Addresses, offsets and sizes are 64-bit words, so that a loader's arithmetic on them can wrap.
-/

namespace KernelBoot.Lib

open BitVec

/-- The fields of the file header that loaders look at. -/
structure ElfHeader where
  ident : Bytes
  type : Nat
  machine : Nat
  version : Nat
  entry : BitVec 64
  phoff : BitVec 64
  ehsize : Nat
  phentsize : Nat
  phnum : Nat

structure ElfProgram where
  type : Nat
  flags : BitVec 32
  offset : BitVec 64
  virtualAddress : BitVec 64
  fileSize : BitVec 64
  memorySize : BitVec 64
  alignment : BitVec 64
deriving DecidableEq

namespace Elf

/-- The size of the file header. -/
def headerSize : Nat := 64

/-- The size of a program header. -/
def programSize : Nat := 56

def executable : BitVec 32 := 1
def writable : BitVec 32 := 2
def readable : BitVec 32 := 4

def header (file : Bytes) : ElfHeader where
  ident := file
  type := file.load16 16
  machine := file.load16 18
  version := file.load32 20
  entry := BitVec.ofNat 64 (file.load64 24)
  phoff := BitVec.ofNat 64 (file.load64 32)
  ehsize := file.load16 52
  phentsize := file.load16 54
  phnum := file.load16 56

/-- The program header that starts at an offset. -/
def program (file : Bytes) (start : Nat) : ElfProgram where
  type := file.load32 start
  flags := BitVec.ofNat 32 (file.load32 (start + 4))
  offset := BitVec.ofNat 64 (file.load64 (start + 8))
  virtualAddress := BitVec.ofNat 64 (file.load64 (start + 16))
  fileSize := BitVec.ofNat 64 (file.load64 (start + 32))
  memorySize := BitVec.ofNat 64 (file.load64 (start + 40))
  alignment := BitVec.ofNat 64 (file.load64 (start + 48))

/-- The program headers that the file header announces. -/
def programs (file : Bytes) : List ElfProgram :=
  (List.range (header file).phnum).map fun index =>
    program file ((header file).phoff.toNat + programSize * index)

end Elf

/-- `PT_LOAD`. -/
def ElfProgram.isLoad (program : ElfProgram) : Bool := program.type == 1

def ElfProgram.isExecutable (program : ElfProgram) : Bool := (program.flags &&& Elf.executable) != 0

def ElfProgram.isWritable (program : ElfProgram) : Bool := (program.flags &&& Elf.writable) != 0

/-- Masking off the low bits is rounding down to a page. -/
theorem toNat_pageDown (x : BitVec 64) : (x &&& ~~~0xfff#64).toNat = x.toNat / 0x1000 * 0x1000 := by
  have hlow : (x &&& 0xfff#64).toNat = x.toNat % 0x1000 := by
    rw [toNat_and]
    exact Nat.and_two_pow_sub_one_eq_mod x.toNat 12
  have hwhole : (x &&& ~~~0xfff#64 ||| x &&& 0xfff#64) = x := by
    have hones : (~~~0xfff#64 ||| 0xfff#64) = BitVec.allOnes 64 := by decide
    rw [← and_or_distrib_left, hones, and_allOnes]
  have hapart : ((x &&& ~~~0xfff#64) &&& (x &&& 0xfff#64)) = 0#64 := by
    have hzero : (~~~0xfff#64 &&& 0xfff#64) = 0#64 := by decide
    rw [BitVec.and_comm x 0xfff#64, BitVec.and_assoc, ← BitVec.and_assoc (~~~0xfff#64), hzero,
      zero_and, and_zero]
  have hsum := congrArg BitVec.toNat (add_eq_or_of_and_eq_zero _ _ hapart)
  rw [hwhole, toNat_add, hlow] at hsum
  have hle : (x &&& ~~~0xfff#64).toNat ≤ x.toNat := by
    rw [toNat_and]
    exact Nat.and_le_left
  have := x.isLt
  omega

namespace ElfProgram

variable (program : ElfProgram)

/-- The first address of the segment. -/
def first : Nat := program.virtualAddress.toNat

/-- The address behind the segment's part of the file. -/
def fileEnd : Nat := program.first + program.fileSize.toNat

/-- The address behind the segment. -/
def memoryEnd : Nat := program.first + program.memorySize.toNat

end ElfProgram

end KernelBoot.Lib
