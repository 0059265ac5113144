import Mathlib
import KernelBoot.Lib.Bitmap

/-!
# The physical frame allocator (`kernel/mm/physical/frame.c`)

Two bitmaps over the frames below 4 GiB, three counters, and the frames' contents, which an
allocation zeroes. A clear bit of `frameBitmap` is a free frame; a set bit of `allocatedBitmap` is a
frame a caller holds. Machine counters are `Nat`: `Laws.Mm.Frame` shows that none of the
subtractions below goes under zero on a state the allocator reaches. Each function is one critical
section of `frame_lock`.
-/

namespace KernelBoot.Mm

open Lib

/-- A 64-bit machine word. -/
abbrev Word := BitVec 64

/-- The contents of one 4 KiB page, as 512 words. -/
abbrev Page := Fin 512 → Word

def frameSize : Nat := 4096
def maxPhysicalAddress : Nat := 2 ^ 32
def maxFrames : Nat := maxPhysicalAddress / frameSize

/-- The fields of a UEFI memory descriptor the allocator reads. -/
structure EfiMemoryDescriptor where
  type : Nat
  physicalStart : Nat
  numberOfPages : Nat

/-- `sizeof(efi_memory_descriptor_t)`. -/
def sizeofEfiMemoryDescriptor : Nat := 40

/-- The fields of `os_boot_info_t` the allocator reads. -/
structure BootInfo where
  memoryMap : Nat
  memoryMapSize : Nat
  memoryDescriptorSize : Nat
  kernelBase : Nat
  kernelSize : Nat

structure PhysicalMemoryStats where
  totalFrames : Nat
  freeFrames : Nat
  reservedFrames : Nat

/-- The allocator's static variables and the memory it hands out, a page at its address. -/
structure Physical where
  frameBitmap : Bitmap
  allocatedBitmap : Bitmap
  stats : PhysicalMemoryStats
  memory : Word → Page

/-- The physical address of a frame. -/
def frameAddress (frame : Nat) : Word := BitVec.ofNat 64 (frame * frameSize)

def markFrame (p : Physical) (frame : Nat) (free : Bool) : Physical :=
  if frame ≥ maxFrames then p
  else if free then { p with frameBitmap := p.frameBitmap.clear frame }
  else { p with frameBitmap := p.frameBitmap.set frame }

def frameIsFree (p : Physical) (frame : Nat) : Bool := !p.frameBitmap.test frame

def frameIsAllocated (p : Physical) (frame : Nat) : Bool := p.allocatedBitmap.test frame

def markAllocated (p : Physical) (frame : Nat) (allocated : Bool) : Physical :=
  if allocated then { p with allocatedBitmap := p.allocatedBitmap.set frame }
  else { p with allocatedBitmap := p.allocatedBitmap.clear frame }

/-- Write zero to every word of a frame. -/
def zeroFrame (p : Physical) (frame : Nat) : Physical :=
  { p with memory := Function.update p.memory (frameAddress frame) fun _ => 0 }

/-! ## `physical_init` -/

/-- `mark_frame(first + page, 1)` for each page of a range. -/
def markFramesFree : (pages first : Nat) → Physical → Physical
  | 0, _, p => p
  | pages + 1, first, p => markFramesFree pages (first + 1) (markFrame p first true)

/-- Conventional memory (type 7) below 4 GiB becomes free, clipped at 4 GiB. -/
def markDescriptor (descriptor : EfiMemoryDescriptor) (p : Physical) : Physical :=
  if descriptor.type = 7 ∧ descriptor.physicalStart < maxPhysicalAddress then
    let first := descriptor.physicalStart / frameSize
    let pages := if descriptor.numberOfPages > maxFrames - first then maxFrames - first
      else descriptor.numberOfPages
    markFramesFree pages first p
  else p

/-- The walk over the memory map; `cursor` is the address of the next descriptor. -/
def markDescriptors (descriptorAt : Nat → EfiMemoryDescriptor) (descriptorSize : Nat) :
    (count cursor : Nat) → Physical → Physical
  | 0, _, p => p
  | count + 1, cursor, p =>
    markDescriptors descriptorAt descriptorSize count (cursor + descriptorSize)
      (markDescriptor (descriptorAt cursor) p)

/-- `mark_frame(kernel_first + page, 0)` for the kernel's pages below 4 GiB. -/
def reserveKernel : (pages frame : Nat) → Physical → Physical
  | 0, _, p => p
  | pages + 1, frame, p =>
    if frame < maxFrames then reserveKernel pages (frame + 1) (markFrame p frame false) else p

/-- How many frames are free. -/
def countFree (p : Physical) : Nat := (List.range maxFrames).countP (frameIsFree p)

/-- The boot information `physical_init` refuses, the null pointer apart. -/
def BootInfo.refused (bootInfo : BootInfo) : Bool :=
  bootInfo.memoryMap == 0 || bootInfo.memoryDescriptorSize == 0 ||
  bootInfo.memoryDescriptorSize < sizeofEfiMemoryDescriptor ||
  bootInfo.memoryMapSize < bootInfo.memoryDescriptorSize ||
  bootInfo.kernelBase ≥ maxPhysicalAddress || bootInfo.kernelSize == 0 ||
  bootInfo.kernelSize > maxPhysicalAddress - bootInfo.kernelBase

/-- The bitmap `physical_init` builds: everything reserved, then the conventional memory of the map
free, then the kernel image reserved again. -/
def initialFrames (bootInfo : BootInfo) (descriptorAt : Nat → EfiMemoryDescriptor)
    (p : Physical) : Physical :=
  let cleared := { p with
    frameBitmap := fun _ => 0xff#8
    allocatedBitmap := fun _ => 0#8
    stats := { p.stats with totalFrames := maxFrames } }
  let mapped := markDescriptors descriptorAt bootInfo.memoryDescriptorSize
    (bootInfo.memoryMapSize / bootInfo.memoryDescriptorSize) bootInfo.memoryMap cleared
  reserveKernel ((bootInfo.kernelSize - 1) / frameSize + 1) (bootInfo.kernelBase / frameSize) mapped

/-- `physical_init`; `descriptorAt` is the memory holding the UEFI map, a descriptor at its address,
and `none` the null pointer. -/
def physicalInit (bootInfo : Option BootInfo) (descriptorAt : Nat → EfiMemoryDescriptor)
    (p : Physical) : Bool × Physical :=
  match bootInfo with
  | none => (false, p)
  | some bootInfo =>
    if bootInfo.refused then (false, p)
    else
      let marked := initialFrames bootInfo descriptorAt p
      let free := countFree marked
      (free != 0, { marked with stats :=
        { marked.stats with freeFrames := free, reservedFrames := marked.stats.totalFrames - free } })

/-! ## `physical_alloc_frames` -/

/-- The inner `while`: how many frames from `frame + available` on are free, `remaining` at most. -/
def countAvailable (p : Physical) (frame : Nat) : (remaining available : Nat) → Nat
  | 0, available => available
  | remaining + 1, available =>
    if frameIsFree p (frame + available) then countAvailable p frame remaining (available + 1)
    else available

/-- The outer `for`: the first frame that starts a free run of `count`. -/
def findRun (p : Physical) (count : Nat) : (remaining frame : Nat) → Option Nat
  | 0, _ => none
  | remaining + 1, frame =>
    if countAvailable p frame count 0 = count then some frame
    else findRun p count remaining (frame + 1)

/-- One page of an allocation: reserve, record, zero. -/
def takeFrame (p : Physical) (frame : Nat) : Physical :=
  zeroFrame (markAllocated (markFrame p frame false) frame true) frame

def takeFrames : (pages frame : Nat) → Physical → Physical
  | 0, _, p => p
  | pages + 1, frame, p => takeFrames pages (frame + 1) (takeFrame p frame)

/-- `physical_alloc_frames`; the address is 0 on failure. -/
def physicalAllocFrames (p : Physical) (count : Nat) : Word × Physical :=
  if count = 0 ∨ count > maxFrames - 256 then (0, p)
  else
    match findRun p count (maxFrames - count - 256 + 1) 256 with
    | none => (0, p)
    | some frame =>
      let taken := takeFrames count frame p
      (frameAddress frame, { taken with stats :=
        { taken.stats with
          freeFrames := taken.stats.freeFrames - count
          reservedFrames := taken.stats.reservedFrames + count } })

def physicalAllocFrame (p : Physical) : Word × Physical := physicalAllocFrames p 1

/-! ## `physical_free_frames` -/

/-- One page of a release: only an allocated frame goes back. -/
def giveFrame (p : Physical) (frame : Nat) : Physical :=
  if frameIsAllocated p frame then
    let freed := markFrame (markAllocated p frame false) frame true
    { freed with stats :=
      { freed.stats with
        freeFrames := freed.stats.freeFrames + 1
        reservedFrames := freed.stats.reservedFrames - 1 } }
  else p

def giveFrames : (pages frame : Nat) → Physical → Physical
  | 0, _, p => p
  | pages + 1, frame, p => giveFrames pages (frame + 1) (giveFrame p frame)

/-- The requests `physical_free_frames` returns from without looking at a frame. -/
def freeRefused (address : Word) (count : Nat) : Bool :=
  count == 0 || (address &&& 0xfff#64) != 0 || address.toNat ≥ maxPhysicalAddress ||
  count > (maxPhysicalAddress - address.toNat) / frameSize

def physicalFreeFrames (p : Physical) (address : Word) (count : Nat) : Physical :=
  if freeRefused address count then p
  else giveFrames count (address.toNat / frameSize) p

def physicalFreeFrame (p : Physical) (address : Word) : Physical := physicalFreeFrames p address 1

end KernelBoot.Mm
