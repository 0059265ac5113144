import KernelBoot.Mm.VirtualMemory

/-!
# The kernel heap (`kernel/mm/heap/heap.c`)

The heap window is a memory of cells, one under the address of every header field. Pages are
committed to the window one at a time; a fresh page reads as zero. The loops follow the links that
are in memory, so each takes fuel, and `none` says that the fuel ran out: `Laws.Mm.Heap` shows that
it never does. Each function is one critical section of `heap_lock`.
-/

namespace KernelBoot.Mm

def heapPageSize : Nat := 0x1000
def heapLimit : Nat := heapBase + heapPageCount * heapPageSize
def heapAlignment : Nat := 16
def heapBlockMagic : Nat := 0x48454150424c4f43

/-- `sizeof(heap_block_t)`. -/
def sizeofHeapBlock : Nat := 32

/-- The cells of the heap window. -/
abbrev Cells := Nat → Nat

/-! ## The fields of a block header -/

def blockMagic (m : Cells) (block : Nat) : Nat := m block
def blockSize (m : Cells) (block : Nat) : Nat := m (block + 8)
def blockFree (m : Cells) (block : Nat) : Nat := m (block + 16)
def blockNext (m : Cells) (block : Nat) : Nat := m (block + 24)

def setMagic (m : Cells) (block value : Nat) : Cells := Function.update m block value
def setSize (m : Cells) (block value : Nat) : Cells := Function.update m (block + 8) value
def setFree (m : Cells) (block value : Nat) : Cells := Function.update m (block + 16) value
def setNext (m : Cells) (block value : Nat) : Cells := Function.update m (block + 24) value

/-- The heap's static variables, the window, and the two allocators below it. -/
structure Heap where
  cells : Cells
  firstBlock : Nat
  committedEnd : Nat
  physical : Physical
  kernel : KernelTables

/-- Round up to the alignment; clearing the low four bits is rounding down to a multiple of 16. -/
def alignUp (value : Nat) : Nat := (value + heapAlignment - 1) / heapAlignment * heapAlignment

/-- More than the blocks that fit below the end of the committed pages. -/
def walkFuel (h : Heap) : Nat := h.committedEnd + 1

/-! ## `commit_page` -/

/-- `while (tail->next) tail = tail->next`. -/
def findTail (m : Cells) : (fuel tail : Nat) → Option Nat
  | 0, _ => none
  | fuel + 1, tail => if blockNext m tail = 0 then some tail else findTail m fuel (blockNext m tail)

/-- The committed page reads as zero and gets a free block over all of it. -/
def newPageBlock (m : Cells) (block : Nat) : Cells :=
  let m : Cells := fun cell => if block ≤ cell ∧ cell < block + heapPageSize then 0 else m cell
  let m := setMagic m block heapBlockMagic
  let m := setSize m block (heapPageSize - sizeofHeapBlock)
  let m := setFree m block 1
  setNext m block 0

/-- Grow a free last block over the new page, or link the page's block behind it. -/
def linkPage (m : Cells) (tail block : Nat) : Cells :=
  if blockFree m tail ≠ 0 ∧ tail + sizeofHeapBlock + blockSize m tail = block then
    setSize m tail (blockSize m tail + (sizeofHeapBlock + blockSize m block))
  else setNext m tail block

/-- `commit_page`. -/
def commitPage (h : Heap) : Option (Bool × Heap) :=
  if h.committedEnd ≥ heapLimit then some (false, h)
  else
    match physicalAllocFrame h.physical with
    | (frame, physical) =>
      if frame = 0 then some (false, { h with physical })
      else
        match virtualMemoryMapPage h.kernel h.committedEnd frame 2 with
        | (false, kernel) =>
          some (false, { h with physical := physicalFreeFrame physical frame, kernel })
        | (true, kernel) =>
          let block := h.committedEnd
          let m := newPageBlock h.cells block
          if h.firstBlock = 0 then
            some (true, { h with
              cells := m
              firstBlock := block
              committedEnd := block + heapPageSize
              physical := physical
              kernel := kernel })
          else
            match findTail m (walkFuel h) h.firstBlock with
            | none => none
            | some tail =>
              some (true, { h with
                cells := linkPage m tail block
                committedEnd := block + heapPageSize
                physical := physical
                kernel := kernel })

/-- `heap_initialize`. -/
def heapInitialize (h : Heap) : Option (Bool × Heap) :=
  commitPage { h with firstBlock := 0, committedEnd := heapBase }

/-! ## `kmalloc` -/

/-- The inner `for`: the first free block of at least `size` bytes, or null. -/
def findBlock (m : Cells) (size : Nat) : (fuel block : Nat) → Option Nat
  | 0, _ => none
  | fuel + 1, block =>
    if block = 0 then some 0
    else if blockFree m block = 0 ∨ blockSize m block < size then
      findBlock m size fuel (blockNext m block)
    else some block

/-- Take a found block, splitting off what is left when that is worth a block of its own. -/
def takeBlock (m : Cells) (block size : Nat) : Cells :=
  let remainder := blockSize m block - size
  let m :=
    if remainder > sizeofHeapBlock + heapAlignment then
      let split := block + sizeofHeapBlock + size
      let m := setMagic m split heapBlockMagic
      let m := setSize m split (remainder - sizeofHeapBlock)
      let m := setFree m split 1
      let m := setNext m split (blockNext m block)
      let m := setNext m block split
      setSize m block size
    else m
  setFree m block 0

/-- The outer `for (;;)`: search, and commit one more page when nothing fits. -/
def kmallocLoop (size : Nat) : (fuel : Nat) → Heap → Option (Nat × Heap)
  | 0, _ => none
  | fuel + 1, h =>
    match findBlock h.cells size (walkFuel h) h.firstBlock with
    | none => none
    | some 0 =>
      match commitPage h with
      | none => none
      | some (false, h) => some (0, h)
      | some (true, h) => kmallocLoop size fuel h
    | some block =>
      some (block + sizeofHeapBlock, { h with cells := takeBlock h.cells block size })

def uint64Max : Nat := 2 ^ 64 - 1

/-- `kmalloc`; null on failure. -/
def kmalloc (h : Heap) (size : Nat) : Option (Nat × Heap) :=
  if size = 0 ∨ size > uint64Max - (heapAlignment - 1) then some (0, h)
  else kmallocLoop (alignUp size) (heapPageCount + 1) h

/-! ## `kfree` -/

/-- The coalescing loop: merge a free block with a free successor, then go on to the next block. -/
def sweep : (fuel : Nat) → Cells → (current : Nat) → Option Cells
  | 0, _, _ => none
  | fuel + 1, m, current =>
    if current = 0 ∨ blockNext m current = 0 then some m
    else if blockFree m current = 0 ∨ blockFree m (blockNext m current) = 0 then
      sweep fuel m (blockNext m current)
    else
      let m := setSize m current
        (blockSize m current + (sizeofHeapBlock + blockSize m (blockNext m current)))
      let m := setNext m current (blockNext m (blockNext m current))
      sweep fuel m (blockNext m current)

/-- Whether `kfree` takes a pointer: in the window, aligned, behind the header of a block in use. -/
def kfreeAccepts (h : Heap) (pointer : Nat) : Bool :=
  !(pointer < heapBase + sizeofHeapBlock || pointer ≥ h.committedEnd ||
    pointer % heapAlignment != 0) &&
  (let block := pointer - sizeofHeapBlock
   !(blockMagic h.cells block != heapBlockMagic || blockFree h.cells block != 0 ||
     blockSize h.cells block == 0 || blockSize h.cells block > heapLimit - pointer))

/-- `kfree`. -/
def kfree (h : Heap) (pointer : Nat) : Option Heap :=
  if pointer = 0 then some h
  else if kfreeAccepts h pointer = false then some h
  else
    match sweep (walkFuel h) (setFree h.cells (pointer - sizeofHeapBlock) 1) h.firstBlock with
    | none => none
    | some cells => some { h with cells }

end KernelBoot.Mm
