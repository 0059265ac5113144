import KernelBoot.Mm.Frame

/-!
# The kernel's own page tables (`kernel/mm/virtual/address_space.c`)

The static tables of the kernel map: one root, one directory of directories, four directories of huge
pages and the eight tables behind the heap window. Where the linker puts them is a parameter. Loading
the page root and the MSR that enables no-execute pages act on the processor only and leave no trace
here.
-/

namespace KernelBoot.Mm

def pageSize : Nat := 0x1000
def hugePageSize : Nat := 0x200000
def pagePresent : Word := 0x001
def pageWritable : Word := 0x002
def pageUser : Word := 0x004
def pageHuge : Word := 0x080
def pageNx : Word := 1 <<< 63
def heapBase : Nat := 0x40000000
def heapPageCount : Nat := 4096
def heapPageTableCount : Nat := heapPageCount / 512

/-- The addresses of the static tables. -/
structure KernelLayout where
  pml4 : Word
  pdpt : Word
  pageDirectories : Nat → Word
  heapPageTables : Nat → Word

/-- The static tables and what is recorded about them. -/
structure KernelTables where
  layout : KernelLayout
  pml4 : Nat → Word
  pdpt : Nat → Word
  pageDirectories : Nat → Nat → Word
  heapPageTables : Nat → Nat → Word
  heapPageTableActive : Bool
  root : Word

/-- `virtual_memory_initialize`: the first 4 GiB identity mapped by huge pages. -/
def virtualMemoryInitialize (k : KernelTables) : KernelTables :=
  { k with
    pml4 := fun i => if i = 0 then k.layout.pdpt ||| pagePresent ||| pageWritable else 0
    pdpt := fun i =>
      if i < 4 then k.layout.pageDirectories i ||| pagePresent ||| pageWritable else 0
    pageDirectories := fun directory entry =>
      BitVec.ofNat 64 ((directory * 512 + entry) * hugePageSize) |||
        pagePresent ||| pageWritable ||| pageHuge
    root := k.layout.pml4 }

/-- The first use of the heap window: its tables cleared and hung into the second directory. -/
def activateHeapPageTables (k : KernelTables) : KernelTables :=
  if k.heapPageTableActive then k
  else
    { k with
      heapPageTables := fun _ _ => 0
      pageDirectories := fun directory entry =>
        if directory = 1 ∧ entry < heapPageTableCount then
          k.layout.heapPageTables entry ||| pagePresent ||| pageWritable
        else k.pageDirectories directory entry
      heapPageTableActive := true }

/-- `virtual_memory_map_page`: map one page of the heap window. -/
def virtualMemoryMapPage (k : KernelTables) (virtualAddress : Nat) (physicalAddress flags : Word) :
    Bool × KernelTables :=
  if virtualAddress % pageSize ≠ 0 ∨ (physicalAddress &&& 0xfff#64) ≠ 0 ∨
      virtualAddress < heapBase ∨ virtualAddress ≥ heapBase + heapPageCount * pageSize ∨
      physicalAddress.toNat ≥ 0x100000000 then (false, k)
  else
    let k := activateHeapPageTables k
    let page := (virtualAddress - heapBase) / pageSize
    (true, { k with
      heapPageTables := Function.update k.heapPageTables (page / 512)
        (Function.update (k.heapPageTables (page / 512)) (page % 512)
          (physicalAddress ||| flags ||| pagePresent)) })

end KernelBoot.Mm
