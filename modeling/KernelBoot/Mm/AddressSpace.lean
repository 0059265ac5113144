import KernelBoot.Mm.VirtualMemory

/-!
# User address spaces (`kernel/mm/virtual/address_space.c`)

A space is a root table, the list of table frames it owns and the list of anonymous pages it backs;
the four levels of tables themselves live in physical memory and are reached by their entries. Each
function is one critical section of `address_space_lock`, over the space and the frames below it.
Virtual addresses are `Nat`, entries and flags are words. Invalidating a translation acts on the
processor only and leaves no trace here.
-/

namespace KernelBoot.Mm

def addressSpaceWritable : Word := 0x002
def addressSpaceUser : Word := 0x004
def addressSpaceExecutable : Word := 0x008
def addressSpaceMaxAnonymousPages : Nat := 128

/-- The length of the array `owned_frames`. -/
def maxOwnedFrames : Nat := 32

structure AnonymousFrame where
  virtualAddress : Nat
  physicalAddress : Word
  flags : Word
deriving DecidableEq

/-- `address_space_t`; the two arrays with their counts are lists. -/
structure AddressSpace where
  root : Word
  ownedFrames : List Word
  anonymousFrames : List AnonymousFrame

/-- A space and the physical memory that holds its tables. -/
structure SpaceState where
  physical : Physical
  space : AddressSpace

/-! ## Entries and tables -/

abbrev Index := Fin 512

instance entryCount_neZero : NeZero 512 := ⟨by decide⟩

/-- `(virtual_address >> shift) & 0x1ff`. -/
def tableIndex (virtualAddress shift : Nat) : Index := Fin.ofNat 512 (virtualAddress >>> shift)

def pml4Index (virtualAddress : Nat) : Index := tableIndex virtualAddress 39
def pdptIndex (virtualAddress : Nat) : Index := tableIndex virtualAddress 30
def pdIndex (virtualAddress : Nat) : Index := tableIndex virtualAddress 21
def ptIndex (virtualAddress : Nat) : Index := tableIndex virtualAddress 12

def isPresent (entry : Word) : Bool := (entry &&& pagePresent) != 0

/-- `(entry & required) == required`. -/
def hasAll (required entry : Word) : Bool := (entry &&& required) == required

def isPresentUser (entry : Word) : Bool := hasAll (pagePresent ||| pageUser) entry

/-- `entry & ~(PAGE_SIZE - 1)`. -/
def tableOf (entry : Word) : Word := entry &&& ~~~0xfff#64

def SpaceState.entry (s : SpaceState) (table : Word) (index : Index) : Word :=
  s.physical.memory table index

def SpaceState.setEntry (s : SpaceState) (table : Word) (index : Index) (value : Word) :
    SpaceState :=
  { s with physical := { s.physical with
    memory := Function.update s.physical.memory table
      (Function.update (s.physical.memory table) index value) } }

def SpaceState.setPage (s : SpaceState) (frame : Word) (page : Page) : SpaceState :=
  { s with physical := { s.physical with
    memory := Function.update s.physical.memory frame page } }

def SpaceState.free (s : SpaceState) (frame : Word) : SpaceState :=
  { s with physical := physicalFreeFrame s.physical frame }

/-- The tables a walk passes below the root. -/
structure Tables where
  pdpt : Word
  pd : Word
  pt : Word

/-- The walk down to the last table, through entries that pass the caller's test. -/
def SpaceState.tables (s : SpaceState) (admits : Word → Bool) (virtualAddress : Nat) :
    Option Tables :=
  let pml4e := s.entry s.space.root (pml4Index virtualAddress)
  if !admits pml4e then none
  else
    let pdpte := s.entry (tableOf pml4e) (pdptIndex virtualAddress)
    if !admits pdpte then none
    else
      let pde := s.entry (tableOf pdpte) (pdIndex virtualAddress)
      if !admits pde then none
      else some ⟨tableOf pml4e, tableOf pdpte, tableOf pde⟩

/-- The addresses a page operation accepts. -/
def pageAccepted (virtualAddress : Nat) : Bool :=
  virtualAddress % pageSize == 0 && virtualAddress ≥ 2 ^ 39 && virtualAddress < 2 ^ 48

/-- The flags a page operation accepts. -/
def flagsAccepted (allowed flags : Word) : Bool := (flags &&& ~~~allowed) == 0

def pageFlags : Word := addressSpaceWritable ||| addressSpaceUser ||| addressSpaceExecutable
def rangeFlags : Word := addressSpaceWritable ||| addressSpaceExecutable

/-! ## Owning tables -/

/-- `address_space_allocate_table`; 0 on failure. -/
def addressSpaceAllocateTable (s : SpaceState) : Word × SpaceState :=
  if s.space.ownedFrames.length ≥ maxOwnedFrames then (0, s)
  else
    let (frame, physical) := physicalAllocFrame s.physical
    let s := { s with physical := physical }
    if frame = 0 then (0, s)
    else
      let s := s.setPage frame fun _ => 0
      (frame, { s with space := { s.space with ownedFrames := s.space.ownedFrames ++ [frame] } })

/-- One turn of the loop that frees owned frames from the last on. -/
def SpaceState.popOwned (s : SpaceState) : SpaceState :=
  match s.space.ownedFrames.getLast? with
  | none => s
  | some frame =>
    { physical := physicalFreeFrame s.physical frame
      space := { s.space with ownedFrames := s.space.ownedFrames.dropLast } }

def SpaceState.popOwnedTimes : Nat → SpaceState → SpaceState
  | 0, s => s
  | count + 1, s => popOwnedTimes count s.popOwned

/-- Zero the entries a failed walk had filled, the last one first. -/
def SpaceState.clearEntries : List (Word × Index) → SpaceState → SpaceState
  | [], s => s
  | (table, index) :: made, s => clearEntries made (s.setEntry table index 0)

/-- `address_space_rollback_tables`; `made` lists the entries that `made_pdpt` and `made_root`
stand for. -/
def addressSpaceRollbackTables (ownedBefore : Nat) (made : List (Word × Index)) (s : SpaceState) :
    SpaceState :=
  (s.clearEntries made).popOwnedTimes (s.space.ownedFrames.length - ownedBefore)

/-- `address_space_create_locked`; `pdpt` is the kernel's table of the same name. -/
def addressSpaceCreate (pdpt : Page) (s : SpaceState) : Bool × SpaceState :=
  if s.space.root ≠ 0 then (false, s)
  else
    let s := { s with space := { s.space with ownedFrames := [], anonymousFrames := [] } }
    let (rootFrame, s) := addressSpaceAllocateTable s
    let (pdptFrame, s) := addressSpaceAllocateTable s
    if rootFrame = 0 ∨ pdptFrame = 0 then
      (false,
        { physical := s.space.ownedFrames.foldl physicalFreeFrame s.physical
          space := { s.space with ownedFrames := [] } })
    else
      let s := s.setPage pdptFrame pdpt
      let s := s.setEntry rootFrame 0 (pdptFrame ||| pagePresent ||| pageWritable)
      (true, { s with space := { s.space with root := rootFrame } })

/-- `address_space_destroy_locked`, given the kernel's root and the caller's active root. -/
def addressSpaceDestroy (kernelRoot activeRoot : Word) (s : SpaceState) : Bool × SpaceState :=
  if s.space.root = 0 ∨ s.space.root = kernelRoot ∨ s.space.root = activeRoot then (false, s)
  else
    let anonymous := s.space.anonymousFrames.reverse.map (·.physicalAddress)
    let physical := anonymous.foldl physicalFreeFrame s.physical
    (true,
      { physical := s.space.ownedFrames.reverse.foldl physicalFreeFrame physical
        space := { root := 0, ownedFrames := [], anonymousFrames := [] } })

/-! ## One page -/

/-- The three levels below the root in `address_space_map_page_locked`: follow the entry, or hang a
new table there. A table that cannot be had rolls back what this walk made, which at the first level
is nothing. -/
def addressSpaceMakeTables (tableFlags : Word) (ownedBefore : Nat) :
    List Index → Word → List (Word × Index) → SpaceState → Except SpaceState (Word × SpaceState)
  | [], table, _, s => .ok (table, s)
  | index :: rest, table, made, s =>
    if isPresent (s.entry table index) then
      addressSpaceMakeTables tableFlags ownedBefore rest (tableOf (s.entry table index)) made s
    else
      let (frame, s) := addressSpaceAllocateTable s
      if frame = 0 then .error (addressSpaceRollbackTables ownedBefore made s)
      else
        let s := s.setEntry table index (frame ||| tableFlags)
        addressSpaceMakeTables tableFlags ownedBefore rest (tableOf (s.entry table index))
          ((table, index) :: made) s

/-- The entry of a page: its frame, its flags, and no-execute unless asked otherwise. -/
def mappedEntry (physicalAddress flags : Word) : Word :=
  let entry := physicalAddress ||| flags ||| pagePresent
  if (flags &&& addressSpaceExecutable) = 0 then entry ||| pageNx else entry

def addressSpaceMapped (s : SpaceState) (virtualAddress : Nat) : Bool :=
  match s.tables isPresent virtualAddress with
  | none => false
  | some tables => isPresent (s.entry tables.pt (ptIndex virtualAddress))

/-- `address_space_map_page_locked`. -/
def addressSpaceMapPage (s : SpaceState) (virtualAddress : Nat) (physicalAddress flags : Word) :
    Bool × SpaceState :=
  if s.space.root = 0 ∨ !pageAccepted virtualAddress ∨ (physicalAddress &&& 0xfff#64) ≠ 0 ∨
      physicalAddress.toNat ≥ 0x100000000 ∨ !flagsAccepted pageFlags flags then (false, s)
  else if addressSpaceMapped s virtualAddress then (false, s)
  else
    let tableFlags := if (flags &&& pageUser) ≠ 0 then pagePresent ||| pageWritable ||| pageUser
      else pagePresent ||| pageWritable
    let indices := [pml4Index virtualAddress, pdptIndex virtualAddress, pdIndex virtualAddress]
    match addressSpaceMakeTables tableFlags s.space.ownedFrames.length indices s.space.root [] s with
    | .error s => (false, s)
    | .ok (pt, s) =>
      (true, s.setEntry pt (ptIndex virtualAddress) (mappedEntry physicalAddress flags))

/-- The rewritten entry of `address_space_update_page_flags_locked`. -/
def updatedEntry (entry flags : Word) : Word :=
  let kept := (entry &&& ~~~(pageWritable ||| pageUser ||| pageNx)) ||| pagePresent ||| pageUser
  let kept := if (flags &&& addressSpaceWritable) ≠ 0 then kept ||| pageWritable else kept
  if (flags &&& addressSpaceExecutable) = 0 then kept ||| pageNx else kept

/-- `address_space_update_page_flags_locked`. -/
def addressSpaceUpdatePageFlags (s : SpaceState) (virtualAddress : Nat) (flags : Word) :
    Bool × SpaceState :=
  if s.space.root = 0 ∨ !pageAccepted virtualAddress ∨ !flagsAccepted pageFlags flags then (false, s)
  else
    match s.tables isPresent virtualAddress with
    | none => (false, s)
    | some tables =>
      let entry := s.entry tables.pt (ptIndex virtualAddress)
      if !isPresentUser entry then (false, s)
      else (true, s.setEntry tables.pt (ptIndex virtualAddress) (updatedEntry entry flags))

/-- `address_space_table_empty`. -/
def addressSpaceTableEmpty (table : Page) : Bool :=
  (List.finRange 512).all fun index => !isPresent (table index)

/-- `list[index] = list[--count]`. -/
def swapRemove {α : Type} (list : List α) (index : Nat) : List α :=
  match list.getLast? with
  | none => list
  | some last => (list.set index last).dropLast

/-- `address_space_release_table`; `none` when the frame is not owned. -/
def addressSpaceReleaseTable (s : SpaceState) (frame : Word) : Option SpaceState :=
  if frame = 0 then none
  else
    match s.space.ownedFrames.findIdx? (· == frame) with
    | none => none
    | some index =>
      some
        { physical := physicalFreeFrame s.physical frame
          space := { s.space with ownedFrames := swapRemove s.space.ownedFrames index } }

/-- The nested conditionals that end `address_space_unmap_page_locked`: a table left empty is
released and its entry one level up is zeroed, and only then is that level looked at. -/
def addressSpacePrune : List (Word × Word × Index) → SpaceState → SpaceState
  | [], s => s
  | (table, parent, index) :: rest, s =>
    if addressSpaceTableEmpty (s.physical.memory table) then
      match addressSpaceReleaseTable s table with
      | none => s
      | some s => addressSpacePrune rest (s.setEntry parent index 0)
    else s

/-- `address_space_unmap_page_locked`. -/
def addressSpaceUnmapPage (s : SpaceState) (virtualAddress : Nat) : Bool × SpaceState :=
  if s.space.root = 0 ∨ !pageAccepted virtualAddress then (false, s)
  else
    match s.tables isPresent virtualAddress with
    | none => (false, s)
    | some tables =>
      if !isPresent (s.entry tables.pt (ptIndex virtualAddress)) then (false, s)
      else
        let s := s.setEntry tables.pt (ptIndex virtualAddress) 0
        (true, addressSpacePrune
          [(tables.pt, tables.pd, pdIndex virtualAddress),
           (tables.pd, tables.pdpt, pdptIndex virtualAddress),
           (tables.pdpt, s.space.root, pml4Index virtualAddress)] s)

/-! ## What the kernel asks before it touches user memory -/

/-- `address_space_page_executable_locked`. -/
def addressSpacePageExecutable (s : SpaceState) (virtualAddress : Nat) : Bool :=
  if s.space.root = 0 ∨ !pageAccepted virtualAddress then false
  else
    match s.tables isPresentUser virtualAddress with
    | none => false
    | some tables =>
      let entry := s.entry tables.pt (ptIndex virtualAddress)
      isPresentUser entry && (entry &&& pageNx) == 0

/-- One turn of the loop in `address_space_user_range_valid_locked`. -/
def userPageValid (s : SpaceState) (writable : Bool) (page : Nat) : Bool :=
  match s.tables isPresentUser page with
  | none => false
  | some tables =>
    let required := if writable then pagePresent ||| pageUser ||| pageWritable
      else pagePresent ||| pageUser
    hasAll required (s.entry tables.pt (ptIndex page))

/-- The loop itself: the page at hand and `remaining` more. -/
def userPagesValid (s : SpaceState) (writable : Bool) : (remaining page : Nat) → Bool
  | 0, page => userPageValid s writable page
  | remaining + 1, page =>
    userPageValid s writable page && userPagesValid s writable remaining (page + pageSize)

/-- `address_space_user_range_valid_locked`. -/
def addressSpaceUserRangeValid (s : SpaceState) (address size : Nat) (writable : Bool) : Bool :=
  if s.space.root = 0 ∨ size = 0 ∨ address < 2 ^ 39 ∨ address ≥ 2 ^ 48 ∨ size > 2 ^ 48 - address then
    false
  else
    let first := address / pageSize
    let last := (address + size - 1) / pageSize
    userPagesValid s writable (last - first) (first * pageSize)

/-! ## Ranges of pages -/

/-- The range a request names, as the checks before the lock see it. -/
def rangeAccepted (virtualAddress pages : Nat) : Bool :=
  pages ≠ 0 && pages ≤ addressSpaceMaxAnonymousPages &&
  virtualAddress + pages * pageSize ≤ 2 ^ 64 - 1 && virtualAddress % pageSize == 0

/-- The further checks of the requests that name user memory. -/
def userRangeAccepted (virtualAddress pages : Nat) : Bool :=
  rangeAccepted virtualAddress pages && virtualAddress ≥ 2 ^ 39 &&
  virtualAddress + pages * pageSize ≤ 2 ^ 48

/-- Where an entry is and what it held: a slot of `entries` and `old_entries`. -/
structure SavedEntry where
  table : Word
  index : Index
  entry : Word

/-- The entry of a user page in the first loop of `address_space_protect_range`. -/
def userEntry (s : SpaceState) (address : Nat) : Option SavedEntry :=
  if s.space.root = 0 then none
  else
    match s.tables isPresent address with
    | none => none
    | some tables =>
      let entry := s.entry tables.pt (ptIndex address)
      if isPresentUser entry then some ⟨tables.pt, ptIndex address, entry⟩ else none

/-- The first loop of `address_space_protect_range`. -/
def saveEntries (s : SpaceState) : (remaining address : Nat) → Option (List SavedEntry)
  | 0, _ => some []
  | remaining + 1, address =>
    match userEntry s address with
    | none => none
    | some saved => (saveEntries s remaining (address + pageSize)).map (saved :: ·)

/-- The second loop: how many pages were changed, and whether all were. -/
def protectPages (flags : Word) : (remaining changed address : Nat) → SpaceState →
    Bool × Nat × SpaceState
  | 0, changed, _, s => (true, changed, s)
  | remaining + 1, changed, address, s =>
    let (done, s) := addressSpaceUpdatePageFlags s address (flags ||| addressSpaceUser)
    if done then protectPages flags remaining (changed + 1) (address + pageSize) s
    else (false, changed, s)

def restoreEntries : List SavedEntry → SpaceState → SpaceState
  | [], s => s
  | saved :: rest, s => restoreEntries rest (s.setEntry saved.table saved.index saved.entry)

/-- `address_space_protect_range`. -/
def addressSpaceProtectRange (s : SpaceState) (virtualAddress pages : Nat) (flags : Word) :
    Bool × SpaceState :=
  if !userRangeAccepted virtualAddress pages ∨ !flagsAccepted rangeFlags flags then (false, s)
  else
    match saveEntries s pages virtualAddress with
    | none => (false, s)
    | some saved =>
      let (valid, changed, s) := protectPages flags pages 0 virtualAddress s
      if valid then (true, s) else (false, restoreEntries (saved.take changed) s)

def SpaceState.record (s : SpaceState) (frame : AnonymousFrame) : SpaceState :=
  { s with space := { s.space with anonymousFrames := s.space.anonymousFrames ++ [frame] } }

/-- Drop the last anonymous record and free its frame. -/
def SpaceState.popRecord (s : SpaceState) : SpaceState :=
  match s.space.anonymousFrames.getLast? with
  | none => s
  | some last =>
    { physical := physicalFreeFrame s.physical last.physicalAddress
      space := { s.space with anonymousFrames := s.space.anonymousFrames.dropLast } }

/-- Back a page with a fresh frame: the allocation, the mapping and, should either fail, the frame
given back. The shared head of the loops in `address_space_map_anonymous` and
`address_space_clone_anonymous`; the frame is `none` when the page was not mapped. -/
def addressSpaceBackPage (s : SpaceState) (virtualAddress : Nat) (flags : Word) :
    Option Word × SpaceState :=
  let (frame, physical) := physicalAllocFrame s.physical
  let s := { s with physical := physical }
  if frame = 0 then (none, s)
  else
    let (mapped, s) := addressSpaceMapPage s virtualAddress frame flags
    if mapped then (some frame, s) else (none, s.free frame)

/-- The loop that undoes `mapped` pages of `address_space_map_anonymous`. -/
def unmapMapped (virtualAddress : Nat) : (mapped : Nat) → SpaceState → SpaceState
  | 0, s => s
  | mapped + 1, s =>
    let (_, s) := addressSpaceUnmapPage s (virtualAddress + mapped * pageSize)
    unmapMapped virtualAddress mapped s.popRecord

/-- The loop of `address_space_map_anonymous`, after `mapped` pages. -/
def mapAnonymousPages (virtualAddress : Nat) (flags : Word) : (remaining mapped : Nat) →
    SpaceState → Bool × SpaceState
  | 0, _, s => (true, s)
  | remaining + 1, mapped, s =>
    let address := virtualAddress + mapped * pageSize
    match addressSpaceBackPage s address (flags ||| addressSpaceUser) with
    | (none, s) => (false, unmapMapped virtualAddress mapped s)
    | (some frame, s) =>
      mapAnonymousPages virtualAddress flags remaining (mapped + 1)
        (s.record ⟨address, frame, flags ||| addressSpaceUser⟩)

/-- `address_space_map_anonymous`. -/
def addressSpaceMapAnonymous (s : SpaceState) (virtualAddress pages : Nat) (flags : Word) :
    Bool × SpaceState :=
  if !userRangeAccepted virtualAddress pages ∨ !flagsAccepted rangeFlags flags then (false, s)
  else if s.space.anonymousFrames.length > addressSpaceMaxAnonymousPages - pages then (false, s)
  else mapAnonymousPages virtualAddress flags pages 0 s

def SpaceState.recordAt (s : SpaceState) (address : Nat) : Option Nat :=
  s.space.anonymousFrames.findIdx? (·.virtualAddress == address)

/-- The first loop of `address_space_unmap_anonymous`. -/
def allRecorded (s : SpaceState) : (remaining address : Nat) → Bool
  | 0, _ => true
  | remaining + 1, address =>
    (s.recordAt address).isSome && allRecorded s remaining (address + pageSize)

/-- The second loop. The search cannot run past the count: the first loop found every address. -/
def unmapAnonymousPages : (remaining address : Nat) → SpaceState → Bool × SpaceState
  | 0, _, s => (true, s)
  | remaining + 1, address, s =>
    match s.space.anonymousFrames.find? (·.virtualAddress == address), s.recordAt address with
    | some found, some index =>
      let (done, s) := addressSpaceUnmapPage s address
      if done then
        let s := { s with space :=
          { s.space with anonymousFrames := swapRemove s.space.anonymousFrames index } }
        unmapAnonymousPages remaining (address + pageSize) (s.free found.physicalAddress)
      else (false, s)
    | _, _ => (false, s)

/-- `address_space_unmap_anonymous`. -/
def addressSpaceUnmapAnonymous (s : SpaceState) (virtualAddress pages : Nat) : Bool × SpaceState :=
  if !rangeAccepted virtualAddress pages then (false, s)
  else if !allRecorded s pages virtualAddress then (false, s)
  else unmapAnonymousPages pages virtualAddress s

/-! ## Cloning -/

/-- The loop that undoes a clone: `count` records, the last one first. -/
def unmapCloned : (count : Nat) → SpaceState → SpaceState
  | 0, s => s
  | count + 1, s =>
    match s.space.anonymousFrames.getLast? with
    | none => s
    | some last =>
      let (_, s) := addressSpaceUnmapPage s last.virtualAddress
      unmapCloned count s.popRecord

/-- The loop of `address_space_clone_anonymous` over the records of the source; the state is the
destination's, over the memory both spaces share. -/
def cloneRecords (anonymousBefore : Nat) : List AnonymousFrame → SpaceState → Bool × SpaceState
  | [], s => (true, s)
  | source :: rest, s =>
    match addressSpaceBackPage s source.virtualAddress source.flags with
    | (none, s) => (false, unmapCloned (s.space.anonymousFrames.length - anonymousBefore) s)
    | (some frame, s) =>
      let s := s.setPage frame (s.physical.memory source.physicalAddress)
      cloneRecords anonymousBefore rest (s.record ⟨source.virtualAddress, frame, source.flags⟩)

/-- `address_space_clone_anonymous` into the space of `s`. -/
def addressSpaceCloneAnonymous (pdpt : Page) (kernelRoot activeRoot : Word) (source : AddressSpace)
    (s : SpaceState) : Bool × SpaceState :=
  if source.root = 0 ∨ source.anonymousFrames.length > addressSpaceMaxAnonymousPages then (false, s)
  else if s.space.root = 0 then
    match addressSpaceCreate pdpt s with
    | (false, s) => (false, s)
    | (true, s) =>
      match cloneRecords s.space.anonymousFrames.length source.anonymousFrames s with
      | (true, s) => (true, s)
      | (false, s) => (false, (addressSpaceDestroy kernelRoot activeRoot s).2)
  else cloneRecords s.space.anonymousFrames.length source.anonymousFrames s

end KernelBoot.Mm
