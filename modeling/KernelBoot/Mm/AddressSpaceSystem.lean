import KernelBoot.Mm.AddressSpace

/-!
# Address spaces in use

Two systems around the functions of `address_space.c`. In the first, one space takes calls while the
rest of the kernel and the program itself use the frame allocator and write to frames. In the second,
processors create, activate and destroy spaces; which root each processor has loaded is recorded in
`active_roots` and `active_spaces`. A call runs under `address_space_lock`, so a run is a list of
calls.
-/

namespace KernelBoot.Mm

/-! ## One space -/

/-- A call on a space, or a turn of everyone else, after which physical memory is as given. -/
inductive SpaceCall where
  | mapPage (virtualAddress : Nat) (physicalAddress flags : Word)
  | unmapPage (virtualAddress : Nat)
  | updatePageFlags (virtualAddress : Nat) (flags : Word)
  | mapAnonymous (virtualAddress pages : Nat) (flags : Word)
  | unmapAnonymous (virtualAddress pages : Nat)
  | protectRange (virtualAddress pages : Nat) (flags : Word)
  | others (physical : Physical)

/-- What a call returns, and the state after it. -/
def SpaceCall.effect (s : SpaceState) : SpaceCall → Bool × SpaceState
  | .mapPage virtualAddress physicalAddress flags =>
    addressSpaceMapPage s virtualAddress physicalAddress flags
  | .unmapPage virtualAddress => addressSpaceUnmapPage s virtualAddress
  | .updatePageFlags virtualAddress flags => addressSpaceUpdatePageFlags s virtualAddress flags
  | .mapAnonymous virtualAddress pages flags => addressSpaceMapAnonymous s virtualAddress pages flags
  | .unmapAnonymous virtualAddress pages => addressSpaceUnmapAnonymous s virtualAddress pages
  | .protectRange virtualAddress pages flags => addressSpaceProtectRange s virtualAddress pages flags
  | .others physical => (true, { s with physical := physical })

def SpaceCall.step (s : SpaceState) (call : SpaceCall) : SpaceState := (call.effect s).2

/-- The page a call on a single page is about. -/
def SpaceCall.page? : SpaceCall → Option Nat
  | .mapPage virtualAddress _ _ => some virtualAddress
  | .unmapPage virtualAddress => some virtualAddress
  | .updatePageFlags virtualAddress _ => some virtualAddress
  | _ => none

/-! ## Spaces and processors -/

/-- The spaces, by the address of their `address_space_t`, and the static variables of the file. -/
structure Spaces where
  physical : Physical
  pdpt : Page
  root : Word
  space : Nat → AddressSpace
  activeRoots : Fin 64 → Word
  activeSpaces : Fin 64 → Option Nat

/-- A call, with the processor that makes it where that matters. -/
inductive CpuCall where
  | create (id : Nat)
  | activate (cpu : Fin 64) (id : Nat)
  | activateKernel (cpu : Fin 64)
  | destroy (cpu : Fin 64) (id : Nat)

def Spaces.at (s : Spaces) (id : Nat) : SpaceState := ⟨s.physical, s.space id⟩

def Spaces.put (s : Spaces) (id : Nat) (t : SpaceState) : Spaces :=
  { s with physical := t.physical, space := Function.update s.space id t.space }

/-- `address_space_activate_locked`. -/
def Spaces.activate (s : Spaces) (cpu : Fin 64) (id : Nat) : Bool × Spaces :=
  let root := (s.space id).root
  if (root &&& 0xfff#64) ≠ 0 ∨ root = 0 then (false, s)
  else
    (true, { s with
      activeRoots := Function.update s.activeRoots cpu root
      activeSpaces := Function.update s.activeSpaces cpu (some id) })

/-- `address_space_activate_kernel`. -/
def Spaces.activateKernel (s : Spaces) (cpu : Fin 64) : Bool × Spaces :=
  (s.root != 0, { s with
    activeRoots := Function.update s.activeRoots cpu s.root
    activeSpaces := Function.update s.activeSpaces cpu none })

def CpuCall.effect (s : Spaces) : CpuCall → Bool × Spaces
  | .create id =>
    let (result, t) := addressSpaceCreate s.pdpt (s.at id)
    (result, s.put id t)
  | .activate cpu id => s.activate cpu id
  | .activateKernel cpu => s.activateKernel cpu
  | .destroy cpu id =>
    let (result, t) := addressSpaceDestroy s.root (s.activeRoots cpu) (s.at id)
    (result, s.put id t)

def CpuCall.step (s : Spaces) (call : CpuCall) : Spaces := (call.effect s).2

end KernelBoot.Mm
