import KernelBoot.Lib.Attempt
import KernelBoot.Lib.Elf64
import KernelBoot.Mm.AddressSpace
import KernelBoot.Mm.PageBytes

/-!
# User images (`kernel/core/process/user_image.c`)

`user_image_load` maps the segments of an ELF file page by page into a space. The three arrays of
`user_image_t` and their count are one list. Every failure behind the header check goes through
`release_pages`, so the loops are attempts on the space and the list, and the release follows a failed
one.
-/

namespace KernelBoot.Process

open Lib Lib.Attempt Mm

def userImageMaxPages : Nat := 128

/-- A slot of `pages`, `virtual_pages` and `page_flags`. -/
structure LoadedPage where
  frame : Word
  virtualPage : Nat
  flags : Word

/-- `user_image_t`. -/
structure UserImage where
  entry : Word
  pages : List LoadedPage

/-- The space and the image while they are loaded. -/
structure Loading where
  state : SpaceState
  pages : List LoadedPage

/-! ## The checks -/

def rangeInside (offset length size : Word) : Bool := offset ≤ size && length ≤ size - offset

def pageDown (value : Word) : Word := value &&& ~~~(0x1000#64 - 1)

def pageUp (value : Word) : Word := (value + 0x1000 - 1) &&& ~~~(0x1000#64 - 1)

def validAlignment (alignment offset virtualAddress : Word) : Bool :=
  if alignment ≤ 1 then true
  else (alignment &&& (alignment - 1)) == 0 &&
    (offset &&& (alignment - 1)) == (virtualAddress &&& (alignment - 1))

/-- The header check. Sixteen bits of `phnum` cannot exceed the bound that the source also checks. -/
def headerAccepted (image : Bytes) (imageSize : Word) : Bool :=
  let header := Elf.header image
  Elf.headerSize ≤ imageSize.toNat && header.ident.load32 0 == 0x464c457f && header.ident 4 == 2 &&
  header.ident 5 == 1 && header.type == 2 && header.machine == 62 &&
  header.ehsize == Elf.headerSize && header.phentsize == Elf.programSize && header.phnum != 0 &&
  rangeInside header.phoff (BitVec.ofNat 64 (header.phnum * Elf.programSize)) imageSize

/-- The two checks of a `PT_LOAD` header. -/
def segmentAccepted (imageSize : Word) (program : ElfProgram) : Bool :=
  (program.flags &&& ~~~(Elf.executable ||| Elf.writable ||| Elf.readable)) == 0 &&
  !(program.memorySize < program.fileSize) && !(program.virtualAddress < 2 ^ 39) &&
  !(program.virtualAddress + program.memorySize < program.virtualAddress) &&
  !(program.virtualAddress + program.memorySize ≥ 2 ^ 48) &&
  validAlignment program.alignment program.offset program.virtualAddress &&
  rangeInside program.offset program.fileSize imageSize

/-! ## One page -/

/-- `page_flags` of a segment. -/
def segmentFlags (program : ElfProgram) : Word :=
  let flags := addressSpaceUser
  let flags := if program.isWritable then flags ||| addressSpaceWritable else flags
  if program.isExecutable then flags ||| addressSpaceExecutable else flags

def loadedPageIndex (pages : List LoadedPage) (virtualPage : Nat) : Option Nat :=
  pages.findIdx? (·.virtualPage == virtualPage)

/-- `address_space_update_page_flags` on the space. -/
def updateFlags (virtualPage : Nat) (flags : Word) : Attempt Loading Unit := fun l =>
  let (done, state) := addressSpaceUpdatePageFlags l.state virtualPage flags
  (if done then some () else none, { l with state })

/-- `physical_alloc_frame` and `address_space_map_page`. -/
def backPage (virtualPage : Nat) (flags : Word) : Attempt Loading Word := fun l =>
  let (frame, state) := addressSpaceBackPage l.state virtualPage flags
  (frame, { l with state })

/-- The segment asks for more than reading. -/
def isFlagged (program : ElfProgram) : Prop := (program.flags &&& (Elf.writable ||| Elf.executable)) ≠ 0

instance (program : ElfProgram) : Decidable (isFlagged program) := inferInstanceAs (Decidable (_ ≠ _))

/-- The update that only such a segment makes. -/
def grantFlags (program : ElfProgram) (virtualPage : Nat) : Attempt Loading Unit :=
  if isFlagged program then updateFlags virtualPage (segmentFlags program) else pure ()

/-- A page that an earlier segment brought. -/
def sharePage (program : ElfProgram) (virtualPage index : Nat) : Attempt Loading Word := do
  grantFlags program virtualPage
  change fun l => { l with pages := l.pages.modify index fun page =>
    { page with flags := page.flags ||| segmentFlags program } }
  ofOption (← look fun l => l.pages[index]?.map LoadedPage.frame)

/-- A page that is new, recorded and zeroed. -/
def addPage (program : ElfProgram) (virtualPage : Nat) : Attempt Loading Word := do
  check ((← look fun l => l.pages.length) < userImageMaxPages)
  let frame ← backPage virtualPage (segmentFlags program)
  change fun l =>
    { state := l.state.setPage frame fun _ => 0
      pages := l.pages ++ [⟨frame, virtualPage, segmentFlags program⟩] }
  return frame

/-- The bytes of the file that belong into the page. -/
def copyFile (image : Bytes) (program : ElfProgram) (virtualPage : Nat) (frame : Word)
    (memory : Word → Page) : Word → Page :=
  let fileStart := max program.first virtualPage
  let fileEnd := min program.fileEnd (virtualPage + 0x1000)
  if fileEnd > fileStart then
    writeFrame memory frame (fileStart - virtualPage) (fileEnd - fileStart)
      (image.window (program.offset.toNat + (fileStart - program.first)))
  else memory

/-- One turn of the inner loop. -/
def loadPage (image : Bytes) (program : ElfProgram) (virtualPage : Nat) : Attempt Loading Unit := do
  let index ← look fun l => loadedPageIndex l.pages virtualPage
  let frame ← match index with
    | some index => sharePage program virtualPage index
    | none => addPage program virtualPage
  change fun l => { l with state := { l.state with physical := { l.state.physical with
    memory := copyFile image program virtualPage frame l.state.physical.memory } } }

/-! ## The image -/

/-- The pages from `first` to `end`. -/
def segmentPages (program : ElfProgram) : List Nat :=
  let first := (pageDown program.virtualAddress).toNat
  let last := (pageUp (program.virtualAddress + program.memorySize)).toNat
  (List.range ((last - first) / 0x1000)).map fun turn => first + 0x1000 * turn

/-- The segment brings the entry point. -/
def holdsEntry (entry : Word) (program : ElfProgram) : Bool :=
  entry ≥ program.virtualAddress && entry - program.virtualAddress < program.memorySize &&
  program.isExecutable

/-- One turn of the outer loop; answers with `entry_loaded`. -/
def loadSegment (image : Bytes) (imageSize : Word) (entryLoaded : Bool) (program : ElfProgram) :
    Attempt Loading Bool := do
  if program.isLoad then
    check (segmentAccepted imageSize program = true)
    forAll (loadPage image program) (segmentPages program)
    return entryLoaded || holdsEntry (Elf.header image).entry program
  else return entryLoaded

def loadSegments (image : Bytes) (imageSize : Word) : Attempt Loading Unit := do
  let entryLoaded ← foldAll (loadSegment image imageSize) false (Elf.programs image)
  check (entryLoaded = true)

def releasePages : List LoadedPage → SpaceState → SpaceState
  | [], s => s
  | page :: rest, s =>
    releasePages rest ((addressSpaceUnmapPage s page.virtualPage).2.free page.frame)

/-- The loaded image, or `none` where the source returns 0. -/
def userImageLoad (s : SpaceState) (image : Bytes) (imageSize : Word) :
    Option UserImage × SpaceState :=
  if !headerAccepted image imageSize then (none, s)
  else
    match loadSegments image imageSize ⟨s, []⟩ with
    | (none, l) => (none, releasePages l.pages l.state)
    | (some (), l) =>
      (if l.pages.length ≠ 0 then some ⟨(Elf.header image).entry, l.pages⟩ else none, l.state)

end KernelBoot.Process
