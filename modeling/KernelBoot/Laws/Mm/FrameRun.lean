import KernelBoot.Laws.Mm.Frame

/-!
# The frame allocator from boot on

`physical_init` establishes `FrameInv`, reserves the kernel image and leaves nothing allocated; every
later call keeps both `FrameInv` and `Conserves`. The contract at the end reads off what a caller
may rely on after any sequence of calls with any arguments.
-/

namespace KernelBoot.Mm

open Lib List

variable {p : Physical} {f : Nat}
variable {bootInfo : BootInfo} {descriptorAt : Nat → EfiMemoryDescriptor} {p₀ : Physical}

/-! ## Initialization -/

/-- Marking keeps the bits above the last frame reserved. -/
theorem markFrame_bounded (hp : ∀ f, frameIsFree p f = true → f < maxFrames) (frame : Nat)
    (free : Bool) (f : Nat) (hf : frameIsFree (markFrame p frame free) f = true) :
    f < maxFrames := by
  by_cases h : frame < maxFrames
  · rw [frameIsFree_markFrame p h] at hf
    split at hf
    next he => omega
    next => exact hp f hf
  · rw [markFrame, if_pos (Nat.not_lt.mp h)] at hf
    exact hp f hf

theorem markFramesFree_bounded {pages first : Nat}
    (hp : ∀ f, frameIsFree p f = true → f < maxFrames) :
    ∀ f, frameIsFree (markFramesFree pages first p) f = true → f < maxFrames := by
  induction pages generalizing first p with
  | zero => exact hp
  | succ pages ih => exact ih (markFrame_bounded hp first true)

@[simp] theorem markFramesFree_allocatedBitmap (pages first : Nat) (p : Physical) :
    (markFramesFree pages first p).allocatedBitmap = p.allocatedBitmap := by
  induction pages generalizing first p with
  | zero => rfl
  | succ pages ih => rw [markFramesFree, ih, markFrame_allocatedBitmap]

@[simp] theorem markFramesFree_stats (pages first : Nat) (p : Physical) :
    (markFramesFree pages first p).stats = p.stats := by
  induction pages generalizing first p with
  | zero => rfl
  | succ pages ih => rw [markFramesFree, ih, markFrame_stats]

/-- What the walk over the memory map leaves alone, and the bound it keeps. -/
theorem markDescriptors_spec (descriptorAt : Nat → EfiMemoryDescriptor) (size : Nat)
    (count cursor : Nat) (hp : ∀ f, frameIsFree p f = true → f < maxFrames) :
    (∀ f, frameIsFree (markDescriptors descriptorAt size count cursor p) f = true → f < maxFrames) ∧
    (markDescriptors descriptorAt size count cursor p).allocatedBitmap = p.allocatedBitmap ∧
    (markDescriptors descriptorAt size count cursor p).stats = p.stats := by
  induction count generalizing cursor p with
  | zero => exact ⟨hp, rfl, rfl⟩
  | succ count ih =>
    have hone : (∀ f, frameIsFree (markDescriptor (descriptorAt cursor) p) f = true → f < maxFrames) ∧
        (markDescriptor (descriptorAt cursor) p).allocatedBitmap = p.allocatedBitmap ∧
        (markDescriptor (descriptorAt cursor) p).stats = p.stats := by
      unfold markDescriptor
      split
      · exact ⟨markFramesFree_bounded hp, markFramesFree_allocatedBitmap _ _ p,
          markFramesFree_stats _ _ p⟩
      · exact ⟨hp, rfl, rfl⟩
    obtain ⟨hbound, hallocated, hstats⟩ := hone
    obtain ⟨hbound', hallocated', hstats'⟩ := ih (cursor + size) hbound
    exact ⟨hbound', hallocated'.trans hallocated, hstats'.trans hstats⟩

/-- Reserving the kernel takes exactly its frames below 4 GiB out of the free set. -/
theorem frameIsFree_reserveKernel (pages frame : Nat) (p : Physical) (f : Nat) :
    frameIsFree (reserveKernel pages frame p) f =
      (frameIsFree p f && !decide (frame ≤ f ∧ f < frame + pages ∧ f < maxFrames)) := by
  fun_induction reserveKernel pages frame p with
  | case1 => rw [decide_eq_false (by omega), Bool.not_false, Bool.and_true]
  | case2 pages frame p h ih =>
    rw [ih, frameIsFree_markFrame p h]
    by_cases hf : f = frame
    · rw [if_pos hf, Bool.false_and, decide_eq_true (by omega), Bool.not_true, Bool.and_false]
    · rw [if_neg hf]
      simp only [show (frame + 1 ≤ f ∧ f < frame + 1 + pages ∧ f < maxFrames) ↔
        (frame ≤ f ∧ f < frame + (pages + 1) ∧ f < maxFrames)
        from ⟨fun h => by omega, fun h => by omega⟩]
  | case3 => rw [decide_eq_false (by omega), Bool.not_false, Bool.and_true]

@[simp] theorem reserveKernel_allocatedBitmap (pages frame : Nat) (p : Physical) :
    (reserveKernel pages frame p).allocatedBitmap = p.allocatedBitmap := by
  induction pages generalizing frame p with
  | zero => rfl
  | succ pages ih =>
    rw [reserveKernel]
    split
    · rw [ih, markFrame_allocatedBitmap]
    · rfl

@[simp] theorem reserveKernel_stats (pages frame : Nat) (p : Physical) :
    (reserveKernel pages frame p).stats = p.stats := by
  induction pages generalizing frame p with
  | zero => rfl
  | succ pages ih =>
    rw [reserveKernel]
    split
    · rw [ih, markFrame_stats]
    · rfl

/-- The frame shares no byte with the kernel image. -/
def OutsideKernel (bootInfo : BootInfo) (frame : Nat) : Prop :=
  (frame + 1) * frameSize ≤ bootInfo.kernelBase ∨
    bootInfo.kernelBase + bootInfo.kernelSize ≤ frame * frameSize

/-- The marks `physical_init` makes: nothing allocated, nothing free above the last frame or, for a
page-aligned kernel, over the kernel image. -/
theorem initialFrames_spec (bootInfo : BootInfo) (descriptorAt : Nat → EfiMemoryDescriptor)
    (p : Physical) :
    (∀ f, frameIsAllocated (initialFrames bootInfo descriptorAt p) f = false) ∧
    (∀ f, frameIsFree (initialFrames bootInfo descriptorAt p) f = true → f < maxFrames) ∧
    (initialFrames bootInfo descriptorAt p).stats.totalFrames = maxFrames ∧
    (bootInfo.kernelBase % frameSize = 0 → ∀ f,
      frameIsFree (initialFrames bootInfo descriptorAt p) f = true → OutsideKernel bootInfo f) := by
  have hcleared : ∀ f, frameIsFree { p with
      frameBitmap := fun _ => 0xff#8
      allocatedBitmap := fun _ => 0#8
      stats := { p.stats with totalFrames := maxFrames } } f = true → f < maxFrames := by
    intro f hf
    -- every bit of 0xff is set, so no frame is free yet
    have hset : ∀ i : Fin 8, (0xff#8).getLsbD i = true := by decide
    have hbit := hset ⟨f % 8, Nat.mod_lt f (by decide)⟩
    simp only [frameIsFree, Bitmap.test_eq_getLsbD, hbit, Bool.not_true, Bool.false_eq_true] at hf
  obtain ⟨hbound, hallocated, hstats⟩ := markDescriptors_spec descriptorAt
    bootInfo.memoryDescriptorSize (bootInfo.memoryMapSize / bootInfo.memoryDescriptorSize)
    bootInfo.memoryMap hcleared
  refine ⟨?_, ?_, ?_, ?_⟩
  · intro f
    simp only [frameIsAllocated, initialFrames, reserveKernel_allocatedBitmap, hallocated,
      Bitmap.test_eq_getLsbD, BitVec.getLsbD_zero]
  · intro f hf
    simp only [initialFrames, frameIsFree_reserveKernel, Bool.and_eq_true] at hf
    exact hbound f hf.1
  · simp only [initialFrames, reserveKernel_stats, hstats]
  · intro haligned f hf
    simp only [initialFrames, frameIsFree_reserveKernel, Bool.and_eq_true, Bool.not_eq_true',
      decide_eq_false_iff_not] at hf
    have hlt := hbound f hf.1
    unfold OutsideKernel
    unfold frameSize at *
    omega

/-- Counters computed from the marks agree with them. -/
theorem frameInv_of_marks {marked : Physical} {free : Nat}
    (hallocated : ∀ f, frameIsAllocated marked f = false)
    (hbound : ∀ f, frameIsFree marked f = true → f < maxFrames)
    (htotal : marked.stats.totalFrames = maxFrames) (hfree : free = countFree marked) :
    FrameInv { marked with stats :=
      { marked.stats with
        freeFrames := free
        reservedFrames := marked.stats.totalFrames - free } } := by
  have hle := Bitmap.zeros_le marked.frameBitmap maxFrames
  rw [← countFree_eq_zeros, ← hfree] at hle
  have hnot : ∀ f, ¬ frameIsAllocated marked f = true :=
    fun f => Bool.eq_false_iff.mp (hallocated f)
  refine ⟨?_, ?_, ?_, ?_, ?_, htotal⟩
  · intro f hboth
    exact hnot f hboth.2
  · intro f hf
    rcases hf with hf | hf
    · exact hbound f hf
    · exact (hnot f hf).elim
  · intro f hf
    exact (hnot f hf).elim
  · rw [countFree_stats]
    exact hfree
  · show free + (marked.stats.totalFrames - free) = marked.stats.totalFrames
    omega

/-- What an accepted boot map gives. -/
theorem physicalInit_accepts (h : physicalInit (some bootInfo) descriptorAt p₀ = (true, p)) :
    FrameInv p ∧ (∀ f, frameIsAllocated p f = false) ∧
    (bootInfo.kernelBase % frameSize = 0 →
      ∀ f, frameIsFree p f = true → OutsideKernel bootInfo f) := by
  obtain ⟨hallocated, hbound, htotal, hkernel⟩ := initialFrames_spec bootInfo descriptorAt p₀
  rw [physicalInit] at h
  split at h
  next => cases h
  next =>
    rw [Prod.mk.injEq] at h
    obtain ⟨_, rfl⟩ := h
    simp only [frameIsAllocated_stats, frameIsFree_stats]
    exact ⟨frameInv_of_marks hallocated hbound htotal rfl, hallocated, hkernel⟩

/-- One free frame is enough for `physical_init` to succeed. -/
theorem physicalInit_of_free (hrefused : bootInfo.refused = false) (hf : f < maxFrames)
    (hfree : frameIsFree (initialFrames bootInfo descriptorAt p₀) f = true) :
    physicalInit (some bootInfo) descriptorAt p₀ =
      (true, (physicalInit (some bootInfo) descriptorAt p₀).2) := by
  have hpos : 0 < countFree (initialFrames bootInfo descriptorAt p₀) :=
    countP_pos_iff.mpr ⟨f, mem_range.mpr hf, hfree⟩
  rw [physicalInit, if_neg (by rw [hrefused]; exact Bool.false_ne_true)]
  rw [Prod.mk.injEq]
  exact ⟨bne_iff_ne.mpr (Nat.pos_iff_ne_zero.mp hpos), rfl⟩

/-! ## Runs -/

/-- A call of the allocator's interface, with arbitrary arguments. -/
inductive FrameCall where
  | alloc (count : Nat)
  | free (address : Word) (count : Nat)

open FrameCall

def FrameCall.step (p : Physical) : FrameCall → Physical
  | .alloc count => (physicalAllocFrames p count).2
  | .free address count => physicalFreeFrames p address count

/-- In state `p` an allocation of `count` frames hands out `frame`. -/
def HandsOut (p : Physical) (count frame : Nat) : Prop :=
  (physicalAllocFrames p count).1 ≠ 0 ∧ InRange (physicalAllocFrames p count).1 count frame

/-- The call passes `frame` to `physical_free_frames`, in a request that is not refused. -/
def FrameCall.PassesBack (call : FrameCall) (frame : Nat) : Prop :=
  ∃ address count, call = .free address count ∧ freeRefused address count = false ∧
    InRange address count frame

theorem handsOut_spec {count : Nat} (h : HandsOut p count f) :
    256 ≤ f ∧ frameIsFree p f = true ∧ frameIsAllocated (physicalAllocFrames p count).2 f = true := by
  obtain ⟨hne, hlow, hhigh⟩ := h
  rcases physicalAllocFrames_cases p count with heq | ⟨frame, hpos, hbase, htop, hall, heq⟩
  · rw [heq] at hne
    exact absurd rfl hne
  · rw [heq] at hlow hhigh ⊢
    rw [frameAddress_toNat (by omega)] at hlow hhigh
    unfold frameSize at hlow hhigh
    have hfree := hall (f - frame) (by omega)
    rw [show frame + (f - frame) = f by omega] at hfree
    rw [frameIsAllocated_stats, frameIsAllocated_takeFrames, if_pos (by omega)]
    exact ⟨by omega, hfree, rfl⟩

theorem FrameCall.step_accounted (p : Physical) (call : FrameCall) : Accounted p (call.step p) := by
  cases call with
  | alloc count => exact accounted_physicalAllocFrames p count
  | free address count => exact accounted_physicalFreeFrames p address count

theorem FrameInv.run (hp : FrameInv p) (calls : List FrameCall) : FrameInv (run step p calls) :=
  run_keeps_any (P := FrameInv) (fun p call hp => (step_accounted p call).inv hp) hp calls

theorem FrameCall.step_conserves {initial : Physical} (hp : Conserves initial p) (call : FrameCall) :
    Conserves initial (call.step p) := by
  intro f
  rw [(step_accounted p call).pool f, hp f]

/-- An allocated frame stays allocated as long as no call passes it back. -/
theorem allocated_until_passedBack (h : frameIsAllocated p f = true) (calls : List FrameCall) :
    frameIsAllocated (run step p calls) f = true ∨ ∃ call ∈ calls, call.PassesBack f := by
  induction calls generalizing p with
  | nil => exact .inl h
  | cons call calls ih =>
    have hstep : frameIsAllocated (call.step p) f = true ∨ call.PassesBack f := by
      cases call with
      | alloc count =>
        rcases physicalAllocFrames_cases p count with heq | ⟨frame, hpos, hbase, htop, hall, heq⟩
        · simp only [step, heq]
          exact .inl h
        · simp only [step, heq, frameIsAllocated_stats, frameIsAllocated_takeFrames, h,
            ite_self]
          exact .inl trivial
      | free address count =>
        obtain ⟨hrefused, hdone⟩ := physicalFreeFrames_exact p address count
        cases hr : freeRefused address count with
        | true =>
          simp only [step, hrefused hr]
          exact .inl h
        | false =>
          by_cases hin : InRange address count f
          · exact .inr ⟨address, count, rfl, hr, hin⟩
          · simp only [step, (hdone hr f).2, h, decide_eq_false hin]
            exact .inl rfl
    rcases hstep with hstep | hpass
    · rcases ih hstep with hrest | ⟨later, hmem, hpass⟩
      · exact .inl hrest
      · exact .inr ⟨later, mem_cons_of_mem _ hmem, hpass⟩
    · exact .inr ⟨call, mem_cons_self, hpass⟩

/-- The allocator's contract after any sequence of calls from boot. The bitmaps are exclusive and
the counters exact; a frame handed out lies above the first 256, was free at boot and outside the
kernel image; it is handed out again only after a call passed it back; and a release that is not
refused frees the allocated frames of its range and touches no other bit. -/
theorem frameAllocator_contract {bootInfo : BootInfo} {descriptorAt : Nat → EfiMemoryDescriptor}
    {p₀ p : Physical} (hinit : physicalInit (some bootInfo) descriptorAt p₀ = (true, p))
    (haligned : bootInfo.kernelBase % frameSize = 0) (calls : List FrameCall) :
    let q := run step p calls
    (∀ f, ¬ (frameIsFree q f = true ∧ frameIsAllocated q f = true)) ∧
    q.stats.freeFrames = (List.range maxFrames).countP (frameIsFree q) ∧
    q.stats.freeFrames + q.stats.reservedFrames = q.stats.totalFrames ∧
    (∀ count f, HandsOut q count f →
      256 ≤ f ∧ frameIsFree p f = true ∧ OutsideKernel bootInfo f) ∧
    (∀ count f later again, HandsOut q count f →
      HandsOut (run step (physicalAllocFrames q count).2 later) again f →
      ∃ call ∈ later, call.PassesBack f) ∧
    (∀ address count,
      (freeRefused address count = true → physicalFreeFrames q address count = q) ∧
      (freeRefused address count = false → ∀ f,
        frameIsFree (physicalFreeFrames q address count) f =
          (frameIsFree q f || (decide (InRange address count f) && frameIsAllocated q f)) ∧
        frameIsAllocated (physicalFreeFrames q address count) f =
          (frameIsAllocated q f && !decide (InRange address count f)))) := by
  intro q
  obtain ⟨hinv, hnone, hkernel⟩ := physicalInit_accepts hinit
  have hq : FrameInv q := hinv.run calls
  have hconserves : Conserves p q := by
    refine run_keeps_any (P := Conserves p) (fun _ call hp => step_conserves hp call) ?_ calls
    intro f
    rw [hnone f, Bool.or_false]
  refine ⟨hq.exclusive, hq.counted, hq.total, ?_, ?_, physicalFreeFrames_exact q⟩
  · intro count f hout
    obtain ⟨hbase, hfree, _⟩ := handsOut_spec hout
    have hboot := hconserves f
    rw [hfree, Bool.true_or] at hboot
    exact ⟨hbase, hboot.symm, hkernel haligned f hboot.symm⟩
  · intro count f later again hout hagain
    obtain ⟨_, _, hheld⟩ := handsOut_spec hout
    obtain ⟨_, hfree, _⟩ := handsOut_spec hagain
    have hlater := (hq.physicalAllocFrames count).run later
    rcases allocated_until_passedBack hheld later with hstill | hpass
    · exact absurd ⟨hfree, hstill⟩ (hlater.exclusive f)
    · exact hpass

/-- A boot map of one conventional range, frames 256 to 259, with the kernel at frame 258. -/
def smallBoot : BootInfo where
  memoryMap := 0x1000
  memoryMapSize := 40
  memoryDescriptorSize := 40
  kernelBase := 258 * 4096
  kernelSize := 100

def smallMap : Nat → EfiMemoryDescriptor := fun _ =>
  { type := 7, physicalStart := 256 * 4096, numberOfPages := 4 }

/-- The static variables before `physical_init`. -/
def zeroPhysical : Physical where
  frameBitmap := fun _ => 0
  allocatedBitmap := fun _ => 0
  stats := { totalFrames := 0, freeFrames := 0, reservedFrames := 0 }
  memory := fun _ _ => 0

theorem smallBoot_accepted : physicalInit (some smallBoot) smallMap zeroPhysical =
    (true, (physicalInit (some smallBoot) smallMap zeroPhysical).2) :=
  physicalInit_of_free (f := 256) (by decide) (by decide) (by decide)

theorem frameAllocator_contract_smallBoot :
    let q := run step (physicalInit (some smallBoot) smallMap zeroPhysical).2
      [.alloc 2, .free (frameAddress 256) 1, .alloc 1]
    (∀ f, ¬ (frameIsFree q f = true ∧ frameIsAllocated q f = true)) ∧
    q.stats.freeFrames = (List.range maxFrames).countP (frameIsFree q) := by
  have h := frameAllocator_contract smallBoot_accepted (by decide)
    [.alloc 2, .free (frameAddress 256) 1, .alloc 1]
  exact ⟨h.1, h.2.1⟩

/-- A boot map with sixty-four free frames. -/
def roomyMap : Nat → EfiMemoryDescriptor := fun _ =>
  { type := 7, physicalStart := 256 * 4096, numberOfPages := 64 }

def roomyBoot : BootInfo := { smallBoot with kernelBase := 255 * 4096 }

def roomyPhysical : Physical := (physicalInit (some roomyBoot) roomyMap zeroPhysical).2

theorem roomyPhysical_inv : FrameInv roomyPhysical :=
  (physicalInit_accepts (physicalInit_of_free (f := 256) (by decide) (by decide) (by decide +kernel) :
    physicalInit (some roomyBoot) roomyMap zeroPhysical = (true, roomyPhysical))).1

end KernelBoot.Mm
