import KernelBoot.Lib.Run
import KernelBoot.Mm.Frame

/-!
# What the frame allocator keeps

`FrameInv` ties the two bitmaps and the counters together; `Conserves` compares a state with the one
`physical_init` left: a frame is free or allocated exactly when initialization marked it free, so
no call ever invents a frame.
-/

namespace KernelBoot.Mm

open Lib

variable {frame pages : Nat} {p : Physical}

/-- The bitmaps and the counters agree. -/
structure FrameInv (p : Physical) : Prop where
  exclusive : ∀ f, ¬ (frameIsFree p f = true ∧ frameIsAllocated p f = true)
  bounded : ∀ f, frameIsFree p f = true ∨ frameIsAllocated p f = true → f < maxFrames
  above : ∀ f, frameIsAllocated p f = true → 256 ≤ f
  counted : p.stats.freeFrames = countFree p
  total : p.stats.freeFrames + p.stats.reservedFrames = p.stats.totalFrames
  whole : p.stats.totalFrames = maxFrames

/-- A frame is free or allocated now exactly when it was free in `initial`. -/
def Conserves (initial p : Physical) : Prop :=
  ∀ f, (frameIsFree p f || frameIsAllocated p f) = frameIsFree initial f

/-! ## One frame -/

theorem countFree_eq_zeros (p : Physical) : countFree p = p.frameBitmap.zeros maxFrames := rfl

-- Not stated by `rfl`: comparing the two records field by field would compute the counters.
@[simp] theorem countFree_stats (p : Physical) (stats : PhysicalMemoryStats) :
    countFree { p with stats := stats } = countFree p := by
  rw [countFree_eq_zeros, countFree_eq_zeros]

section

variable (p)

@[simp] theorem frameIsFree_stats (stats : PhysicalMemoryStats) (f : Nat) :
    frameIsFree { p with stats := stats } f = frameIsFree p f := by
  rw [frameIsFree, frameIsFree]

@[simp] theorem frameIsAllocated_stats (stats : PhysicalMemoryStats) (f : Nat) :
    frameIsAllocated { p with stats := stats } f = frameIsAllocated p f := by
  rw [frameIsAllocated, frameIsAllocated]

theorem frameIsFree_markFrame (h : frame < maxFrames) (free : Bool) (f : Nat) :
    frameIsFree (markFrame p frame free) f =
      if f = frame then free else frameIsFree p f := by
  have hn : ¬ frame ≥ maxFrames := Nat.not_le.mpr h
  cases free with
  | true => simp [frameIsFree, markFrame, hn, Bitmap.test_clear, Bool.or_comm]
  | false => simp [frameIsFree, markFrame, hn, Bitmap.test_set, Bool.and_comm]

@[simp] theorem markFrame_allocatedBitmap (frame : Nat) (free : Bool) :
    (markFrame p frame free).allocatedBitmap = p.allocatedBitmap := by
  unfold markFrame
  split
  · rfl
  · cases free <;> rfl

@[simp] theorem markFrame_stats (frame : Nat) (free : Bool) :
    (markFrame p frame free).stats = p.stats := by
  unfold markFrame
  split
  · rfl
  · cases free <;> rfl

@[simp] theorem markFrame_memory (frame : Nat) (free : Bool) :
    (markFrame p frame free).memory = p.memory := by
  unfold markFrame
  split
  · rfl
  · cases free <;> rfl

theorem frameIsAllocated_markAllocated (frame : Nat) (allocated : Bool) (f : Nat) :
    frameIsAllocated (markAllocated p frame allocated) f =
      if f = frame then allocated else frameIsAllocated p f := by
  cases allocated with
  | true => simp [frameIsAllocated, markAllocated, Bitmap.test_set, Bool.or_comm]
  | false => simp [frameIsAllocated, markAllocated, Bitmap.test_clear, Bool.and_comm]

@[simp] theorem markAllocated_frameBitmap (frame : Nat) (allocated : Bool) :
    (markAllocated p frame allocated).frameBitmap = p.frameBitmap := by
  cases allocated <;> rfl

@[simp] theorem markAllocated_stats (frame : Nat) (allocated : Bool) :
    (markAllocated p frame allocated).stats = p.stats := by
  cases allocated <;> rfl

@[simp] theorem markAllocated_memory (frame : Nat) (allocated : Bool) :
    (markAllocated p frame allocated).memory = p.memory := by
  cases allocated <;> rfl

theorem frameIsFree_takeFrame (h : frame < maxFrames) (f : Nat) :
    frameIsFree (takeFrame p frame) f = if f = frame then false else frameIsFree p f := by
  have hmark := frameIsFree_markFrame p h false f
  simpa only [takeFrame, zeroFrame, frameIsFree, markAllocated_frameBitmap] using hmark

theorem frameIsAllocated_takeFrame (frame f : Nat) :
    frameIsAllocated (takeFrame p frame) f = if f = frame then true else frameIsAllocated p f := by
  have hmark := frameIsAllocated_markAllocated (markFrame p frame false) frame true f
  simpa only [takeFrame, zeroFrame, frameIsAllocated, markFrame_allocatedBitmap] using hmark

@[simp] theorem takeFrame_stats (frame : Nat) :
    (takeFrame p frame).stats = p.stats := by
  simp only [takeFrame, zeroFrame, markAllocated_stats, markFrame_stats]

theorem takeFrame_memory (frame : Nat) :
    (takeFrame p frame).memory = Function.update p.memory (frameAddress frame) fun _ => 0 := by
  simp only [takeFrame, zeroFrame, markAllocated_memory, markFrame_memory]

end

theorem countFree_takeFrame (h : frame < maxFrames) (hfree : frameIsFree p frame = true) :
    countFree (takeFrame p frame) + 1 = countFree p := by
  have htest : p.frameBitmap.test frame = false := by
    simpa only [frameIsFree, Bool.not_eq_true'] using hfree
  have hset : (takeFrame p frame).frameBitmap = p.frameBitmap.set frame := by
    simp only [takeFrame, zeroFrame, markAllocated_frameBitmap, markFrame,
      if_neg (Nat.not_le.mpr h), Bool.false_eq_true, ↓reduceIte]
  rw [countFree_eq_zeros, countFree_eq_zeros, hset]
  exact Bitmap.zeros_set h htest

theorem giveFrame_of_allocated (h : frameIsAllocated p frame = true) : giveFrame p frame =
      { p with
        frameBitmap := (markFrame p frame true).frameBitmap
        allocatedBitmap := p.allocatedBitmap.clear frame
        stats := { p.stats with
          freeFrames := p.stats.freeFrames + 1
          reservedFrames := p.stats.reservedFrames - 1 } } := by
  unfold giveFrame
  rw [if_pos h]
  unfold markFrame markAllocated
  split <;> rfl

theorem giveFrame_of_not_allocated (h : frameIsAllocated p frame = false) :
    giveFrame p frame = p := by
  unfold giveFrame
  rw [if_neg (by rw [h]; exact Bool.false_ne_true)]

theorem frameIsFree_giveFrame (h : frame < maxFrames) (f : Nat) :
    frameIsFree (giveFrame p frame) f =
      (frameIsFree p f || (decide (f = frame) && frameIsAllocated p f)) := by
  cases ha : frameIsAllocated p frame with
  | true =>
    have hmark := frameIsFree_markFrame p h true f
    rw [giveFrame_of_allocated ha]
    simp only [frameIsFree] at hmark ⊢
    rw [hmark]
    by_cases hf : f = frame
    · simp only [hf, ha, decide_true, Bool.and_self, Bool.or_true, ↓reduceIte]
    · simp only [hf, decide_false, Bool.false_and, Bool.or_false, ↓reduceIte]
  | false =>
    rw [giveFrame_of_not_allocated ha]
    by_cases hf : f = frame
    · rw [hf, ha, Bool.and_false, Bool.or_false]
    · rw [decide_eq_false hf, Bool.false_and, Bool.or_false]

theorem frameIsAllocated_giveFrame (p : Physical) (frame f : Nat) :
    frameIsAllocated (giveFrame p frame) f = (frameIsAllocated p f && !decide (f = frame)) := by
  cases ha : frameIsAllocated p frame with
  | true =>
    rw [giveFrame_of_allocated ha]
    exact Bitmap.test_clear p.allocatedBitmap frame f
  | false =>
    rw [giveFrame_of_not_allocated ha]
    by_cases hf : f = frame
    · rw [hf, ha, Bool.false_and]
    · rw [decide_eq_false hf, Bool.not_false, Bool.and_true]

@[simp] theorem giveFrame_memory (p : Physical) (frame : Nat) :
    (giveFrame p frame).memory = p.memory := by
  cases ha : frameIsAllocated p frame with
  | true => rw [giveFrame_of_allocated ha]
  | false => rw [giveFrame_of_not_allocated ha]

/-- Giving one frame back keeps the invariant, whatever the frame's state. -/
theorem FrameInv.giveFrame (hp : FrameInv p) (h : frame < maxFrames) :
    FrameInv (giveFrame p frame) := by
  cases ha : frameIsAllocated p frame with
  | false => rwa [giveFrame_of_not_allocated ha]
  | true =>
    have hfree : frameIsFree p frame = false :=
      Bool.eq_false_iff.mpr fun hf => hp.exclusive frame ⟨hf, ha⟩
    have htest : p.frameBitmap.test frame = true := by
      simpa only [frameIsFree, Bool.not_eq_false'] using hfree
    have hcount : countFree (Mm.giveFrame p frame) = countFree p + 1 := by
      have hclear : (Mm.giveFrame p frame).frameBitmap = p.frameBitmap.clear frame := by
        rw [giveFrame_of_allocated ha]
        simp only [markFrame, if_neg (Nat.not_le.mpr h), ↓reduceIte]
      rw [countFree_eq_zeros, countFree_eq_zeros, hclear]
      exact Bitmap.zeros_clear h htest
    have hle := Bitmap.zeros_le (Mm.giveFrame p frame).frameBitmap maxFrames
    rw [← countFree_eq_zeros, hcount] at hle
    have hcounted := hp.counted
    have htotal := hp.total
    have hwhole := hp.whole
    have hstats : (Mm.giveFrame p frame).stats =
        { p.stats with
          freeFrames := p.stats.freeFrames + 1
          reservedFrames := p.stats.reservedFrames - 1 } := by
      rw [giveFrame_of_allocated ha]
    refine ⟨?_, ?_, ?_, ?_, ?_, ?_⟩
    · intro f
      rw [frameIsFree_giveFrame h, frameIsAllocated_giveFrame]
      have hexcl := hp.exclusive f
      by_cases hf : f = frame
      · simp only [hf, decide_true, Bool.not_true, Bool.and_false, Bool.false_eq_true, and_false,
          not_false_eq_true]
      · simpa only [hf, decide_false, Bool.false_and, Bool.or_false, Bool.not_false,
          Bool.and_true] using hexcl
    · intro f hf
      rw [frameIsFree_giveFrame h, frameIsAllocated_giveFrame] at hf
      apply hp.bounded f
      simp only [Bool.or_eq_true, Bool.and_eq_true] at hf
      rcases hf with (hf | hf) | hf
      · exact .inl hf
      · exact .inr hf.2
      · exact .inr hf.1
    · intro f hf
      rw [frameIsAllocated_giveFrame, Bool.and_eq_true] at hf
      exact hp.above f hf.1
    · rw [hstats, hcount]
      exact congrArg (· + 1) hcounted
    · rw [hstats]
      show p.stats.freeFrames + 1 + (p.stats.reservedFrames - 1) = p.stats.totalFrames
      omega
    · rw [hstats]
      exact hwhole

/-! ## Ranges of frames -/

/-- A run without its first frame. -/
theorem mem_run_succ {f : Nat} (hf : f ≠ frame) :
    (frame + 1 ≤ f ∧ f < frame + 1 + pages) ↔ (frame ≤ f ∧ f < frame + (pages + 1)) := by
  omega

theorem frameIsFree_takeFrames (p : Physical) (h : frame + pages ≤ maxFrames) (f : Nat) :
    frameIsFree (takeFrames pages frame p) f =
      if frame ≤ f ∧ f < frame + pages then false else frameIsFree p f := by
  induction pages generalizing frame p with
  | zero => rw [if_neg (by omega)]; rfl
  | succ pages ih =>
    rw [takeFrames, ih _ (by omega), frameIsFree_takeFrame p (by omega)]
    by_cases hf : f = frame
    · rw [if_pos hf, ite_self, if_pos (by omega)]
    · rw [if_neg hf]
      simp only [mem_run_succ hf]

theorem frameIsAllocated_takeFrames (pages frame : Nat) (p : Physical) (f : Nat) :
    frameIsAllocated (takeFrames pages frame p) f =
      if frame ≤ f ∧ f < frame + pages then true else frameIsAllocated p f := by
  induction pages generalizing frame p with
  | zero => rw [if_neg (by omega)]; rfl
  | succ pages ih =>
    rw [takeFrames, ih, frameIsAllocated_takeFrame]
    by_cases hf : f = frame
    · rw [if_pos hf, ite_self, if_pos (by omega)]
    · rw [if_neg hf]
      simp only [mem_run_succ hf]

@[simp] theorem takeFrames_stats (pages frame : Nat) (p : Physical) :
    (takeFrames pages frame p).stats = p.stats := by
  induction pages generalizing frame p with
  | zero => rfl
  | succ pages ih => rw [takeFrames, ih, takeFrame_stats]

theorem countFree_takeFrames (h : frame + pages ≤ maxFrames)
    (hfree : ∀ i < pages, frameIsFree p (frame + i) = true) :
    countFree (takeFrames pages frame p) + pages = countFree p := by
  induction pages generalizing frame p with
  | zero => rw [takeFrames, Nat.add_zero]
  | succ pages ih =>
    have hrest : ∀ i < pages, frameIsFree (takeFrame p frame) (frame + 1 + i) = true := by
      intro i hi
      rw [frameIsFree_takeFrame p (by omega), if_neg (by omega)]
      have hnext := hfree (i + 1) (by omega)
      rwa [show frame + (i + 1) = frame + 1 + i by omega] at hnext
    have hhead := countFree_takeFrame (show frame < maxFrames by omega) (hfree 0 (by omega))
    have htail := ih (show frame + 1 + pages ≤ maxFrames by omega) hrest
    rw [takeFrames]
    omega

theorem frameIsFree_giveFrames (p : Physical) (h : frame + pages ≤ maxFrames) (f : Nat) :
    frameIsFree (giveFrames pages frame p) f =
      (frameIsFree p f || (decide (frame ≤ f ∧ f < frame + pages) && frameIsAllocated p f)) := by
  induction pages generalizing frame p with
  | zero => rw [decide_eq_false (by omega), Bool.false_and, Bool.or_false]; rfl
  | succ pages ih =>
    rw [giveFrames, ih _ (by omega), frameIsFree_giveFrame (by omega), frameIsAllocated_giveFrame]
    by_cases hf : f = frame
    · rw [decide_eq_true hf, Bool.not_true, Bool.and_false, Bool.and_false, Bool.or_false,
        Bool.true_and, decide_eq_true (by omega), Bool.true_and]
    · rw [decide_eq_false hf, Bool.false_and, Bool.or_false, Bool.not_false, Bool.and_true]
      simp only [mem_run_succ hf]

theorem frameIsAllocated_giveFrames (pages frame : Nat) (p : Physical) (f : Nat) :
    frameIsAllocated (giveFrames pages frame p) f =
      (frameIsAllocated p f && !decide (frame ≤ f ∧ f < frame + pages)) := by
  induction pages generalizing frame p with
  | zero => rw [decide_eq_false (by omega), Bool.not_false, Bool.and_true]; rfl
  | succ pages ih =>
    rw [giveFrames, ih, frameIsAllocated_giveFrame]
    by_cases hf : f = frame
    · rw [decide_eq_true hf, Bool.not_true, Bool.and_false, Bool.false_and,
        decide_eq_true (by omega), Bool.not_true, Bool.and_false]
    · rw [decide_eq_false hf, Bool.not_false, Bool.and_true]
      simp only [mem_run_succ hf]

theorem FrameInv.giveFrames (hp : FrameInv p) (h : frame + pages ≤ maxFrames) :
    FrameInv (giveFrames pages frame p) := by
  induction pages generalizing frame p with
  | zero => exact hp
  | succ pages ih => exact ih (hp.giveFrame (by omega)) (by omega)

/-! ## The search for a free run -/

theorem countAvailable_full {remaining available : Nat}
    (h : countAvailable p frame remaining available = available + remaining) :
    ∀ i < remaining, frameIsFree p (frame + available + i) = true := by
  fun_induction countAvailable p frame remaining available with
  | case1 => omega
  | case2 remaining available hfree ih =>
    intro i hi
    cases i with
    | zero => exact hfree
    | succ i =>
      have hnext := ih (h.trans (by omega)) i (by omega)
      rwa [show frame + (available + 1) + i = frame + available + (i + 1) by omega] at hnext
  | case3 => omega

theorem findRun_some {count remaining start : Nat}
    (h : findRun p count remaining start = some frame) :
    start ≤ frame ∧ frame < start + remaining ∧ ∀ i < count, frameIsFree p (frame + i) = true := by
  fun_induction findRun p count remaining start with
  | case1 => cases h
  | case2 remaining start hrun =>
    cases h
    refine ⟨Nat.le_refl _, by omega, ?_⟩
    have hall := countAvailable_full (hrun.trans (Nat.zero_add count).symm)
    simpa only [Nat.add_zero] using hall
  | case3 remaining start hrun ih =>
    obtain ⟨hlow, hhigh, hall⟩ := ih h
    exact ⟨by omega, by omega, hall⟩

/-! ## One call -/

theorem frameAddress_toNat (h : frame < maxFrames) : (frameAddress frame).toNat = frame * 4096 := by
  unfold frameAddress frameSize
  rw [BitVec.toNat_ofNat]
  unfold maxFrames maxPhysicalAddress frameSize at h
  omega

/-- An allocation fails and changes nothing, or hands out a run of frames that were free. -/
theorem physicalAllocFrames_cases (p : Physical) (count : Nat) :
    physicalAllocFrames p count = (0, p) ∨
    ∃ frame, 0 < count ∧ 256 ≤ frame ∧ frame + count ≤ maxFrames ∧
      (∀ i < count, frameIsFree p (frame + i) = true) ∧
      physicalAllocFrames p count =
        (frameAddress frame, { takeFrames count frame p with stats :=
          { p.stats with
            freeFrames := p.stats.freeFrames - count
            reservedFrames := p.stats.reservedFrames + count } }) := by
  fun_cases physicalAllocFrames p count
  · exact .inl rfl
  · exact .inl rfl
  next hcount frame hrun taken =>
    have hmax : maxFrames = 1048576 := rfl
    obtain ⟨hlow, hhigh, hall⟩ := findRun_some hrun
    refine .inr ⟨frame, by omega, hlow, by omega, hall, ?_⟩
    simp only [taken, takeFrames_stats]

theorem not_freeRefused {address : Word} {count : Nat} (h : freeRefused address count = false) :
    0 < count ∧ address.toNat / frameSize + count ≤ maxFrames := by
  simp only [freeRefused, Bool.or_eq_false_iff, beq_eq_false_iff_ne, decide_eq_false_iff_not] at h
  obtain ⟨⟨⟨hcount, _⟩, haddress⟩, hroom⟩ := h
  unfold maxFrames maxPhysicalAddress frameSize at *
  omega

theorem FrameInv.physicalAllocFrames (hp : FrameInv p) (count : Nat) :
    FrameInv (physicalAllocFrames p count).2 := by
  rcases physicalAllocFrames_cases p count with h | ⟨frame, hpos, hlow, hhigh, hall, h⟩
  · rw [h]; exact hp
  rw [h]
  have hcount := countFree_takeFrames hhigh hall
  have hcounted := hp.counted
  have htotal := hp.total
  refine ⟨?_, ?_, ?_, ?_, ?_, hp.whole⟩
  · intro f
    rw [frameIsFree_stats, frameIsAllocated_stats, frameIsFree_takeFrames p hhigh,
      frameIsAllocated_takeFrames]
    split
    · exact fun hboth => Bool.noConfusion hboth.1
    · exact hp.exclusive f
  · intro f hf
    rw [frameIsFree_stats, frameIsAllocated_stats, frameIsFree_takeFrames p hhigh,
      frameIsAllocated_takeFrames] at hf
    split at hf
    · omega
    · exact hp.bounded f hf
  · intro f hf
    rw [frameIsAllocated_stats, frameIsAllocated_takeFrames] at hf
    split at hf
    · omega
    · exact hp.above f hf
  · rw [countFree_stats]
    show p.stats.freeFrames - count = countFree (takeFrames count frame p)
    omega
  · show p.stats.freeFrames - count + (p.stats.reservedFrames + count) = p.stats.totalFrames
    omega

theorem FrameInv.physicalFreeFrames (hp : FrameInv p) (address : Word) (count : Nat) :
    FrameInv (physicalFreeFrames p address count) := by
  fun_cases Mm.physicalFreeFrames p address count
  · exact hp
  next h => exact hp.giveFrames (not_freeRefused (Bool.not_eq_true _ ▸ h)).2

/-- The frame belongs to the range a release names. -/
def InRange (address : Word) (count frame : Nat) : Prop :=
  address.toNat / frameSize ≤ frame ∧ frame < address.toNat / frameSize + count

instance (address : Word) (count frame : Nat) : Decidable (InRange address count frame) :=
  inferInstanceAs (Decidable (_ ∧ _))

/-- A release in full: refused and nothing happens, or exactly the allocated frames of the range
become free. -/
theorem physicalFreeFrames_exact (p : Physical) (address : Word) (count : Nat) :
    (freeRefused address count = true → physicalFreeFrames p address count = p) ∧
    (freeRefused address count = false → ∀ f,
      frameIsFree (physicalFreeFrames p address count) f =
        (frameIsFree p f || (decide (InRange address count f) && frameIsAllocated p f)) ∧
      frameIsAllocated (physicalFreeFrames p address count) f =
        (frameIsAllocated p f && !decide (InRange address count f))) := by
  constructor
  · intro h
    rw [physicalFreeFrames, if_pos h]
  · intro h f
    rw [physicalFreeFrames, if_neg (by rw [h]; exact Bool.false_ne_true)]
    exact ⟨frameIsFree_giveFrames p (not_freeRefused h).2 f, frameIsAllocated_giveFrames _ _ p f⟩

/-! ## What any call keeps -/

/-- From `p` to `q` the invariant survives, and no frame joins or leaves those the allocator
manages. -/
structure Accounted (p q : Physical) : Prop where
  inv : FrameInv p → FrameInv q
  pool : ∀ f, (frameIsFree q f || frameIsAllocated q f) = (frameIsFree p f || frameIsAllocated p f)

theorem Accounted.refl (p : Physical) : Accounted p p := ⟨id, fun _ => rfl⟩

theorem Accounted.trans {q r : Physical} (hpq : Accounted p q) (hqr : Accounted q r) :
    Accounted p r :=
  ⟨fun hp => hqr.inv (hpq.inv hp), fun f => (hqr.pool f).trans (hpq.pool f)⟩

theorem accounted_physicalAllocFrames (p : Physical) (count : Nat) :
    Accounted p (physicalAllocFrames p count).2 := by
  refine ⟨fun hp => hp.physicalAllocFrames count, fun f => ?_⟩
  rcases physicalAllocFrames_cases p count with heq | ⟨frame, hpos, hbase, htop, hall, heq⟩
  · rw [heq]
  simp only [heq, frameIsFree_stats, frameIsAllocated_stats, frameIsFree_takeFrames p htop,
    frameIsAllocated_takeFrames]
  split
  next hin =>
    have hwas := hall (f - frame) (by omega)
    rw [show frame + (f - frame) = f by omega] at hwas
    rw [hwas, Bool.true_or, Bool.false_or]
  next => rfl

theorem accounted_physicalFreeFrames (p : Physical) (address : Word) (count : Nat) :
    Accounted p (physicalFreeFrames p address count) := by
  refine ⟨fun hp => hp.physicalFreeFrames address count, fun f => ?_⟩
  obtain ⟨hrefused, hdone⟩ := physicalFreeFrames_exact p address count
  cases h : freeRefused address count with
  | true => rw [hrefused h]
  | false =>
    obtain ⟨hfree, hallocated⟩ := hdone h f
    rw [hfree, hallocated]
    cases frameIsFree p f <;> cases frameIsAllocated p f <;>
      cases decide (InRange address count f) <;> rfl

end KernelBoot.Mm
