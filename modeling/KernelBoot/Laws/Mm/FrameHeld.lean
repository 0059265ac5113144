import KernelBoot.Laws.Mm.Frame

/-!
# Frames by address

Callers of the allocator know a frame by its address and hand out one frame at a time. `Held` is the
set of allocated addresses; an allocation adds one address to it and a release takes one away.
-/

namespace KernelBoot.Mm

open Lib List

variable {p : Physical}

/-- The address of an allocated frame. -/
def Held (p : Physical) (address : Word) : Prop :=
  ∃ f, frameIsAllocated p f = true ∧ address = frameAddress f

/-- The two bitmaps and the counters are the same; the frames' contents may differ. -/
def SameAllocator (p q : Physical) : Prop :=
  q.frameBitmap = p.frameBitmap ∧ q.allocatedBitmap = p.allocatedBitmap ∧ q.stats = p.stats

theorem frameAddress_injective {f g : Nat} (hf : f < maxFrames) (hg : g < maxFrames)
    (h : frameAddress f = frameAddress g) : f = g := by
  have hnat := congrArg BitVec.toNat h
  rw [frameAddress_toNat hf, frameAddress_toNat hg] at hnat
  omega

theorem FrameInv.held_iff (hp : FrameInv p) {f : Nat} (hf : f < maxFrames) :
    Held p (frameAddress f) ↔ frameIsAllocated p f = true := by
  refine ⟨?_, fun h => ⟨f, h, rfl⟩⟩
  rintro ⟨g, hg, heq⟩
  rwa [frameAddress_injective hf (hp.bounded g (.inr hg)) heq]

/-- An allocated address is aligned, below 4 GiB and not null. -/
theorem FrameInv.held_address (hp : FrameInv p) {a : Word} (h : Held p a) :
    a.toNat % 4096 = 0 ∧ a.toNat < 2 ^ 32 ∧ a ≠ 0 := by
  obtain ⟨f, hf, rfl⟩ := h
  have hlt := hp.bounded f (.inr hf)
  have habove := hp.above f hf
  have hnat := frameAddress_toNat hlt
  unfold maxFrames maxPhysicalAddress frameSize at hlt
  refine ⟨by omega, by omega, ?_⟩
  intro hzero
  rw [hzero] at hnat
  have : (0 : Word).toNat = 0 := rfl
  omega

theorem aligned_iff (a : Word) : (a &&& 0xfff#64) = 0 ↔ a.toNat % 4096 = 0 := by
  have hand : (a &&& 0xfff#64).toNat = a.toNat % 4096 := by
    rw [BitVec.toNat_and]
    exact Nat.and_two_pow_sub_one_eq_mod a.toNat 12
  rw [← BitVec.toNat_inj, hand]
  rfl

/-! ## Allocating -/

/-- One frame: nothing happens, or an address that was not held now is, with its page zeroed. -/
theorem physicalAllocFrame_spec (hp : FrameInv p) : physicalAllocFrame p = (0, p) ∨
    ∃ a q, physicalAllocFrame p = (a, q) ∧ a ≠ 0 ∧ ¬ Held p a ∧
      (∀ b, Held q b ↔ b = a ∨ Held p b) ∧ q.memory = Function.update p.memory a fun _ => 0 := by
  rcases physicalAllocFrames_cases p 1 with h | ⟨frame, _, hlow, hhigh, hall, h⟩
  · exact .inl h
  have hlt : frame < maxFrames := by omega
  have hfree := hall 0 (by omega)
  have hheld : ∀ b, Held (physicalAllocFrames p 1).2 b ↔ b = frameAddress frame ∨ Held p b := by
    intro b
    have hone : ∀ f, frameIsAllocated (physicalAllocFrames p 1).2 f = true ↔
        f = frame ∨ frameIsAllocated p f = true := by
      intro f
      rw [h, frameIsAllocated_stats, frameIsAllocated_takeFrames]
      split
      next hin => exact ⟨fun _ => .inl (by omega), fun _ => rfl⟩
      next hin => exact ⟨.inr, fun hf => hf.resolve_left (by omega)⟩
    constructor
    · rintro ⟨f, hf, rfl⟩
      rcases (hone f).mp hf with rfl | hf
      · exact .inl rfl
      · exact .inr ⟨f, hf, rfl⟩
    · rintro (rfl | ⟨f, hf, rfl⟩)
      · exact ⟨frame, (hone frame).mpr (.inl rfl), rfl⟩
      · exact ⟨f, (hone f).mpr (.inr hf), rfl⟩
  have hne : frameAddress frame ≠ 0 :=
    (hp.physicalAllocFrames 1).held_address ((hheld _).mpr (.inl rfl)) |>.2.2
  refine .inr ⟨_, _, h, hne, ?_, ?_, ?_⟩
  · rw [hp.held_iff hlt]
    exact fun ha => hp.exclusive frame ⟨hfree, ha⟩
  · intro b
    rw [← hheld b, h]
  · exact takeFrame_memory p frame

/-! ## Releasing -/

theorem giveFrames_memory (pages frame : Nat) (p : Physical) :
    (giveFrames pages frame p).memory = p.memory := by
  induction pages generalizing frame p with
  | zero => rfl
  | succ pages ih => rw [giveFrames, ih, giveFrame_memory]

@[simp] theorem physicalFreeFrame_memory (p : Physical) (a : Word) :
    (physicalFreeFrame p a).memory = p.memory := by
  unfold physicalFreeFrame physicalFreeFrames
  split
  · rfl
  · exact giveFrames_memory _ _ p

/-- A release does not look at the frames' contents. -/
theorem physicalFreeFrame_withMemory (p : Physical) (a : Word) (memory : Word → Page) :
    physicalFreeFrame { p with memory := memory } a =
      { physicalFreeFrame p a with memory := memory } := by
  have hgive : ∀ frame, giveFrame { p with memory := memory } frame =
      { giveFrame p frame with memory := memory } := by
    intro frame
    unfold giveFrame markFrame markAllocated frameIsAllocated
    by_cases h : p.allocatedBitmap.test frame = true
    · simp only [h, ↓reduceIte, Bool.false_eq_true]
      split <;> rfl
    · simp only [h, Bool.false_eq_true, ↓reduceIte]
  unfold physicalFreeFrame physicalFreeFrames
  split
  · rfl
  · exact hgive _

theorem physicalFreeFrame_spec (hp : FrameInv p) {a : Word} (h : Held p a) (b : Word) :
    Held (physicalFreeFrame p a) b ↔ Held p b ∧ b ≠ a := by
  obtain ⟨haligned, hlow, _⟩ := hp.held_address h
  obtain ⟨f, hf, rfl⟩ := h
  have hlt := hp.bounded f (.inr hf)
  have hnat := frameAddress_toNat hlt
  have hrefused : freeRefused (frameAddress f) 1 = false := by
    simp only [freeRefused, Bool.or_eq_false_iff, beq_eq_false_iff_ne, bne_eq_false_iff_eq,
      decide_eq_false_iff_not]
    refine ⟨⟨⟨Nat.one_ne_zero, (aligned_iff _).mpr haligned⟩, ?_⟩, ?_⟩
    · unfold maxPhysicalAddress
      omega
    · unfold maxPhysicalAddress frameSize
      omega
  have hexact := (physicalFreeFrames_exact p (frameAddress f) 1).2 hrefused
  have hrange : ∀ g, InRange (frameAddress f) 1 g ↔ g = f := by
    intro g
    unfold InRange frameSize
    omega
  have hone : ∀ g, frameIsAllocated (physicalFreeFrame p (frameAddress f)) g = true ↔
      frameIsAllocated p g = true ∧ g ≠ f := by
    intro g
    rw [physicalFreeFrame, (hexact g).2, Bool.and_eq_true, Bool.not_eq_true', decide_eq_false_iff_not,
      hrange g]
  constructor
  · rintro ⟨g, hg, rfl⟩
    obtain ⟨hg, hne⟩ := (hone g).mp hg
    exact ⟨⟨g, hg, rfl⟩, fun heq => hne (frameAddress_injective (hp.bounded g (.inr hg)) hlt heq)⟩
  · rintro ⟨⟨g, hg, rfl⟩, hne⟩
    exact ⟨g, (hone g).mpr ⟨hg, fun heq => hne (heq ▸ rfl)⟩, rfl⟩

/-- Releasing a list of distinct frames. -/
theorem freeAll_spec (hp : FrameInv p) {frames : List Word} (hnodup : frames.Nodup)
    (hheld : ∀ a ∈ frames, Held p a) : FrameInv (frames.foldl physicalFreeFrame p) ∧
      ∀ b, Held (frames.foldl physicalFreeFrame p) b ↔ Held p b ∧ b ∉ frames := by
  induction frames generalizing p with
  | nil => exact ⟨hp, fun b => ⟨fun hb => ⟨hb, not_mem_nil⟩, And.left⟩⟩
  | cons a frames ih =>
    obtain ⟨hnot, hnodup⟩ := nodup_cons.mp hnodup
    have hone := physicalFreeFrame_spec hp (hheld a mem_cons_self)
    obtain ⟨hinv, hrest⟩ := ih (p := physicalFreeFrame p a) (hp.physicalFreeFrames a 1) hnodup fun b hb =>
      (hone b).mpr ⟨hheld b (mem_cons_of_mem a hb), fun heq => hnot (heq ▸ hb)⟩
    refine ⟨hinv, fun b => ?_⟩
    rw [foldl_cons, hrest b, hone b, mem_cons, not_or, and_assoc]

/-! ## The same allocator -/

theorem Accounted.withMemory (p : Physical) (memory : Word → Page) :
    Accounted p { p with memory := memory } :=
  ⟨fun hp => ⟨hp.exclusive, hp.bounded, hp.above, hp.counted, hp.total, hp.whole⟩, fun _ => rfl⟩

/-- With the same frames managed and the same addresses held, nothing else of the allocator can
differ. -/
theorem Accounted.same {q : Physical} (h : Accounted p q) (hp : FrameInv p)
    (hheld : ∀ a, Held q a ↔ Held p a) : SameAllocator p q := by
  have hq := h.inv hp
  have hallocated : ∀ f, frameIsAllocated q f = frameIsAllocated p f := by
    intro f
    by_cases hlt : f < maxFrames
    · have hiff := hheld (frameAddress f)
      rw [hp.held_iff hlt, hq.held_iff hlt] at hiff
      exact Bool.eq_iff_iff.mpr hiff
    · cases hqf : frameIsAllocated q f with
      | true => exact absurd (hq.bounded f (.inr hqf)) hlt
      | false =>
        cases hpf : frameIsAllocated p f with
        | true => exact absurd (hp.bounded f (.inr hpf)) hlt
        | false => rfl
  have hfree : ∀ f, frameIsFree q f = frameIsFree p f := by
    intro f
    have hpool := h.pool f
    have hpf := hp.exclusive f
    have hqf := hq.exclusive f
    rw [hallocated f] at hpool hqf
    cases hqv : frameIsFree q f <;> cases hpv : frameIsFree p f <;>
      cases hav : frameIsAllocated p f <;> simp_all
  have hbitmap : q.frameBitmap = p.frameBitmap := by
    apply Bitmap.ext_test
    intro f
    exact Bool.not_inj (hfree f)
  refine ⟨hbitmap, Bitmap.ext_test hallocated, ?_⟩
  have hcount : countFree q = countFree p := by
    rw [countFree_eq_zeros, countFree_eq_zeros, hbitmap]
  have hqc := hq.counted
  have hpc := hp.counted
  have hqt := hq.total
  have hpt := hp.total
  have hqw := hq.whole
  have hpw := hp.whole
  have hfreeFrames : q.stats.freeFrames = p.stats.freeFrames := by rw [hqc, hpc, hcount]
  have hreserved : q.stats.reservedFrames = p.stats.reservedFrames := by omega
  have htotal : q.stats.totalFrames = p.stats.totalFrames := by rw [hqw, hpw]
  cases hqs : q.stats with
  | mk total free reserved =>
    cases hps : p.stats with
    | mk total' free' reserved' =>
      rw [hqs, hps] at hfreeFrames hreserved htotal
      simp only at hfreeFrames hreserved htotal
      rw [hfreeFrames, hreserved, htotal]

end KernelBoot.Mm
