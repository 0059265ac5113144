import KernelBoot.Laws.Mm.AddressRange
import KernelBoot.Laws.Mm.FrameRun
import KernelBoot.Mm.AddressSpaceSystem

/-!
# Roots in use

Every processor runs on some page root. Between calls that root should be the kernel's or that of a
space still alive; `address_space_destroy` looks at the active root of its own processor only, so this
is exactly a matter of which spaces are destroyed while another processor runs on them.
-/

namespace KernelBoot.Mm

open Lib

variable {s : Spaces} {id : Nat}

/-- Every processor runs on the kernel's root or on that of a space not destroyed. -/
def Spaces.RootsLive (s : Spaces) : Prop :=
  ∀ cpu, s.activeRoots cpu = s.root ∨
    ∃ id, (s.space id).root ≠ 0 ∧ s.activeRoots cpu = (s.space id).root

/-- A destruction that goes ahead is of a space no processor runs on. -/
def CpuCall.Safe (s : Spaces) : CpuCall → Prop
  | .destroy cpu id =>
    (s.space id).root ≠ 0 → (s.space id).root ≠ s.root → (s.space id).root ≠ s.activeRoots cpu →
      ∀ other, s.activeRoots other ≠ (s.space id).root
  | _ => True

/-- After boot: no space yet, every processor on the kernel's root. -/
structure Spaces.Started (s : Spaces) : Prop where
  frames : FrameInv s.physical
  none : ∀ id, (s.space id).root = 0
  kernel : ∀ cpu, s.activeRoots cpu = s.root

/-! ## Whose frame is whose -/

/-- The frames of the live spaces are allocated, and no two spaces share one. -/
structure SpacesInv (s : Spaces) : Prop where
  frames : FrameInv s.physical
  anonymous : ∀ id, (s.space id).root ≠ 0 → (s.space id).anonymousFrames = []
  nodup : ∀ id, (s.space id).root ≠ 0 → (s.space id).ownedFrames.Nodup
  owned : ∀ id, (s.space id).root ≠ 0 → (s.space id).root ∈ (s.space id).ownedFrames
  held : ∀ id, (s.space id).root ≠ 0 → ∀ a ∈ (s.space id).ownedFrames, Held s.physical a
  apart : ∀ id id', (s.space id).root ≠ 0 → (s.space id').root ≠ 0 → id ≠ id' →
    ∀ a ∈ (s.space id).ownedFrames, a ∉ (s.space id').ownedFrames

theorem Spaces.Started.inv (h : s.Started) : SpacesInv s where
  frames := h.frames
  anonymous id hid := absurd (h.none id) hid
  nodup id hid := absurd (h.none id) hid
  owned id hid := absurd (h.none id) hid
  held id hid := absurd (h.none id) hid
  apart id _ hid := absurd (h.none id) hid

theorem Spaces.Started.live (h : s.Started) : s.RootsLive := fun cpu => .inl (h.kernel cpu)

/-- Two live spaces with one root are one space. -/
theorem SpacesInv.root_injective (h : SpacesInv s) {id' : Nat} (hid : (s.space id).root ≠ 0)
    (heq : (s.space id).root = (s.space id').root) : id = id' := by
  by_contra hne
  have hid' : (s.space id').root ≠ 0 := heq ▸ hid
  exact h.apart id id' hid hid' hne _ (h.owned id hid) (heq ▸ h.owned id' hid')

theorem put_space (s : Spaces) (id : Nat) (t : SpaceState) (id' : Nat) :
    (s.put id t).space id' = if id' = id then t.space else s.space id' :=
  Function.update_apply s.space id t.space id'

/-- One space changes, the frames of the others stay allocated and out of its hands. -/
theorem SpacesInv.put (h : SpacesInv s) {t : SpaceState} (hframes : FrameInv t.physical)
    (hself : t.space.root ≠ 0 → t.space.anonymousFrames = [] ∧ t.space.ownedFrames.Nodup ∧
      t.space.root ∈ t.space.ownedFrames ∧ ∀ a ∈ t.space.ownedFrames, Held t.physical a)
    (hothers : ∀ id', id' ≠ id → (s.space id').root ≠ 0 → ∀ a ∈ (s.space id').ownedFrames,
      Held t.physical a ∧ (t.space.root ≠ 0 → a ∉ t.space.ownedFrames)) :
    SpacesInv (s.put id t) := by
  have hcases : ∀ {P : AddressSpace → Prop}, (t.space.root ≠ 0 → P t.space) →
      (∀ id', id' ≠ id → (s.space id').root ≠ 0 → P (s.space id')) →
      ∀ id', ((s.put id t).space id').root ≠ 0 → P ((s.put id t).space id') := by
    intro P hnew hold id' hid'
    rw [put_space] at hid' ⊢
    by_cases heq : id' = id
    · rw [if_pos heq] at hid' ⊢
      exact hnew hid'
    · rw [if_neg heq] at hid' ⊢
      exact hold id' heq hid'
  refine ⟨hframes, ?_, ?_, ?_, ?_, ?_⟩
  · exact hcases (P := fun space => space.anonymousFrames = []) (fun hr => (hself hr).1)
      fun id' _ hr => h.anonymous id' hr
  · exact hcases (P := fun space => space.ownedFrames.Nodup) (fun hr => (hself hr).2.1)
      fun id' _ hr => h.nodup id' hr
  · exact hcases (P := fun space => space.root ∈ space.ownedFrames) (fun hr => (hself hr).2.2.1)
      fun id' _ hr => h.owned id' hr
  · exact hcases (P := fun space => ∀ a ∈ space.ownedFrames, Held t.physical a)
      (fun hr => (hself hr).2.2.2) fun id' hne hr a ha => (hothers id' hne hr a ha).1
  · intro i j hi hj hne a ha ha'
    rw [put_space] at hi hj ha ha'
    by_cases hii : i = id
    · have hji : j ≠ id := fun heq => hne (hii.trans heq.symm)
      rw [if_pos hii] at hi ha
      rw [if_neg hji] at hj ha'
      exact (hothers j hji hj a ha').2 hi ha
    · rw [if_neg hii] at hi ha
      by_cases hji : j = id
      · rw [if_pos hji] at hj ha'
        exact (hothers i hii hi a ha).2 hj ha'
      · rw [if_neg hji] at hj ha'
        exact h.apart i j hi hj hne a ha ha'

/-! ## One call -/

/-- A destruction is refused, or frees the frames of its space and nothing else. -/
theorem destroy_spec (h : SpacesInv s) (activeRoot : Word) (id : Nat) :
    (addressSpaceDestroy s.root activeRoot (s.at id) = (false, s.at id) ∧
      ((s.space id).root = 0 ∨ (s.space id).root = s.root ∨ (s.space id).root = activeRoot)) ∨
    ∃ t, addressSpaceDestroy s.root activeRoot (s.at id) = (true, t) ∧ (s.space id).root ≠ 0 ∧
      (s.space id).root ≠ s.root ∧ (s.space id).root ≠ activeRoot ∧ t.space.root = 0 ∧
      FrameInv t.physical ∧
      ∀ a, Held t.physical a ↔ Held s.physical a ∧ a ∉ (s.space id).ownedFrames := by
  unfold addressSpaceDestroy
  split
  next hguard => exact .inl ⟨rfl, hguard⟩
  next hguard =>
  simp only [not_or] at hguard
  obtain ⟨hzero, hkernel, hactive⟩ := hguard
  obtain ⟨hframes, hheld⟩ := freeAll_spec h.frames (List.nodup_reverse.mpr (h.nodup id hzero))
    fun a ha => h.held id hzero a (List.mem_reverse.mp ha)
  have hnone : (s.at id).space.anonymousFrames = [] := h.anonymous id hzero
  refine .inr ⟨_, rfl, hzero, hkernel, hactive, rfl, ?_, fun a => ?_⟩
  · rw [hnone]
    exact hframes
  · rw [hnone]
    exact (hheld a).trans (and_congr_right fun _ => not_congr List.mem_reverse)

theorem CpuCall.step_inv (h : SpacesInv s) (call : CpuCall) : SpacesInv (call.step s) := by
  cases call with
  | create id =>
    change SpacesInv (s.put id (addressSpaceCreate s.pdpt (s.at id)).2)
    rcases create_spec s.pdpt (s := s.at id) h.frames with
      ⟨t, heq, hroot, hsame, hacc, hheld, _⟩ | ⟨t, heq, _, hnew⟩
    · rw [heq]
      by_cases hzero : (s.space id).root = 0
      · have hdead : t.space.root = 0 := hroot.trans hzero
        refine h.put (hacc.inv h.frames) (fun hlive => absurd hdead hlive) fun id' _ hr a ha => ?_
        exact ⟨(hheld a).mpr (h.held id' hr a ha), fun hlive => absurd hdead hlive⟩
      · rw [hsame hzero]
        refine h.put h.frames (fun _ => ?_) fun id' hne hr a ha => ?_
        · exact ⟨h.anonymous id hzero, h.nodup id hzero, h.owned id hzero, h.held id hzero⟩
        · exact ⟨h.held id' hr a ha, fun _ => h.apart id' id hr hzero hne a ha⟩
    · rw [heq]
      refine h.put (hnew.accounted.inv h.frames) (fun _ => ?_) fun id' _ hr a ha => ?_
      · exact ⟨hnew.anonymous, hnew.inv.nodup, hnew.inv.root_owned, hnew.inv.held⟩
      · have hout := (hnew.outside a).mpr (h.held id' hr a ha)
        exact ⟨hout.1, fun _ => hout.2⟩
  | activate cpu id =>
    unfold CpuCall.step CpuCall.effect Spaces.activate
    simp only []
    split
    · exact h
    · exact ⟨h.frames, h.anonymous, h.nodup, h.owned, h.held, h.apart⟩
  | activateKernel cpu => exact ⟨h.frames, h.anonymous, h.nodup, h.owned, h.held, h.apart⟩
  | destroy cpu id =>
    change SpacesInv (s.put id (addressSpaceDestroy s.root (s.activeRoots cpu) (s.at id)).2)
    rcases destroy_spec h (s.activeRoots cpu) id with
      ⟨heq, _⟩ | ⟨t, heq, hzero, _, _, hdead, hframes, hheld⟩
    · rw [heq]
      refine h.put h.frames (fun hr => ?_) fun id' hne hr a ha => ?_
      · exact ⟨h.anonymous id hr, h.nodup id hr, h.owned id hr, h.held id hr⟩
      · exact ⟨h.held id' hr a ha, fun hlive => h.apart id' id hr hlive hne a ha⟩
    · rw [heq]
      refine h.put hframes (fun hlive => absurd hdead hlive) fun id' hne hr a ha => ?_
      exact ⟨(hheld a).mpr ⟨h.held id' hr a ha, h.apart id' id hr hzero hne a ha⟩,
        fun hlive => absurd hdead hlive⟩

/-- A call that keeps the live spaces where they are keeps the roots live. -/
theorem Spaces.RootsLive.put (h : s.RootsLive) {t : SpaceState}
    (hkeep : (s.space id).root ≠ 0 → t.space.root = (s.space id).root) :
    (s.put id t).RootsLive := by
  intro cpu
  rcases h cpu with hkernel | ⟨id', hlive, hroot⟩
  · exact .inl hkernel
  refine .inr ⟨id', ?_⟩
  rw [put_space]
  by_cases heq : id' = id
  · rw [if_pos heq]
    rw [heq] at hlive hroot
    rw [hkeep hlive]
    exact ⟨hlive, hroot⟩
  · rw [if_neg heq]
    exact ⟨hlive, hroot⟩

/-- So does a processor that loads a live root. -/
theorem Spaces.RootsLive.load (h : s.RootsLive) (cpu : Fin 64) {root : Word}
    (hroot : root = s.root ∨ ∃ id, (s.space id).root ≠ 0 ∧ root = (s.space id).root)
    (other : Fin 64) : Function.update s.activeRoots cpu root other = s.root ∨
      ∃ id, (s.space id).root ≠ 0 ∧
        Function.update s.activeRoots cpu root other = (s.space id).root := by
  by_cases heq : other = cpu
  · rw [heq, Function.update_self]
    exact hroot
  · rw [Function.update_of_ne heq]
    exact h other

/-- The roots stay live exactly over safe calls. -/
theorem CpuCall.step_live_iff (h : SpacesInv s) (hlive : s.RootsLive) (call : CpuCall) :
    (call.step s).RootsLive ↔ call.Safe s := by
  cases call with
  | create id =>
    refine iff_of_true ?_ trivial
    change (s.put id (addressSpaceCreate s.pdpt (s.at id)).2).RootsLive
    refine hlive.put fun hr => ?_
    rcases create_spec s.pdpt (s := s.at id) h.frames with ⟨t, heq, hroot, _⟩ | ⟨t, _, hzero, _⟩
    · rw [heq]
      exact hroot
    · exact absurd hzero hr
  | activate cpu id =>
    refine iff_of_true ?_ trivial
    unfold CpuCall.step CpuCall.effect Spaces.activate
    simp only []
    split
    next => exact hlive
    next hguard =>
      rw [not_or] at hguard
      exact hlive.load cpu (.inr ⟨id, hguard.2, rfl⟩)
  | activateKernel cpu => exact iff_of_true (hlive.load cpu (.inl rfl)) trivial
  | destroy cpu id =>
    change (s.put id (addressSpaceDestroy s.root (s.activeRoots cpu) (s.at id)).2).RootsLive ↔ _
    rcases destroy_spec h (s.activeRoots cpu) id with
      ⟨heq, hrefused⟩ | ⟨t, heq, hzero, hkernel, hactive, hdead, _, _⟩
    · rw [heq]
      refine iff_of_true (hlive.put fun _ => rfl) fun hzero hkernel hactive => ?_
      exact absurd hrefused (not_or.mpr ⟨hzero, not_or.mpr ⟨hkernel, hactive⟩⟩)
    rw [heq]
    constructor
    · intro hafter _ _ _ other hother
      rcases hafter other with hk | ⟨id', hr, hroot⟩
      · exact hkernel (hother.symm.trans hk)
      · change s.activeRoots other = _ at hroot
        rw [put_space] at hr hroot
        by_cases hid : id' = id
        · rw [if_pos hid] at hr
          exact hr hdead
        · rw [if_neg hid] at hroot
          exact hid (h.root_injective hzero (hother.symm.trans hroot)).symm
    · intro hsafe other
      rcases hlive other with hk | ⟨id', hr, hroot⟩
      · exact .inl hk
      · refine .inr ⟨id', ?_⟩
        have hne : id' ≠ id := fun heq => hsafe hzero hkernel hactive other (heq ▸ hroot)
        rw [put_space, if_neg hne]
        exact ⟨hr, hroot⟩

/-! ## Runs -/

/-- Along any interleaving from boot, every active root is the kernel's or a live space's exactly if
no space is destroyed while some processor runs on it. -/
theorem rootsLive_iff {s : Spaces} (hstart : s.Started) (calls : List CpuCall) :
    Always CpuCall.step Spaces.RootsLive s calls ↔ Each CpuCall.step CpuCall.Safe s calls :=
  always_iff_each (I := SpacesInv) (L := fun _ _ => True) (fun _ call h _ => CpuCall.step_inv h call)
    (fun _ call h _ hlive => CpuCall.step_live_iff h hlive call) hstart.inv hstart.live
    (each_of_forall (fun _ _ => trivial) s calls)

/-- A machine with sixty-four free frames and its kernel root at `0x1000`. -/
def roomyMachine : Spaces where
  physical := roomyPhysical
  pdpt := fun _ => 0
  root := 0x1000
  space := fun _ => ⟨0, [], []⟩
  activeRoots := fun _ => 0x1000
  activeSpaces := fun _ => none

theorem roomyMachine_started : roomyMachine.Started := ⟨roomyPhysical_inv, fun _ => rfl, fun _ => rfl⟩

theorem rootsLive_idle :
    Always CpuCall.step Spaces.RootsLive roomyMachine
      [.create 0, .activate 1 0, .activateKernel 1, .destroy 0 0] := by
  refine (rootsLive_iff roomyMachine_started _).mpr ⟨trivial, trivial, trivial, ?_, trivial⟩
  intro _ _ _
  decide +kernel

/-- Processor 1 runs on a space that processor 0 destroys. -/
theorem rootsLive_fails_elsewhere :
    ¬ Always CpuCall.step Spaces.RootsLive roomyMachine [.create 0, .activate 1 0, .destroy 0 0] := by
  rintro ⟨_, _, _, hlive⟩
  rcases hlive 1 with hkernel | ⟨id, hroot, _⟩
  · revert hkernel
    decide +kernel
  · cases id with
    | zero =>
      revert hroot
      decide +kernel
    | succ id => exact hroot rfl

end KernelBoot.Mm
