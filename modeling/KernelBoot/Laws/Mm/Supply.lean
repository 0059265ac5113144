import KernelBoot.Laws.Mm.AddressRange

/-!
# When frames suffice

The laws of the address space say what a call does when it succeeds and that it leaves no trace when
it fails. Here is when it must succeed: the allocator finds a frame as long as one is free above the
first 256, so a call that needs at most `k` frames cannot run out of them while `k` are free.
-/

namespace KernelBoot.Mm

open Lib List

variable {p : Physical} {k : Nat} {s : SpaceState}

/-! ## The search finds what is there -/

theorem countAvailable_of_free {frame remaining available : Nat}
    (h : ∀ i < remaining, frameIsFree p (frame + available + i) = true) :
    countAvailable p frame remaining available = available + remaining := by
  induction remaining generalizing available with
  | zero => rfl
  | succ remaining ih =>
    have hfirst := h 0 (Nat.succ_pos remaining)
    rw [Nat.add_zero] at hfirst
    rw [countAvailable, if_pos hfirst, ih]
    · omega
    · intro i hi
      have hnext := h (i + 1) (by omega)
      rwa [show frame + available + (i + 1) = frame + (available + 1) + i by omega] at hnext

theorem findRun_isSome {count remaining start frame : Nat} (hlow : start ≤ frame)
    (hhigh : frame < start + remaining) (hall : ∀ i < count, frameIsFree p (frame + i) = true) :
    findRun p count remaining start ≠ none := by
  fun_induction findRun p count remaining start with
  | case1 => omega
  | case2 => exact Option.some_ne_none _
  | case3 remaining start hrun ih =>
    refine ih ?_ (by omega)
    have hne : frame ≠ start := by
      rintro rfl
      have hcount : countAvailable p frame count 0 = 0 + count := countAvailable_of_free hall
      exact hrun (hcount.trans (Nat.zero_add count))
    omega

/-- At least `k` frames the allocator may hand out are free. -/
def Supply (p : Physical) (k : Nat) : Prop :=
  ∃ frames : List Nat, frames.Nodup ∧ k ≤ frames.length ∧
    ∀ f ∈ frames, 256 ≤ f ∧ f < maxFrames ∧ frameIsFree p f = true

theorem Supply.mono {l : Nat} (h : Supply p k) (hle : l ≤ k) : Supply p l := by
  obtain ⟨frames, hnodup, hlength, hall⟩ := h
  exact ⟨frames, hnodup, Nat.le_trans hle hlength, hall⟩

theorem Supply.same {q : Physical} (h : Supply p k) (hsame : SameAllocator p q) : Supply q k := by
  obtain ⟨frames, hnodup, hlength, hall⟩ := h
  refine ⟨frames, hnodup, hlength, fun f hf => ?_⟩
  rw [frameIsFree, hsame.1]
  exact hall f hf

/-- A frame is there, and one fewer afterwards. -/
theorem Supply.alloc (h : Supply p (k + 1)) :
    (physicalAllocFrame p).1 ≠ 0 ∧ Supply (physicalAllocFrame p).2 k := by
  obtain ⟨frames, hnodup, hlength, hall⟩ := h
  obtain ⟨g, hg⟩ := exists_mem_of_length_pos (l := frames) (by omega)
  obtain ⟨hlow, hhigh, hfree⟩ := hall g hg
  have hmax : maxFrames = 1048576 := rfl
  rcases physicalAllocFrames_cases p 1 with heq | ⟨frame, _, hbase, htop, _, heq⟩
  · have hrun : findRun p 1 (maxFrames - 1 - 256 + 1) 256 ≠ none := by
      refine findRun_isSome hlow (by omega) fun i hi => ?_
      rwa [show g + i = g by omega]
    unfold physicalAllocFrames at heq
    rw [if_neg (by omega)] at heq
    obtain ⟨found, hfound⟩ := Option.ne_none_iff_exists'.mp hrun
    obtain ⟨hfoundLow, hfoundHigh, _⟩ := findRun_some hfound
    rw [hfound] at heq
    have haddress : (frameAddress found).toNat = 0 := congrArg (fun r => r.1.toNat) heq
    rw [frameAddress_toNat (by omega)] at haddress
    omega
  · have hne : frameAddress frame ≠ 0 := by
      intro hzero
      have haddress := congrArg BitVec.toNat hzero
      rw [frameAddress_toNat (by omega)] at haddress
      change frame * 4096 = 0 at haddress
      omega
    rw [physicalAllocFrame, heq]
    refine ⟨hne, frames.erase frame, hnodup.erase frame, ?_, fun f hf => ?_⟩
    · rw [length_erase]
      split <;> omega
    · obtain ⟨hother, hmem⟩ := (Nodup.mem_erase_iff hnodup).mp hf
      obtain ⟨hl, hh, hfr⟩ := hall f hmem
      refine ⟨hl, hh, ?_⟩
      rw [frameIsFree_stats, frameIsFree_takeFrames p htop, if_neg (by omega)]
      exact hfr

/-! ## Calls that cannot run out -/

/-- A table can be had while a frame is free and the list of owned frames has room. -/
theorem allocateTable_of_supply (h : Supply s.physical (k + 1))
    (hroom : s.space.ownedFrames.length < maxOwnedFrames) :
    ∃ b s', addressSpaceAllocateTable s = (b, s') ∧ b ≠ 0 ∧ Supply s'.physical k ∧
      s'.space.ownedFrames.length = s.space.ownedFrames.length + 1 := by
  obtain ⟨hne, hrest⟩ := h.alloc
  unfold addressSpaceAllocateTable
  rw [if_neg (Nat.not_le.mpr hroom)]
  simp only [if_neg hne]
  exact ⟨_, _, rfl, hne, hrest.same ⟨rfl, rfl, rfl⟩, length_append⟩

theorem makeTables_of_supply (flags : Word) (ownedBefore : Nat) (rest : List Index) (table : Word)
    (made : List (Word × Index)) (h : Supply s.physical rest.length)
    (hroom : s.space.ownedFrames.length + rest.length ≤ maxOwnedFrames) :
    ∃ pt s', addressSpaceMakeTables flags ownedBefore rest table made s = .ok (pt, s') := by
  induction rest generalizing table made s with
  | nil => exact ⟨table, s, rfl⟩
  | cons i rest ih =>
    rw [length_cons] at h hroom
    rw [addressSpaceMakeTables]
    split
    next => exact ih _ _ (h.mono (Nat.le_succ _)) (by omega)
    next =>
      obtain ⟨b, s', heq, hb, hrest, hlength⟩ := allocateTable_of_supply h (by omega)
      simp only [heq, if_neg hb]
      refine ih _ _ (hrest.same ⟨rfl, rfl, rfl⟩) ?_
      change s'.space.ownedFrames.length + rest.length ≤ maxOwnedFrames
      omega

/-- Mapping a page fails only if the request is refused, the page is mapped, or frames or the places
for three tables are missing. -/
theorem mapPage_of_supply (h : SpaceInv s) {va : Nat} {pa flags : Word}
    (haccepted : MapAccepted va pa flags) (hnone : s.page va = none) (hsupply : Supply s.physical 3)
    (hroom : s.space.ownedFrames.length + 3 ≤ maxOwnedFrames) :
    (addressSpaceMapPage s va pa flags).1 = true := by
  obtain ⟨hva, haligned, hlow, hflags⟩ := haccepted
  unfold addressSpaceMapPage
  rw [if_neg, if_neg]
  · generalize (if (flags &&& pageUser) ≠ 0 then pagePresent ||| pageWritable ||| pageUser
      else pagePresent ||| pageWritable) = tableFlags
    obtain ⟨pt, s', heq⟩ := makeTables_of_supply tableFlags s.space.ownedFrames.length
      [pml4Index va, pdptIndex va, pdIndex va] s.space.root [] hsupply hroom
    simp only [heq]
  · exact fun hmapped => (mapped_iff s va).mp hmapped hnone
  · rintro (hroot | hrefused | hrefused | hrefused | hrefused)
    · exact h.root_ne_zero hroot
    · rw [hva] at hrefused
      cases hrefused
    · exact hrefused haligned
    · omega
    · rw [hflags] at hrefused
      cases hrefused

/-- A space can be created while two frames are free. -/
theorem create_of_supply (pdpt : Page) (h : Supply s.physical (k + 2)) (hroot : s.space.root = 0) :
    ∃ s', addressSpaceCreate pdpt s = (true, s') ∧ Supply s'.physical k ∧
      s'.space.ownedFrames.length = 2 := by
  unfold addressSpaceCreate
  rw [if_neg (not_not.mpr hroot)]
  generalize hs₀ : ({ s with space :=
    { s.space with ownedFrames := [], anonymousFrames := [] } } : SpaceState) = s₀
  have hsupply₀ : Supply s₀.physical (k + 1 + 1) := by
    rw [← hs₀]
    exact h
  have howned₀ : s₀.space.ownedFrames.length = 0 := by
    rw [← hs₀]
    rfl
  obtain ⟨b₁, s₁, heq₁, hb₁, hsupply₁, howned₁⟩ := allocateTable_of_supply hsupply₀ (by
    rw [howned₀]
    decide)
  obtain ⟨b₂, s₂, heq₂, hb₂, hsupply₂, howned₂⟩ := allocateTable_of_supply hsupply₁ (by
    rw [howned₁, howned₀]
    decide)
  simp only [heq₁, heq₂, hb₁, hb₂, or_self, ↓reduceIte]
  refine ⟨_, rfl, hsupply₂.same ⟨rfl, rfl, rfl⟩, ?_⟩
  change s₂.space.ownedFrames.length = 2
  omega

/-- A page can be backed while four frames are free: its own and three tables. -/
theorem backPage_of_supply (h : SpaceInv s) {va : Nat} {flags : Word} (hva : pageAccepted va = true)
    (hflags : flagsAccepted pageFlags flags = true) (hnone : s.page va = none)
    (hsupply : Supply s.physical 4) (hroom : s.space.ownedFrames.length + 3 ≤ maxOwnedFrames) :
    ∃ b s', addressSpaceBackPage s va flags = (some b, s') := by
  obtain ⟨hne, hrest⟩ := hsupply.alloc
  rcases physicalAllocFrame_spec h.frames with hzero | ⟨b, q, heq, hb, hfresh, hheld, hmemory⟩
  · rw [hzero] at hne
    exact absurd rfl hne
  have hframes : FrameInv q := by
    have hinv := h.frames.physicalAllocFrames 1
    rwa [show physicalAllocFrames s.physical 1 = (b, q) from heq] at hinv
  have hold : ∀ a ∈ s.space.ownedFrames, q.memory a = s.physical.memory a := by
    intro a ha
    have hother : a ≠ b := fun hab => hfresh (hab ▸ h.held a ha)
    rw [hmemory, Function.update_of_ne hother]
  obtain ⟨hinv, _, hsame⟩ := h.of_memory { s with physical := q } rfl rfl hold hframes
    (fun a ha => (hheld a).mpr (.inr (h.held a ha)))
  obtain ⟨haligned, hlow, _⟩ := hframes.held_address ((hheld b).mpr (.inl rfl))
  have haccepted : MapAccepted va b flags := ⟨hva, (aligned_iff b).mpr haligned, hlow, hflags⟩
  have hmap := mapPage_of_supply hinv haccepted
    (((hsame _ (pathOf_inTree hva)).2 _).trans hnone) (by
      rw [heq] at hrest
      exact hrest) hroom
  unfold addressSpaceBackPage
  rw [heq]
  simp only [if_neg hb, hmap, ↓reduceIte]
  exact ⟨b, _, rfl⟩

end KernelBoot.Mm
