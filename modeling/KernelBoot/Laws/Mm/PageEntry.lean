import KernelBoot.Laws.Mm.FrameHeld
import KernelBoot.Mm.AddressSpace

/-!
# Bits of a page-table entry

An entry packs a frame address with flag bits. The frame is aligned and below 4 GiB and the flags lie
in the low byte, so the parts do not overlap: each can be read back, and rewriting the flags leaves
the frame alone.
-/

namespace KernelBoot.Mm

open BitVec

variable {a m x y : Word} (e : Word) (flags : Word)

/-- What a page-table entry says about a page. -/
structure PageEntry where
  frame : Word
  writable : Bool
  executable : Bool
deriving DecidableEq

/-- The bits of an entry that hold the frame's address. -/
def frameMask : Word := ~~~(0xfff#64 ||| pageNx)

def decodeEntry (entry : Word) : PageEntry where
  frame := entry &&& frameMask
  writable := (entry &&& pageWritable) != 0
  executable := (entry &&& pageNx) == 0

/-- What a request with these flags asks for. -/
def requestedEntry (frame flags : Word) : PageEntry where
  frame := frame
  writable := (flags &&& addressSpaceWritable) != 0
  executable := (flags &&& addressSpaceExecutable) != 0

/-! ## Masks -/

theorem or_and_ne_zero_right (h : (y &&& m) ≠ 0) : ((x ||| y) &&& m) ≠ 0 := by
  rw [and_or_distrib_right]
  exact fun hz => h (or_eq_zero_iff.mp hz).2

theorem or_and_ne_zero_left (h : (x &&& m) ≠ 0) : ((x ||| y) &&& m) ≠ 0 := by
  rw [and_or_distrib_right]
  exact fun hz => h (or_eq_zero_iff.mp hz).1

/-- A word without bits outside a mask is cut down by the mask to itself. -/
theorem and_eq_self_of_within {mask : Word} (h : (x &&& ~~~mask) = 0) : (x &&& mask) = x := by
  have hsplit : x = (x &&& mask) ||| (x &&& ~~~mask) := by
    rw [← and_or_distrib_left, or_not_self, and_allOnes]
  rw [h] at hsplit
  exact (hsplit.trans or_zero).symm

theorem and_eq_zero_of_within {mask : Word} (h : (x &&& ~~~mask) = 0) (hm : (mask &&& m) = 0) :
    (x &&& m) = 0 := by
  rw [← and_eq_self_of_within h, BitVec.and_assoc, hm]
  exact and_zero

theorem or_and_of_left (h : (y &&& m) = 0) : ((x ||| y) &&& m) = (x &&& m) := by
  rw [and_or_distrib_right, h]
  exact or_zero

theorem or_and_of_right (h : (x &&& m) = 0) : ((x ||| y) &&& m) = (y &&& m) := by
  rw [and_or_distrib_right, h]
  exact zero_or

/-- The bits of an accepted physical address. -/
theorem address_within (haligned : (a &&& 0xfff#64) = 0) (hlow : a.toNat < 0x100000000) :
    (a &&& ~~~0xfffff000#64) = 0 := by
  have hself : (a &&& 0xffffffff#64) = a := by
    apply eq_of_toNat_eq
    rw [toNat_and]
    exact (Nat.and_two_pow_sub_one_eq_mod a.toNat 32).trans (Nat.mod_eq_of_lt hlow)
  have hhigh : (a &&& 0xffffffff00000000#64) = 0 := by
    rw [← hself, BitVec.and_assoc]
    exact and_zero
  rw [show (~~~0xfffff000#64) = 0xffffffff00000000#64 ||| 0xfff#64 from rfl,
    and_or_distrib_left, hhigh, haligned]
  rfl

theorem FrameInv.held_within {p : Physical} (hp : FrameInv p) (h : Held p a) :
    (a &&& ~~~0xfffff000#64) = 0 := by
  obtain ⟨haligned, hlow, _⟩ := hp.held_address h
  exact address_within ((aligned_iff a).mpr haligned) hlow

/-! ## Links -/

/-- The flags a table entry carries for user pages. -/
def linkFlags : Word := pagePresent ||| pageWritable ||| pageUser

theorem tableOf_or {f : Word} (h : (a &&& ~~~0xfffff000#64) = 0) (hf : (f &&& ~~~0xfff#64) = 0) :
    tableOf (a ||| f) = a := by
  have hself : (a &&& ~~~0xfff#64) = a := by
    rw [← and_eq_self_of_within h, BitVec.and_assoc]
    rfl
  rw [tableOf, or_and_of_left hf, hself]

theorem tableOf_link (h : (a &&& ~~~0xfffff000#64) = 0) :
    tableOf (a ||| linkFlags) = a := tableOf_or h (by decide)

theorem isPresent_iff : isPresent e = true ↔ (e &&& pagePresent) ≠ 0 := by
  rw [isPresent, bne_iff_ne]

theorem isPresent_link (a : Word) : isPresent (a ||| linkFlags) = true :=
  (isPresent_iff _).mpr (or_and_ne_zero_right (by decide))

theorem user_link (a : Word) : ((a ||| linkFlags) &&& pageUser) ≠ 0 :=
  or_and_ne_zero_right (by decide)

theorem isPresent_zero : isPresent 0 = false := by decide

theorem hasAll_or (a b : Word) : hasAll (a ||| b) e = true ↔ hasAll a e = true ∧ hasAll b e = true := by
  simp only [hasAll, beq_iff_eq]
  constructor
  · intro h
    have hsub : ∀ bits : Word, ((a ||| b) &&& bits) = bits → (e &&& bits) = bits := by
      intro bits hbits
      rw [← hbits, ← BitVec.and_assoc, h]
    exact ⟨hsub a (by grind), hsub b (by grind)⟩
  · rintro ⟨ha, hb⟩
    rw [and_or_distrib_left, ha, hb]

/-- One bit of an entry is there or not. -/
theorem hasAll_bit {bit : Word} (i : Nat) (hbit : bit = BitVec.twoPow 64 i) (hne : bit ≠ 0) :
    hasAll bit e = true ↔ (e &&& bit) ≠ 0 := by
  rw [hasAll, beq_iff_eq]
  refine ⟨fun h => h.symm ▸ hne, fun h => ?_⟩
  rw [hbit, and_twoPow] at h ⊢
  split
  next => rfl
  next hnot => exact absurd (by rw [if_neg hnot]; rfl) h

/-- The two tests of the walks agree on entries with the user bit. -/
theorem isPresentUser_iff : isPresentUser e = true ↔ isPresent e = true ∧ (e &&& pageUser) ≠ 0 := by
  rw [isPresentUser, hasAll_or, hasAll_bit e 0 (by decide) (by decide),
    hasAll_bit e 2 (by decide) (by decide), isPresent_iff]

theorem hasAll_writable_iff : hasAll (pagePresent ||| pageUser ||| pageWritable) e = true ↔
      isPresentUser e = true ∧ (e &&& pageWritable) ≠ 0 := by
  rw [hasAll_or, ← isPresentUser, hasAll_bit e 1 (by decide) (by decide)]

/-! ## Page entries -/

section Mapped

variable {a flags : Word}

theorem isPresent_mappedEntry (a flags : Word) : isPresent (mappedEntry a flags) = true := by
  rw [isPresent_iff]
  unfold mappedEntry
  split
  · exact or_and_ne_zero_left (or_and_ne_zero_right (by decide))
  · exact or_and_ne_zero_right (by decide)

theorem user_mappedEntry (a : Word) (h : (flags &&& addressSpaceUser) ≠ 0) :
    (mappedEntry a flags &&& pageUser) ≠ 0 := by
  have huser : ((a ||| flags) &&& pageUser) ≠ 0 := or_and_ne_zero_right h
  unfold mappedEntry
  split
  · exact or_and_ne_zero_left (or_and_ne_zero_left huser)
  · exact or_and_ne_zero_left huser

/-- What a mask sees of a mapped entry, when it misses the frame and the present bit. -/
theorem mappedEntry_and (ha : (a &&& m) = 0) (hp : (pagePresent &&& m) = 0) :
    (mappedEntry a flags &&& m) =
      if (flags &&& addressSpaceExecutable) = 0 then ((flags ||| pageNx) &&& m) else (flags &&& m) := by
  have hplain : ((a ||| flags ||| pagePresent) &&& m) = (flags &&& m) :=
    (or_and_of_left hp).trans (or_and_of_right ha)
  unfold mappedEntry
  split
  next => rw [and_or_distrib_right, hplain, ← and_or_distrib_right]
  next => exact hplain

/-- A mapped page has the frame and the permissions that were asked for. -/
theorem decode_mappedEntry (ha : (a &&& ~~~0xfffff000#64) = 0) (hf : (flags &&& ~~~pageFlags) = 0) :
    decodeEntry (mappedEntry a flags) = requestedEntry a flags := by
  have hframe : (mappedEntry a flags &&& frameMask) = a := by
    have hself : (a &&& frameMask) = a := by
      rw [← and_eq_self_of_within ha, BitVec.and_assoc]
      rfl
    have hplain : ((a ||| flags ||| pagePresent) &&& frameMask) = a := by
      rw [or_and_of_left (by decide), or_and_of_left (and_eq_zero_of_within hf (by decide)), hself]
    unfold mappedEntry
    split
    next => exact (or_and_of_left (by decide)).trans hplain
    next => exact hplain
  have hwritable : (mappedEntry a flags &&& pageWritable) = (flags &&& addressSpaceWritable) := by
    rw [mappedEntry_and (and_eq_zero_of_within ha (by decide)) (by decide),
      or_and_of_left (show (pageNx &&& pageWritable) = 0 by decide), ite_self]
    rfl
  have hexecutable : ((mappedEntry a flags &&& pageNx) == 0) =
      ((flags &&& addressSpaceExecutable) != 0) := by
    have hnone : (flags &&& pageNx) = 0 := and_eq_zero_of_within hf (by decide)
    rw [mappedEntry_and (and_eq_zero_of_within ha (by decide)) (by decide), or_and_of_right hnone,
      hnone]
    by_cases hx : (flags &&& addressSpaceExecutable) = 0
    · rw [if_pos hx, hx]
      decide
    · rw [if_neg hx, bne_iff_ne.mpr hx]
      decide
  rw [decodeEntry, requestedEntry, hframe, hwritable, hexecutable]

end Mapped

/-! ## Rewritten flags -/

/-- The bits `updatedEntry` adds to the ones it keeps. -/
def grantedBits (flags : Word) : Word :=
  pagePresent ||| pageUser |||
    (if (flags &&& addressSpaceWritable) ≠ 0 then pageWritable else 0) |||
    (if (flags &&& addressSpaceExecutable) = 0 then pageNx else 0)

theorem updatedEntry_eq : updatedEntry e flags =
    (e &&& ~~~(pageWritable ||| pageUser ||| pageNx)) ||| grantedBits flags := by
  have hzero : ∀ x : Word, (x ||| 0) = x := fun x => or_zero
  unfold updatedEntry grantedBits
  by_cases hw : (flags &&& addressSpaceWritable) ≠ 0 <;>
    by_cases hx : (flags &&& addressSpaceExecutable) = 0 <;>
      simp only [hw, hx, ↓reduceIte, hzero, BitVec.or_assoc, ne_eq, not_false_eq_true]

theorem isPresent_updatedEntry : isPresent (updatedEntry e flags) = true := by
  rw [isPresent_iff, updatedEntry_eq]
  refine or_and_ne_zero_right ?_
  unfold grantedBits
  split <;> split <;> decide

theorem user_updatedEntry : (updatedEntry e flags &&& pageUser) ≠ 0 := by
  rw [updatedEntry_eq]
  refine or_and_ne_zero_right ?_
  unfold grantedBits
  split <;> split <;> decide

/-- Rewriting the flags keeps the frame and sets exactly the permissions asked for. -/
theorem decode_updatedEntry :
    decodeEntry (updatedEntry e flags) = requestedEntry (decodeEntry e).frame flags := by
  have hcleared : ∀ m : Word, (~~~(pageWritable ||| pageUser ||| pageNx) &&& m) = 0 →
      (updatedEntry e flags &&& m) = (grantedBits flags &&& m) := by
    intro m hm
    rw [updatedEntry_eq, or_and_of_right]
    rw [BitVec.and_assoc, hm]
    exact and_zero
  have hframe : (updatedEntry e flags &&& frameMask) = (e &&& frameMask) := by
    have hgranted : (grantedBits flags &&& frameMask) = 0 := by
      unfold grantedBits
      split <;> split <;> decide
    rw [updatedEntry_eq, or_and_of_left hgranted, BitVec.and_assoc]
    rfl
  have hwritable : ((updatedEntry e flags &&& pageWritable) != 0) =
      ((flags &&& addressSpaceWritable) != 0) := by
    rw [hcleared pageWritable (by decide)]
    unfold grantedBits
    by_cases hw : (flags &&& addressSpaceWritable) = 0
    · rw [if_neg (not_not_intro hw), hw]
      split <;> decide
    · rw [if_pos hw, bne_iff_ne.mpr hw]
      split <;> decide
  have hexecutable : ((updatedEntry e flags &&& pageNx) == 0) =
      ((flags &&& addressSpaceExecutable) != 0) := by
    rw [hcleared pageNx (by decide)]
    unfold grantedBits
    by_cases hx : (flags &&& addressSpaceExecutable) = 0
    · rw [if_pos hx, hx]
      split <;> decide
    · rw [if_neg hx, bne_iff_ne.mpr hx]
      split <;> decide
  rw [decodeEntry, requestedEntry, hframe, hwritable, hexecutable]
  rfl

end KernelBoot.Mm
