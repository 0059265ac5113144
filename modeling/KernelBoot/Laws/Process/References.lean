import KernelBoot.Lib.Count
import KernelBoot.Process.References
import KernelBoot.Laws.Process.ProcessTable

/-!
# Every reference to a process is counted

`Counted s held` says that the count of every object is the number of slots that register it, plus
the number of objects whose parent it is, plus `held`: the references of the callers and, inside a
call, those the call has taken and not yet given back. Each operation of the source moves one
reference between these, and every call is a sequence of such moves, so no call needs an argument of
its own about counts.

An object is freed when its count reaches zero. Then nothing registers it, nothing has it as parent
and no one holds it; that its own parent field is empty, so that no count elsewhere is left too
high, is the last field of `Counted`.
-/

namespace KernelBoot.Process

open Lib List Processes Option

variable {id x : Nat} {f : ProcessObject → ProcessObject}
variable {found : Option Nat} {p : ProcessObject} {s : ProcessSystem} (held : Nat → Nat)

namespace Processes

def references (s : Processes) (a : Nat) : Nat :=
  ((s.objects a).map ProcessObject.references).getD 0

/-- How many slots register the object. -/
def registrations (s : Processes) (a : Nat) : Nat :=
  (List.range processMax).countP fun i => decide (s.table i = some a)

/-- How many objects have it as parent. -/
def children (s : Processes) (a : Nat) : Nat :=
  s.live.countP fun c => decide (s.parent c = some a)

end Processes

/-- One more reference, on the object at this address if there is one. -/
def plus (held : Nat → Nat) (a : Option Nat) : Nat → Nat := fun x =>
  held x + if a = some x then 1 else 0

theorem plus_none : plus held none = held := by
  funext x
  exact Nat.add_zero _

theorem plus_some (a : Nat) : plus held (some a) = fun x => held x + if x = a then 1 else 0 := by
  funext x
  simp [plus, eq_comm]

theorem plus_self (a : Nat) : plus held (some a) a = held a + 1 := by
  rw [plus, if_pos rfl]

theorem plus_ne {a : Nat} (hx : x ≠ a) : plus held (some a) x = held x := by
  rw [plus, if_neg fun heq => hx (some.inj heq).symm, Nat.add_zero]

theorem plus_comm (a b : Option Nat) : plus (plus held a) b = plus (plus held b) a := by
  funext x
  exact Nat.add_right_comm _ _ _

structure Counted (s : Processes) (held : Nat → Nat) : Prop where
  live : ∀ a, a ∈ s.live ↔ (s.objects a).isSome = true
  liveOnce : s.live.Nodup
  counted : ∀ a, s.references a = s.registrations a + s.children a + held a
  needed : ∀ a p, s.objects a = some p → p.references ≠ 0
  bound : ∀ a p, s.objects a = some p → p.references ≤ referencesMax
  once : ∀ a, s.registrations a ≤ 1
  /-- What `process_destroy` leaves of an object that is still held. -/
  ended : ∀ a p, s.objects a = some p → s.registrations a = 0 →
    p.state = .exited ∧ p.parent = none ∧ p.hasSpace = false

section Objects

variable {s : Processes} {held : Nat → Nat} {a : Nat} {p : ProcessObject}

theorem Processes.references_eq (hp : s.objects a = some p) : s.references a = p.references := by
  rw [Processes.references, hp, map_some, getD_some]

theorem Processes.references_none (ha : s.objects a = none) : s.references a = 0 := by
  rw [Processes.references, ha, map_none, getD_none]

theorem Processes.parent_eq (hp : s.objects a = some p) : s.parent a = p.parent := by
  rw [Processes.parent, hp, bind_some]

theorem Processes.update_self (hp : s.objects a = some p) :
    (s.update a f).objects a = some (f p) := by
  rw [Processes.update]
  dsimp only
  rw [if_pos rfl, hp, map_some]

theorem Processes.update_ne (hx : x ≠ a) : (s.update a f).objects x = s.objects x :=
  if_neg hx

/-- A freed object is referred to by nothing. -/
theorem Counted.unreferenced (h : Counted s held) (ha : s.objects a = none) :
    s.registrations a = 0 ∧ s.children a = 0 ∧ held a = 0 := by
  have hzero := h.counted a
  rw [Processes.references_none ha] at hzero
  omega

theorem Counted.live_of_held (h : Counted s held) (ha : held a ≠ 0) :
    ∃ p, s.objects a = some p := by
  cases hp : s.objects a with
  | none => exact absurd (h.unreferenced hp).2.2 ha
  | some p => exact ⟨p, rfl⟩

theorem Processes.object_of_parent {parent : Nat} (hparent : s.parent a = some parent) :
    ∃ p, s.objects a = some p ∧ p.parent = some parent := Option.bind_eq_some_iff.mp hparent

theorem Counted.live_of_parent (h : Counted s held) {c : Nat} (hc : s.parent c = some a) :
    ∃ p, s.objects a = some p := by
  cases hp : s.objects a with
  | some p => exact ⟨p, rfl⟩
  | none =>
    obtain ⟨child, hchild, -⟩ := Processes.object_of_parent hc
    have hmem : c ∈ s.live := (h.live c).mpr (by rw [hchild, isSome_some])
    have hcount : 0 < s.children a := countP_pos_iff.mpr ⟨c, hmem, decide_eq_true hc⟩
    have hnone := (h.unreferenced hp).2.1
    omega

/-- An object with a parent, or one that is not finished, is registered. -/
theorem Counted.registered (h : Counted s held) (hp : s.objects a = some p)
    (hopen : p.state ≠ .exited ∨ p.parent ≠ none ∨ p.hasSpace = true) : s.registrations a = 1 := by
  have honce := h.once a
  have hsome : s.registrations a ≠ 0 := by
    intro hzero
    obtain ⟨hstate, hparent, hspace⟩ := h.ended a p hp hzero
    rcases hopen with hno | hno | hno
    · exact hno hstate
    · exact hno hparent
    · rw [hspace] at hno
      cases hno
  omega

/-! ## Changing one object -/

/-- What `Counted` says of one object. -/
structure CountedAt (s : Processes) (held : Nat → Nat) (a : Nat) : Prop where
  live : a ∈ s.live ↔ (s.objects a).isSome = true
  counted : s.references a = s.registrations a + s.children a + held a
  once : s.registrations a ≤ 1
  object : ∀ p, s.objects a = some p → p.references ≠ 0 ∧ p.references ≤ referencesMax ∧
    (s.registrations a = 0 → p.state = .exited ∧ p.parent = none ∧ p.hasSpace = false)

theorem counted_iff : Counted s held ↔ s.live.Nodup ∧ ∀ a, CountedAt s held a := by
  constructor
  · intro h
    exact ⟨h.liveOnce, fun a => ⟨h.live a, h.counted a, h.once a,
      fun p hp => ⟨h.needed a p hp, h.bound a p hp, h.ended a p hp⟩⟩⟩
  · rintro ⟨honce, h⟩
    exact ⟨fun a => (h a).live, honce, fun a => (h a).counted, fun a p hp => ((h a).object p hp).1,
      fun a p hp => ((h a).object p hp).2.1, fun a => (h a).once,
      fun a p hp => ((h a).object p hp).2.2⟩

/-- An object that the change left alone. -/
theorem Counted.kept (h : Counted s held) {s' : Processes} {held' : Nat → Nat}
    (hlive : x ∈ s'.live ↔ x ∈ s.live) (hobject : s'.objects x = s.objects x)
    (hregistered : s'.registrations x = s.registrations x)
    (hcount : s'.children x + held' x = s.children x + held x) : CountedAt s' held' x := by
  obtain ⟨-, hall⟩ := counted_iff.mp h
  obtain ⟨hlive', hcounted, honce, hfine⟩ := hall x
  rw [← hregistered] at hcounted honce hfine
  refine ⟨by rw [hlive, hobject, hlive'], ?_, honce, hobject ▸ hfine⟩
  rw [Processes.references, hobject, ← Processes.references]
  omega

theorem Processes.children_update (hlive : a ∈ s.live) (honce : s.live.Nodup)
    (hp : s.objects a = some p) (x : Nat) :
    ((s.update a f).children x + if p.parent = some x then 1 else 0) =
      s.children x + if (f p).parent = some x then 1 else 0 := by
  have hchange := countP_change (p := fun c => decide ((s.update a f).parent c = some x))
    (q := fun c => decide (s.parent c = some x)) honce hlive fun c _ hc => by
      rw [Processes.parent, Processes.update_ne hc, ← Processes.parent]
  simp only [Processes.parent_eq hp, Processes.parent_eq (Processes.update_self hp),
    decide_eq_true_eq] at hchange
  exact hchange

/-- The object at `a` changes; what its fields count for and what is held change together. -/
theorem Counted.edit (h : Counted s held) (hp : s.objects a = some p) {held' : Nat → Nat}
    (hself : (f p).references + held a + (if p.parent = some a then 1 else 0) =
      p.references + held' a + if (f p).parent = some a then 1 else 0)
    (hother : ∀ x, x ≠ a → (held x + if p.parent = some x then 1 else 0) =
      held' x + if (f p).parent = some x then 1 else 0) (hneeded : (f p).references ≠ 0)
    (hbound : (f p).references ≤ referencesMax) (hended : s.registrations a = 0 →
      (f p).state = .exited ∧ (f p).parent = none ∧ (f p).hasSpace = false) :
    Counted (s.update a f) held' := by
  have hlive : a ∈ s.live := (h.live a).mpr (by rw [hp, isSome_some])
  refine counted_iff.mpr ⟨h.liveOnce, fun x => ?_⟩
  have hchildren := Processes.children_update (f := f) hlive h.liveOnce hp x
  by_cases hx : x = a
  · subst hx
    have hcounted := h.counted x
    have hregistered : (s.update x f).registrations x = s.registrations x := rfl
    rw [Processes.references_eq hp] at hcounted
    refine ⟨iff_of_true hlive (by rw [Processes.update_self hp, isSome_some]), ?_, h.once x, ?_⟩
    · rw [Processes.references_eq (Processes.update_self hp)]
      omega
    · rw [Processes.update_self hp]
      rintro _ ⟨⟩
      exact ⟨hneeded, hbound, hended⟩
  · have hmove := hother x hx
    exact h.kept Iff.rfl (Processes.update_ne hx) rfl (by omega)

/-- Fields that nothing is counted by. -/
theorem Counted.setFields (h : Counted s held) (hp : s.objects a = some p)
    (hrefs : (f p).references = p.references) (hparent : (f p).parent = p.parent)
    (hended : s.registrations a = 0 → (f p).state = .exited ∧ (f p).hasSpace = false) :
    Counted (s.update a f) held := by
  refine h.edit hp ?_ (fun x _ => ?_) ?_ ?_ fun hzero => ?_
  · rw [hrefs, hparent]
  · rw [hparent]
  · rw [hrefs]
    exact h.needed a p hp
  · rw [hrefs]
    exact h.bound a p hp
  · obtain ⟨hstate, hspace⟩ := hended hzero
    exact ⟨hstate, hparent.trans (h.ended a p hp hzero).2.1, hspace⟩

/-- A reference on the new parent becomes the child's, and the child's one on the old parent is
released to the holder. -/
theorem Counted.setParent {parent : Option Nat} (h : Counted s (plus held parent))
    (hp : s.objects a = some p) (hrefs : (f p).references = p.references)
    (hparent : (f p).parent = parent) (hended : s.registrations a = 0 →
      (f p).state = .exited ∧ parent = none ∧ (f p).hasSpace = false) :
    Counted (s.update a f) (plus held p.parent) := by
  refine h.edit hp ?_ (fun x _ => ?_) ?_ ?_ fun hzero => ?_
  · rw [hrefs, hparent, plus, plus]
    omega
  · rw [hparent, plus, plus]
    omega
  · rw [hrefs]
    exact h.needed a p hp
  · rw [hrefs]
    exact h.bound a p hp
  · rw [hparent]
    exact hended hzero

/-! ## Retain and release -/

theorem Processes.retain_cases (s : Processes) (a : Nat) :
    s.retain a = (false, s) ∨
      ∃ p, s.objects a = some p ∧ p.references ≠ referencesMax ∧
        s.retain a = (true, s.update a fun p => { p with references := p.references + 1 }) := by
  fun_cases s.retain a
  · exact .inl rfl
  · exact .inl rfl
  next p hp hmax => exact .inr ⟨p, hp, hmax, rfl⟩

theorem Counted.retain (h : Counted s held) {s' : Processes} (hretain : s.retain a = (true, s')) :
    Counted s' (plus held (some a)) := by
  rcases s.retain_cases a with hno | ⟨p, hp, hmax, hyes⟩
  · rw [hno] at hretain
    cases hretain
  rw [hyes] at hretain
  cases hretain
  have hbound := h.bound a p hp
  refine h.edit hp ?_ (fun x hx => ?_) (Nat.succ_ne_zero _) ?_ (h.ended a p hp)
  · rw [plus_self]
    dsimp only
    omega
  · rw [plus_ne held hx]
  · dsimp only
    omega

/-- Freeing an object nothing refers to any more. -/
theorem Counted.free (h : Counted s (plus held (some a))) (hp : s.objects a = some p)
    (hlast : p.references = 1) : Counted (s.free a) held := by
  have hcounted := h.counted a
  rw [Processes.references_eq hp, hlast, plus_self] at hcounted
  have hparent : p.parent = none := (h.ended a p hp (by omega)).2.1
  have hkept : ∀ {x}, x ≠ a → (s.free a).objects x = s.objects x := fun hx => if_neg hx
  have hgone : (s.free a).objects a = none := if_pos rfl
  have hchildren : ∀ x, (s.free a).children x = s.children x := by
    intro x
    have hsame : (s.free a).children x =
        (s.live.erase a).countP fun c => decide (s.parent c = some x) := by
      refine countP_congr fun c hc => ?_
      have hne : c ≠ a := ((Nodup.mem_erase_iff h.liveOnce).mp hc).1
      rw [Processes.parent, hkept hne, ← Processes.parent]
    rw [hsame, countP_erase, if_neg, Nat.sub_zero, ← Processes.children]
    rintro ⟨_, hyes⟩
    rw [Processes.parent_eq hp, hparent, decide_eq_true_eq] at hyes
    cases hyes
  refine counted_iff.mpr ⟨h.liveOnce.erase a, fun x => ?_⟩
  have hmem : x ∈ (s.free a).live ↔ x ≠ a ∧ x ∈ s.live := Nodup.mem_erase_iff h.liveOnce
  by_cases hx : x = a
  · subst hx
    have hregistered : (s.free x).registrations x = s.registrations x := rfl
    refine ⟨by simp [hmem, hgone], ?_, h.once x, by simp [hgone]⟩
    rw [Processes.references_none hgone, hregistered, hchildren]
    omega
  · refine h.kept (by simp [hmem, hx]) (hkept hx) rfl ?_
    rw [hchildren, plus_ne held hx]

theorem Counted.release (h : Counted s (plus held (some a))) : Counted (s.release a) held := by
  have hheld : plus held (some a) a ≠ 0 := by
    rw [plus_self]
    exact Nat.succ_ne_zero _
  obtain ⟨p, hp⟩ := h.live_of_held hheld
  have hneeded := h.needed a p hp
  have hbound := h.bound a p hp
  rw [Processes.release, hp]
  dsimp only
  rw [if_neg hneeded]
  split
  next hlast => exact h.free hp (by omega)
  next hmore =>
    refine h.edit hp ?_ (fun x hx => ?_) hmore ?_ (h.ended a p hp)
    · rw [plus_self]
      dsimp only
      omega
    · rw [plus_ne held hx]
    · dsimp only
      omega

theorem Counted.releaseOption {a : Option Nat} (h : Counted s (plus held a)) :
    Counted (s.releaseOption a) held := by
  cases a with
  | none =>
    rw [plus_none] at h
    exact h
  | some a => exact h.release

/-! ## The table -/

theorem Processes.registrations_ne_zero {i : Nat} (hi : i < processMax)
    (hslot : s.table i = some a) : s.registrations a ≠ 0 := by
  have hcount : 0 < s.registrations a :=
    countP_pos_iff.mpr ⟨i, mem_range.mpr hi, decide_eq_true hslot⟩
  omega

/-- A slot that shows no entry is empty: registered objects exist. -/
theorem Counted.table_of_slots (h : Counted s held) {i : Nat} (hi : i < processMax)
    (hslot : s.slots i = none) : s.table i = none := by
  cases htable : s.table i with
  | none => rfl
  | some a =>
    cases hp : s.objects a with
    | none => exact absurd (h.unreferenced hp).1 (Processes.registrations_ne_zero hi htable)
    | some p =>
      rw [Processes.slots, htable, bind_some, hp] at hslot
      cases hslot

/-- A new object at `a`, in slot `index`. -/
def Processes.register (s : Processes) (a index : Nat) (p : ProcessObject) : Processes :=
  { s with
    objects := fun x => if x = a then some p else s.objects x
    live := a :: s.live
    table := fun i => if i = index then some a else s.table i }

theorem Processes.register_self {index : Nat} : (s.register a index p).objects a = some p := if_pos rfl

theorem Processes.register_ne {index : Nat} (hx : x ≠ a) :
    (s.register a index p).objects x = s.objects x := if_neg hx

theorem Counted.register (h : Counted s held) (hfresh : s.objects a = none) {index : Nat}
    (hindex : index < processMax) (hempty : s.table index = none) (hrefs : p.references = 1)
    (hparent : p.parent = none) : Counted (s.register a index p) held := by
  obtain ⟨hnoSlot, hnoChild, hnoHolder⟩ := h.unreferenced hfresh
  have hout : a ∉ s.live := by
    rw [h.live, hfresh]
    exact Bool.false_ne_true
  have hregistered : ∀ x, (s.register a index p).registrations x =
      s.registrations x + if a = x then 1 else 0 := by
    intro x
    have hself : (s.register a index p).table index = some a := if_pos rfl
    have hchange := countP_change (p := fun i => decide ((s.register a index p).table i = some x))
      (q := fun i => decide (s.table i = some x)) nodup_range (mem_range.mpr hindex)
      fun i _ hi => by rw [show (s.register a index p).table i = s.table i from if_neg hi]
    simpa [hempty, hself, registrations] using hchange
  have hchildren : ∀ x, (s.register a index p).children x = s.children x := by
    intro x
    refine (countP_cons_of_neg ?_).trans (countP_congr fun c hc => ?_)
    · simp [parent_eq register_self, hparent]
    · rw [parent, register_ne (ne_of_mem_of_not_mem hc hout), ← parent]
  refine counted_iff.mpr ⟨nodup_cons.mpr ⟨hout, h.liveOnce⟩, fun x => ?_⟩
  by_cases hx : x = a
  · subst hx
    have hone : (s.register x index p).registrations x = 1 := by
      rw [hregistered, if_pos rfl, hnoSlot]
    refine ⟨iff_of_true mem_cons_self (by rw [register_self, isSome_some]), ?_, hone.le, ?_⟩
    · rw [references_eq register_self, hone, hchildren]
      omega
    · rw [register_self]
      rintro _ ⟨⟩
      exact ⟨by omega, hrefs.trans_le (by decide), by omega⟩
  · refine h.kept ?_ (register_ne hx) ?_ (by rw [hchildren])
    · exact mem_cons.trans (or_iff_right hx)
    · rw [hregistered, if_neg (Ne.symm hx), Nat.add_zero]

/-- A finished object leaves the table; its registration is now a reference of the caller. -/
theorem Counted.clearSlots (h : Counted s held) (hp : s.objects a = some p)
    (hregistered : s.registrations a = 1) (hstate : p.state = .exited) (hparent : p.parent = none)
    (hspace : p.hasSpace = false) : Counted (s.clearSlots a) (plus held (some a)) := by
  have hother : ∀ x, x ≠ a → (s.clearSlots a).registrations x = s.registrations x := by
    intro x hx
    refine countP_congr fun i _ => ?_
    rw [Processes.clearSlots]
    dsimp only
    split
    next hslot =>
      have hne : some a ≠ some x := fun heq => hx (some.inj heq).symm
      rw [hslot, decide_eq_false hne]
      rfl
    next => rfl
  have hself : (s.clearSlots a).registrations a = 0 := by
    refine countP_eq_zero.mpr fun i _ => ?_
    rw [Processes.clearSlots]
    dsimp only
    split
    next => exact Bool.false_ne_true
    next hslot => rwa [decide_eq_true_eq]
  refine counted_iff.mpr ⟨h.liveOnce, fun x => ?_⟩
  have hchildren : (s.clearSlots a).children x = s.children x := rfl
  by_cases hx : x = a
  · subst hx
    have hcounted := h.counted x
    have href : (s.clearSlots x).references x = s.references x := rfl
    refine ⟨h.live x, ?_, hself.trans_le (Nat.zero_le 1), fun q hq => ?_⟩
    · rw [plus_self]
      omega
    · cases hp.symm.trans hq
      exact ⟨h.needed x p hp, h.bound x p hp, fun _ => ⟨hstate, hparent, hspace⟩⟩
  · exact h.kept Iff.rfl rfl (hother x hx) (by rw [plus_ne held hx, hchildren])

end Objects

/-! ## The calls -/

section Calls

variable {s s' : Processes} {held : Nat → Nat} {a : Nat}

theorem Counted.retainExisting (h : Counted s held) (hretain : s.retainExisting a = (true, s')) :
    Counted s' (plus held (some a)) := by
  revert hretain
  fun_cases s.retainExisting a
  · exact h.retain
  · rintro ⟨⟩

theorem Counted.lookupRetain (h : Counted s held) (hlookup : s.lookupRetain id = (found, s')) :
    Counted s' (plus held found) := by
  rw [← plus_none held] at h
  revert hlookup
  fun_cases s.lookupRetain id
  all_goals rintro ⟨⟩
  · exact h
  next hretain => exact plus_none held ▸ h.retain hretain
  · exact h

theorem Counted.replacement (h : Counted s held) {parent : Nat}
    (hfound : s.replacement parent = (found, s')) : Counted s' (plus held found) := by
  revert hfound
  fun_cases s.replacement parent
  · rintro ⟨⟩
    rw [plus_none]
    exact h
  · exact h.lookupRetain

/-- One turn of the loop gives back the reference on the child, and keeps every other. -/
theorem Counted.reparentChild {child : Nat} (h : Counted s (plus held (some child)))
    (parent : Nat) : Counted (s.reparentChild parent child) held := by
  unfold Processes.reparentChild
  rcases hfound : s.replacement parent with ⟨candidate, s₁⟩
  have h₁ := h.replacement hfound
  dsimp only
  split
  next hchild =>
    obtain ⟨p, hp, hparent⟩ := object_of_parent hchild
    have hopen : s₁.registrations child = 1 := by
      refine h₁.registered hp (.inr (.inl ?_))
      rw [hparent]
      exact some_ne_none parent
    refine Counted.release (Counted.releaseOption (Counted.release ?_))
    cases hadopted : s₁.adopts parent candidate with
    | true =>
      -- the reference on the replacement becomes the child's
      rw [if_pos rfl, if_pos rfl, plus_none, ← hparent]
      exact h₁.setParent hp rfl rfl fun hzero => by omega
    | false =>
      rw [if_neg Bool.false_ne_true, if_neg Bool.false_ne_true, ← hparent]
      rw [← plus_none (plus (plus held (some child)) candidate)] at h₁
      exact h₁.setParent hp rfl rfl fun hzero => by omega
  next => exact (h₁.releaseOption).release

/-- The references the snapshot has taken. -/
def plusList (held : Nat → Nat) : List Nat → Nat → Nat
  | [] => held
  | c :: rest => plus (plusList held rest) (some c)

theorem plusList_plus (a : Option Nat) (l : List Nat) :
    plusList (plus held a) l = plus (plusList held l) a := by
  induction l with
  | nil => rfl
  | cons c rest ih => rw [plusList, plusList, ih, plus_comm]

theorem Counted.snapshot (h : Counted s held) (parent : Nat) (slots : List Nat)
    {children : List Nat} (hsnapshot : Processes.snapshot parent slots s = (children, s')) :
    Counted s' (plusList held children) := by
  fun_induction Processes.snapshot parent slots s generalizing s' held children
  · cases hsnapshot
    exact h
  next ih => exact ih h hsnapshot
  next ih => exact ih h hsnapshot
  next ih => exact ih h hsnapshot
  next hretain _ _ hrest ih =>
    cases hsnapshot
    have h₂ := ih (h.retain hretain) hrest
    rw [plusList_plus] at h₂
    exact h₂

theorem Counted.reparentChildren (h : Counted s held) (parent : Nat) :
    Counted (s.reparentChildren parent) held := by
  unfold Processes.reparentChildren
  rcases hsnapshot : Processes.snapshot parent (List.range processMax) s with ⟨children, s₁⟩
  have h₁ := h.snapshot parent _ hsnapshot
  dsimp only
  clear hsnapshot h
  -- the loop hands back, child by child, what the snapshot took
  induction children generalizing s₁ with
  | nil => exact h₁
  | cons c rest ih => exact ih _ (Counted.reparentChild h₁ parent)

/-- `create` leaves everything alone, or makes a new registered object without a parent. -/
theorem Counted.create (h : Counted s held) {allocated : Option Nat} {space : Bool}
    (hfresh : ∀ a, allocated = some a → s.objects a = none) {made : Option Nat}
    (hcreate : s.create id allocated space = (made, s')) :
    (made = none ∧ s' = s) ∨ Counted s' held ∧ ∃ a p, made = some a ∧ s'.objects a = some p ∧
      p.parent = none ∧ p.state = .new := by
  revert hcreate
  fun_cases s.create id allocated space
  all_goals rintro ⟨⟩
  · exact .inl ⟨rfl, rfl⟩
  · exact .inl ⟨rfl, rfl⟩
  · exact .inl ⟨rfl, rfl⟩
  · exact .inl ⟨rfl, rfl⟩
  next a _ index hslot _ =>
    obtain ⟨_, hindex, hempty, _⟩ := publishSlot_some hslot
    rw [Nat.zero_add] at hindex
    refine .inr ⟨?_, a, _, rfl, if_pos rfl, rfl, rfl⟩
    exact h.register (hfresh a rfl) hindex (h.table_of_slots hindex hempty) rfl rfl

theorem Processes.object_of_any {f : ProcessObject → Bool} (h : (s.objects a).any f = true) :
    ∃ p, s.objects a = some p ∧ f p = true := by
  cases hp : s.objects a with
  | none =>
    rw [hp] at h
    cases h
  | some p =>
    rw [hp] at h
    exact ⟨p, rfl, h⟩

/-- A change of state of an object that is registered, or to the last state. -/
theorem Counted.setState (h : Counted s held) (hp : s.objects a = some p) (state : ProcessState)
    (hstate : state = .exited ∨ p.state ≠ .exited) :
    Counted (s.update a fun p => { p with state }) held := by
  refine h.setFields hp rfl rfl fun hzero => ?_
  obtain ⟨hexited, _, hspace⟩ := h.ended a p hp hzero
  rcases hstate with hlast | hopen
  · exact ⟨hlast, hspace⟩
  · exact absurd hexited hopen

/-- The reference on the parent becomes that of a new child. -/
theorem Counted.adopt {parent child : Nat} (h : Counted s (plus held (some parent)))
    (hp : s.objects child = some p) (hnew : p.state = .new) (hnone : p.parent = none) :
    Counted (s.update child fun p => { p with parent := some parent }) held := by
  have hregistered := h.registered hp (.inl (by simp [hnew]))
  have h' := h.setParent (f := fun p => { p with parent := some parent }) hp rfl rfl
    fun hzero => by omega
  rwa [hnone, plus_none] at h'

section

variable (h : Counted s held)

include h

theorem Counted.setParentCall (child parent : Nat) :
    Counted (s.setParent child parent).2 held := by
  fun_cases s.setParent child parent
  · exact h
  · exact h
  next s₁ hretain _ _ havailable =>
    rw [Bool.and_eq_true] at havailable
    obtain ⟨c, hc, hfree⟩ := object_of_any havailable.2
    obtain ⟨hnew, hnone⟩ := of_decide_eq_true hfree
    exact (h.retainExisting hretain).adopt hc hnew hnone
  next hretain _ _ _ => exact (h.retainExisting hretain).release

theorem Counted.loadImage (a : Nat) (loaded : Bool) :
    Counted (s.loadImage a loaded).2 held := by
  fun_cases s.loadImage a loaded
  next hyes =>
    rw [Bool.and_eq_true] at hyes
    obtain ⟨p, hp, hnew⟩ := object_of_any hyes.1
    exact h.setState hp _ (.inr (by simp [of_decide_eq_true hnew]))
  · exact h

/-- `current_process` counts for nothing. -/
theorem Counted.setCurrent (current : Option Nat) :
    Counted { s with current } held :=
  ⟨h.live, h.liveOnce, h.counted, h.needed, h.bound, h.once, h.ended⟩

theorem Counted.activate (a : Nat) (activated : Bool) :
    Counted (s.activate a activated).2 held := by
  fun_cases s.activate a activated
  next hyes =>
    rw [Bool.and_eq_true] at hyes
    obtain ⟨p, hp, hstate⟩ := object_of_any hyes.1
    refine (h.setState hp _ (.inr ?_)).setCurrent _
    rcases of_decide_eq_true hstate with hready | hrunning
    · simp [hready]
    · simp [hrunning]
  · exact h

theorem Counted.terminate (a : Nat) (threadsGone : Bool) :
    Counted (s.terminate a threadsGone).2 held := by
  fun_cases s.terminate a threadsGone
  next hyes =>
    rw [Bool.and_eq_true, Bool.and_eq_true] at hyes
    obtain ⟨p, hp, _⟩ := object_of_any hyes.1.1
    exact h.setState hp _ (.inl rfl)
  · exact h

theorem Counted.exitCurrent : Counted s.exitCurrent held := by
  fun_cases Processes.exitCurrent s
  · exact h
  next a _ hyes _ =>
    obtain ⟨p, hp, _⟩ := object_of_any hyes
    exact ((h.setState hp _ (.inl rfl)).reparentChildren a).setCurrent _
  · exact h

/-- The references a destroyed process gives back: its parent's and its own registration. -/
theorem Counted.destroy (a : Nat) (idle inactive : Bool) :
    Counted (s.destroy a idle inactive).2 held := by
  unfold Processes.destroy
  split
  next =>
    have h₁ := h.reparentChildren a
    generalize s.reparentChildren a = s₁ at h₁ ⊢
    dsimp only
    split
    next hspace =>
      rw [Bool.and_eq_true] at hspace
      obtain ⟨p, hp, hroot⟩ := object_of_any hspace.1
      -- an object that still has its address space has not been destroyed before
      have hregistered := h₁.registered hp (.inr (.inr hroot))
      rw [← plus_none held] at h₁
      have h₂ := h₁.setParent
        (f := fun p => { p with state := .exited, hasSpace := false, parent := none }) hp rfl rfl
        fun _ => ⟨rfl, rfl, rfl⟩
      have h₃ := h₂.clearSlots (update_self hp) hregistered rfl rfl rfl
      rw [plus_comm] at h₃
      rw [parent_eq hp]
      exact h₃.releaseOption.release
    next => exact h₁
  next => exact h

theorem Counted.cloneInto {child : Nat} (hp : s.objects child = some p)
    (hnew : p.state = .new) (outcome : CloneOutcome) :
    Counted (s.cloneInto child outcome).2 held := by
  have hopen : p.state ≠ .exited := by simp [hnew]
  have h₁ : Counted (s.update child fun p => { p with hasSpace := true }) held := by
    refine h.setFields hp rfl rfl fun hzero => ?_
    exact absurd (h.ended child p hp hzero).1 hopen
  have h₂ := h₁.setState (update_self hp) .ready (.inr hopen)
  fun_cases s.cloneInto child outcome
  · exact h.destroy child _ _
  · exact h.destroy child _ _
  · exact h₁.destroy child _ _
  · exact h₁.destroy child _ _
  · exact h₂.destroy child _ _
  · exact h₂

end

/-- A retained object is an object as before. -/
theorem Processes.retainExisting_fresh (hretain : s.retainExisting a = (true, s'))
    (hx : s.objects x = none) : s'.objects x = none := by
  unfold retainExisting at hretain
  split at hretain
  next =>
    rcases s.retain_cases a with hno | ⟨p, hp, _, hyes⟩
    · rw [hno] at hretain
      cases hretain
    rw [hyes] at hretain
    cases hretain
    have hne : x ≠ a := by
      rintro rfl
      rw [hx] at hp
      cases hp
    rw [update_ne hne]
    exact hx
  next => cases hretain

theorem Counted.cloneUser (h : Counted s held) (parent id : Nat)
    {outcome : CloneOutcome}
    (hfresh : ∀ a, outcome.allocated = some a → s.objects a = none) :
    Counted (s.cloneUser parent id outcome).2 held := by
  unfold Processes.cloneUser
  split
  next => exact h
  split
  next => exact h
  split
  next => exact h
  next s₁ hretain =>
    have h₁ := h.retainExisting hretain
    have hfresh₁ : ∀ a, outcome.allocated = some a → s₁.objects a = none :=
      fun a ha => retainExisting_fresh hretain (hfresh a ha)
    rcases hcreate : s₁.create id outcome.allocated outcome.space with ⟨made, s₂⟩
    rcases h₁.create hfresh₁ hcreate with ⟨rfl, rfl⟩ | ⟨h₂, a, p, rfl, hp, hparent, hnew⟩
    · exact h₁.release
    · exact (h₂.adopt hp hnew hparent).cloneInto (update_self hp) hnew outcome

end Calls

/-! ## Runs -/

/-- `kmalloc` hands out unused memory, and a caller gives back only what it has retained. -/
def ProcessCall.Legal (s : ProcessSystem) : ProcessCall → Prop
  | .create _ allocated _ => ∀ a, allocated = some a → s.processes.objects a = none
  | .cloneUser _ _ outcome => ∀ a, outcome.allocated = some a → s.processes.objects a = none
  | .release a => s.retained a ≠ 0
  | _ => True

def ProcessSystem.Inv (s : ProcessSystem) : Prop := Counted s.processes s.retained

theorem ProcessSystem.Inv.initial : ProcessSystem.Inv .initial := by
  have hnone : ∀ a, ProcessSystem.initial.processes.registrations a = 0 := fun a =>
    countP_eq_zero.mpr fun i _ => Bool.false_ne_true
  have hempty : ∀ a p, ProcessSystem.initial.processes.objects a ≠ some p := fun a p hp => nomatch hp
  refine ⟨fun a => ⟨fun hno => absurd hno not_mem_nil, fun hno => (nomatch hno)⟩,
    nodup_nil, fun a => ?_, fun a p hp => absurd hp (hempty a p),
    fun a p hp => absurd hp (hempty a p), fun a => ?_, fun a p hp => absurd hp (hempty a p)⟩
  · rw [hnone]
    rfl
  · rw [hnone]
    exact Nat.zero_le 1

theorem ProcessCall.inv (h : s.Inv) {call : ProcessCall} (hlegal : call.Legal s) :
    (call.step s).Inv := by
  cases call with
  | create id allocated space =>
    rcases hcreate : s.processes.create id allocated space with ⟨made, s'⟩
    show Counted (s.processes.create id allocated space).2 s.retained
    rw [hcreate]
    rcases h.create hlegal hcreate with ⟨_, rfl⟩ | ⟨h', _⟩
    · exact h
    · exact h'
  | setParent child parent => exact Counted.setParentCall h child parent
  | lookupRetain id =>
    rcases hlookup : s.processes.lookupRetain id with ⟨found, s'⟩
    have h' := Counted.lookupRetain h hlookup
    rw [ProcessCall.step, hlookup]
    cases found with
    | none => exact h
    | some a =>
      rw [plus_some] at h'
      exact h'
  | release a =>
    have hheld : s.retained a ≠ 0 := hlegal
    have hplus : plus (fun x => s.retained x - if x = a then 1 else 0) (some a) = s.retained := by
      rw [plus_some]
      funext x
      split
      next hx => rw [hx, Nat.sub_add_cancel (Nat.one_le_iff_ne_zero.mpr hheld)]
      next => rfl
    exact Counted.release (hplus ▸ h)
  | loadImage a loaded => exact Counted.loadImage h a loaded
  | activate a activated => exact Counted.activate h a activated
  | cloneUser parent id outcome => exact Counted.cloneUser h parent id hlegal
  | exitCurrent => exact Counted.exitCurrent h
  | terminate a threadsGone => exact Counted.terminate h a threadsGone
  | destroy a idle inactive => exact Counted.destroy h a idle inactive

/-- The counts are right, and nothing that is pointed to has been freed. -/
structure IsReferenceCounted (s : ProcessSystem) : Prop where
  registered : ∀ i, i < processMax → ∀ a, s.processes.table i = some a →
    ∃ p, s.processes.objects a = some p ∧
      p.references = 1 + Set.ncard { c | s.processes.parent c = some a } + s.retained a
  parents : ∀ c a, s.processes.parent c = some a → (s.processes.objects a).isSome = true
  callers : ∀ a, s.retained a ≠ 0 → (s.processes.objects a).isSome = true

theorem Counted.ncard_children {s : Processes} {held : Nat → Nat} (h : Counted s held) (a : Nat) :
    Set.ncard { c | s.parent c = some a } = s.children a := by
  have hset : { c | s.parent c = some a } =
      ((s.live.filter fun c => decide (s.parent c = some a)).toFinset : Set Nat) := by
    ext c
    rw [coe_toFinset, Set.mem_ofPred_eq, Set.mem_ofPred_eq, mem_filter, decide_eq_true_eq]
    refine ⟨fun hc => ⟨?_, hc⟩, And.right⟩
    obtain ⟨p, hp, _⟩ := object_of_parent hc
    rw [h.live, hp, isSome_some]
  rw [hset, Set.ncard_coe_finset, toFinset_card_of_nodup (h.liveOnce.filter _),
    ← countP_eq_length_filter, children]

theorem ProcessSystem.Inv.isReferenceCounted (h : s.Inv) : IsReferenceCounted s := by
  refine ⟨fun i hi a hslot => ?_, fun c a hc => ?_, fun a ha => ?_⟩
  · have hsome := registrations_ne_zero hi hslot
    have honce := h.once a
    have hcounted := h.counted a
    cases hp : s.processes.objects a with
    | none => exact absurd (h.unreferenced hp).1 hsome
    | some p =>
      rw [references_eq hp] at hcounted
      refine ⟨p, rfl, ?_⟩
      rw [h.ncard_children]
      omega
  · obtain ⟨p, hp⟩ := h.live_of_parent hc
    rw [hp, isSome_some]
  · obtain ⟨p, hp⟩ := h.live_of_held ha
    rw [hp, isSome_some]

/-- In every state of every run the count of a registered process is one, plus its children, plus
what callers hold of it; and no process is freed that a child or a caller still points to. -/
theorem processes_isReferenceCounted (calls : List ProcessCall)
    (hlegal : Each ProcessCall.step ProcessCall.Legal .initial calls) :
    Always ProcessCall.step IsReferenceCounted .initial calls :=
  always_of_keeps (I := ProcessSystem.Inv) (fun _ h => h.isReferenceCounted)
    (fun _ _ h hcall => ProcessCall.inv h hcall) ProcessSystem.Inv.initial hlegal

/-- Process 7 adopts the child of a process that is destroyed while a caller holds it; the caller
gives it back afterwards. -/
theorem processes_isReferenceCounted_adopted :
    Always ProcessCall.step IsReferenceCounted .initial
      [.create 7 (some 1) true, .create 8 (some 2) true, .create 9 (some 3) true, .setParent 3 2,
        .lookupRetain 8, .destroy 2 true true, .release 2, .destroy 3 true true] := by
  refine processes_isReferenceCounted _ ⟨?_, ?_, ?_, trivial, trivial, trivial, ?_, trivial, trivial⟩
  · intro a _
    rfl
  · rintro a ⟨⟩
    decide +kernel
  · rintro a ⟨⟩
    decide +kernel
  · show _ ≠ 0
    decide +kernel

end KernelBoot.Process
