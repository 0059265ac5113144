import Mathlib

/-!
# Commands that may fail

An `Attempt` changes a state and answers, or fails; what it did to the state before it failed stays
done. This is the shape of code that returns early with an error: nothing is rolled back unless the
code does it. Sequencing stops at the first failure.

`Keeps` is the invariant rule for such commands: a property of states that every part of a command
keeps, whether the part fails or not, is kept by the command.
-/

namespace KernelBoot.Lib

open List

/-- A command on states `σ` that answers with an `α` or fails. -/
def Attempt (σ α : Type) : Type := σ → Option α × σ

namespace Attempt

variable {σ α β : Type}

/-- Go on with `f`, unless the first command failed. -/
def andThen (m : Attempt σ α) (f : α → Attempt σ β) : Attempt σ β := fun s =>
  match m s with
  | (some a, t) => f a t
  | (none, t) => (none, t)

instance : Monad (Attempt σ) where
  pure a := fun s => (some a, s)
  bind := andThen

/-- The failing command. -/
def fail : Attempt σ α := fun s => (none, s)

/-- A look at the state. -/
def look (f : σ → α) : Attempt σ α := fun s => (some (f s), s)

/-- A change of the state. -/
def change (f : σ → σ) : Attempt σ Unit := fun s => (some (), f s)

/-- Fail unless `p`. -/
def check (p : Prop) [Decidable p] : Attempt σ Unit := if p then pure () else fail

/-- Run a command and answer whether it succeeded; never fails. -/
def succeeds (m : Attempt σ α) : Attempt σ Bool := fun s => (some (m s).1.isSome, (m s).2)

/-- Run a command and answer with its answer, if any; never fails. -/
def answer (m : Attempt σ α) : Attempt σ (Option α) := fun s => (some (m s).1, (m s).2)

/-- The answer, or failure where there is none. -/
def ofOption : Option α → Attempt σ α
  | some a => pure a
  | none => fail

/-- The first success along a list; what the failing tries did stays done. -/
def firstOf (f : α → Attempt σ β) : List α → Attempt σ β
  | [] => fail
  | a :: l => do
    match ← answer (f a) with
    | some b => pure b
    | none => firstOf f l

/-- One command after the other along a list. -/
def forAll (f : α → Attempt σ Unit) : List α → Attempt σ Unit
  | [] => pure ()
  | a :: l => do
    f a
    forAll f l

/-- A value carried along a list. -/
def foldAll (f : β → α → Attempt σ β) : β → List α → Attempt σ β
  | b, [] => pure b
  | b, a :: l => do
    let b' ← f b a
    foldAll f b' l

theorem forAll_eq_foldAll (f : α → Attempt σ Unit) :
    ∀ l, forAll f l = foldAll (fun _ => f) () l
  | [] => rfl
  | a :: l => congrArg (f a >>= fun _ => ·) (forAll_eq_foldAll f l)

@[simp] theorem pure_apply (a : α) (s : σ) : (pure a : Attempt σ α) s = (some a, s) := rfl

@[simp] theorem fail_apply (s : σ) : (fail : Attempt σ α) s = (none, s) := rfl

@[simp] theorem succeeds_apply (m : Attempt σ α) (s : σ) :
    succeeds m s = (some (m s).1.isSome, (m s).2) := rfl

@[simp] theorem answer_apply (m : Attempt σ α) (s : σ) : answer m s = (some (m s).1, (m s).2) := rfl

@[simp] theorem check_of_true {p : Prop} [Decidable p] (h : p) (s : σ) :
    check p s = (some (), s) := by
  rw [check, if_pos h, pure_apply]

@[simp] theorem check_of_false {p : Prop} [Decidable p] (h : ¬p) (s : σ) :
    check p s = (none, s) := by
  rw [check, if_neg h, fail_apply]

variable {m : Attempt σ α} {f : α → Attempt σ β} {s t : σ} {a : α} {b : β} {p : Prop} [Decidable p]

theorem bind_of_some (h : m s = (some a, t)) : (m >>= f) s = f a t := by
  change andThen m f s = _
  rw [andThen, h]

theorem bind_of_none (h : m s = (none, t)) : (m >>= f) s = (none, t) := by
  change andThen m f s = _
  rw [andThen, h]

/-- A command sequence succeeds when its parts do, one after the other. -/
theorem bind_eq_some_iff :
    (m >>= f) s = (some b, t) ↔ ∃ a s', m s = (some a, s') ∧ f a s' = (some b, t) := by
  constructor
  · intro h
    cases hm : m s with
    | mk answer s' =>
      cases answer with
      | none =>
        rw [bind_of_none hm] at h
        cases h
      | some a =>
        rw [bind_of_some hm] at h
        exact ⟨a, s', rfl, h⟩
  · rintro ⟨a, s', hm, hf⟩
    rw [bind_of_some hm, hf]

/-- A command sequence fails in its first part or behind it. -/
theorem bind_eq_none_iff :
    (m >>= f) s = (none, t) ↔
      m s = (none, t) ∨ ∃ a s', m s = (some a, s') ∧ f a s' = (none, t) := by
  constructor
  · intro h
    cases hm : m s with
    | mk answer s' =>
      cases answer with
      | none =>
        rw [bind_of_none hm] at h
        cases h
        exact .inl rfl
      | some a =>
        rw [bind_of_some hm] at h
        exact .inr ⟨a, s', rfl, h⟩
  · rintro (hm | ⟨a, s', hm, hf⟩)
    · exact bind_of_none hm
    · rw [bind_of_some hm, hf]

@[simp] theorem pure_bind_apply (x : α) (f : α → Attempt σ β) (s : σ) :
    ((pure x : Attempt σ α) >>= f) s = f x s := rfl

@[simp] theorem look_bind_apply (g : σ → α) (f : α → Attempt σ β) (s : σ) :
    (look g >>= f) s = f (g s) s := rfl

@[simp] theorem change_bind_apply (g : σ → σ) (f : Unit → Attempt σ β) (s : σ) :
    (change g >>= f) s = f () (g s) := rfl

@[simp] theorem fail_bind_apply (f : α → Attempt σ β) (s : σ) :
    ((fail : Attempt σ α) >>= f) s = (none, s) := rfl

/-! ## Invariants -/

/-- The command keeps `I`, whether it fails or not. -/
def Keeps (I : σ → Prop) (m : Attempt σ α) : Prop := ∀ s, I s → I (m s).2

namespace Keeps

variable {I : σ → Prop} {m : Attempt σ α} {f : α → Attempt σ β}

theorem pure (a : α) : Keeps I (pure a : Attempt σ α) := fun _ h => h

theorem fail : Keeps I (fail : Attempt σ α) := fun _ h => h

theorem check (p : Prop) [Decidable p] : Keeps I (check p : Attempt σ Unit) := by
  intro s h
  by_cases hp : p
  · rwa [check_of_true hp]
  · rwa [check_of_false hp]

theorem bind (hm : Keeps I m) (hf : ∀ a, Keeps I (f a)) : Keeps I (m >>= f) := by
  intro s h
  cases hs : m s with
  | mk answer t =>
    have ht : I t := by
      have := hm s h
      rwa [hs] at this
    cases answer with
    | none => rwa [bind_of_none hs]
    | some a =>
      rw [bind_of_some hs]
      exact hf a t ht

theorem ite {m' : Attempt σ α} (hm : Keeps I m) (hm' : Keeps I m') :
    Keeps I (if p then m else m') := by
  split
  · exact hm
  · exact hm'

theorem succeeds (hm : Keeps I m) : Keeps I (succeeds m) := hm

theorem answer (hm : Keeps I m) : Keeps I (answer m) := hm

theorem ofOption (o : Option α) : Keeps I (ofOption o) := by
  cases o with
  | none => exact fail
  | some a => exact pure a

theorem firstOf {f : α → Attempt σ β} (hf : ∀ a, Keeps I (f a)) :
    ∀ l : List α, Keeps I (firstOf f l)
  | [] => fail
  | a :: l => by
    apply bind (answer (hf a))
    intro o
    cases o with
    | none => exact firstOf hf l
    | some b => exact pure b

theorem forAll {f : α → Attempt σ Unit} (hf : ∀ a, Keeps I (f a)) :
    ∀ l : List α, Keeps I (forAll f l)
  | [] => pure ()
  | a :: l => bind (hf a) fun _ => forAll hf l

theorem foldAll {f : β → α → Attempt σ β} (hf : ∀ b a, Keeps I (f b a)) :
    ∀ (b : β) (l : List α), Keeps I (foldAll f b l)
  | b, [] => pure b
  | b, a :: l => bind (hf b a) fun b' => foldAll hf b' l

end Keeps

/-! ## Answers that have a property -/

/-- Every answer of the command has the property, whatever the state. -/
def Yields (P : α → Prop) (m : Attempt σ α) : Prop := ∀ s a t, m s = (some a, t) → P a

namespace Yields

variable {P : α → Prop} {Q : β → Prop} {m : Attempt σ α} {f : α → Attempt σ β}

theorem any : Yields (fun _ => True) m := fun _ _ _ _ => trivial

theorem pure {a : α} (h : P a) : Yields P (pure a : Attempt σ α) := by
  intro s b t hb
  cases hb
  exact h

theorem bind (hm : Yields P m) (hf : ∀ a, P a → Yields Q (f a)) : Yields Q (m >>= f) := by
  intro s b t hb
  obtain ⟨a, s', ha, hrest⟩ := bind_eq_some_iff.mp hb
  exact hf a (hm s a s' ha) s' b t hrest

theorem then_ (hf : ∀ a, Yields Q (f a)) : Yields Q (m >>= f) := bind any fun a _ => hf a

theorem check_bind {f : Unit → Attempt σ β} (hf : p → Yields Q (f ())) :
    Yields Q (check p >>= f) := by
  by_cases hp : p
  · exact then_ fun _ => hf hp
  · intro s b t hb
    rw [bind_of_none (check_of_false hp s)] at hb
    cases hb

end Yields

/-! ## Triples -/

/-- From a state with `P` the command answers in a state with `Q`, or fails in one with `F`. -/
def Triple (P : σ → Prop) (m : Attempt σ α) (Q : α → σ → Prop) (F : σ → Prop) : Prop :=
  ∀ s, P s → (∀ a t, m s = (some a, t) → Q a t) ∧ ∀ t, m s = (none, t) → F t

namespace Triple

variable {P : σ → Prop} {Q : α → σ → Prop} {R : β → σ → Prop} {F : σ → Prop} {m : Attempt σ α}
  {f : α → Attempt σ β}

/-- A command that answers in this state. -/
theorem at_some {s t : σ} {a : α} (hm : m s = (some a, t)) (h : Q a t) :
    (∀ a t, m s = (some a, t) → Q a t) ∧ ∀ t, m s = (none, t) → F t := by
  refine ⟨fun b u heq => ?_, fun u heq => ?_⟩
  · cases hm.symm.trans heq
    exact h
  · cases hm.symm.trans heq

/-- A command that fails in this state. -/
theorem at_none {s t : σ} (hm : m s = (none, t)) (h : F t) :
    (∀ a t, m s = (some a, t) → Q a t) ∧ ∀ t, m s = (none, t) → F t := by
  refine ⟨fun b u heq => ?_, fun u heq => ?_⟩
  · cases hm.symm.trans heq
  · cases hm.symm.trans heq
    exact h

theorem of_some {g : σ → σ} {a : α} (hm : ∀ s, m s = (some a, g s)) (h : ∀ s, P s → Q a (g s)) :
    Triple P m Q F := fun s hs => at_some (hm s) (h s hs)

theorem pure {a : α} (h : ∀ s, P s → Q a s) : Triple P (pure a : Attempt σ α) Q F :=
  of_some (fun _ => rfl) h

theorem change {g : σ → σ} {Q : Unit → σ → Prop} (h : ∀ s, P s → Q () (g s)) :
    Triple P (change g) Q F := of_some (fun _ => rfl) h

theorem bind (hm : Triple P m Q F) (hf : ∀ a, Triple (Q a) (f a) R F) : Triple P (m >>= f) R F := by
  refine fun s hs => ⟨fun b t heq => ?_, fun t heq => ?_⟩
  · obtain ⟨a, s', ha, hb⟩ := bind_eq_some_iff.mp heq
    exact (hf a s' ((hm s hs).1 a s' ha)).1 b t hb
  · rcases bind_eq_none_iff.mp heq with ha | ⟨a, s', ha, hb⟩
    · exact (hm s hs).2 t ha
    · exact (hf a s' ((hm s hs).1 a s' ha)).2 t hb

/-- Go on with what was seen. -/
theorem look_bind {g : σ → α} (hf : ∀ a, Triple (fun s => P s ∧ g s = a) (f a) R F) :
    Triple P (look g >>= f) R F := by
  intro s hs
  rw [look_bind_apply]
  exact hf (g s) s ⟨hs, rfl⟩

theorem check_bind {f : Unit → Attempt σ β} (hfail : ∀ s, P s → F s)
    (hf : p → Triple P (f ()) R F) : Triple P (check p >>= f) R F := by
  intro s hs
  by_cases hp : p
  · rw [bind_of_some (check_of_true hp s)]
    exact hf hp s hs
  · exact at_none (bind_of_none (check_of_false hp s)) (hfail s hs)

/-- A command for each element of a list; the invariant speaks of those that were done. -/
theorem foldAll {f : β → α → Attempt σ β} {I : List α → β → σ → Prop} {l : List α}
    (hf : ∀ done a rest b, l = done ++ a :: rest → Triple (I done b) (f b a) (I (done ++ [a])) F)
    (b : β) : Triple (I [] b) (foldAll f b l) (I l) F := by
  have hrest : ∀ rest done b, l = done ++ rest →
      Triple (I done b) (Attempt.foldAll f b rest) (I l) F := by
    intro rest
    induction rest with
    | nil =>
      rintro done b rfl
      refine pure fun s hs => ?_
      rwa [append_nil]
    | cons a rest ih =>
      intro done b hl
      refine bind (hf done a rest b hl) fun b' => ih (done ++ [a]) b' ?_
      rw [hl, append_assoc, singleton_append]
  exact hrest l [] b rfl

theorem forAll {f : α → Attempt σ Unit} {I : List α → σ → Prop} {l : List α}
    (hf : ∀ done a rest, l = done ++ a :: rest → Triple (I done) (f a) (fun _ => I (done ++ [a])) F) :
    Triple (I []) (forAll f l) (fun _ => I l) F := by
  rw [forAll_eq_foldAll]
  exact foldAll (fun done a rest _ => hf done a rest) ()

end Triple

/-! ## Commands that only look -/

/-- The command leaves every state as it is. -/
def ReadOnly (m : Attempt σ α) : Prop := ∀ s, (m s).2 = s

theorem readOnly_iff_keeps : ReadOnly m ↔ ∀ s, Keeps (· = s) m := by
  constructor
  · intro h s t ht
    rw [h t, ht]
  · exact fun h s => h s s rfl

namespace ReadOnly

variable {m : Attempt σ α} {f : α → Attempt σ β} {s : σ}

theorem pure (a : α) : ReadOnly (pure a : Attempt σ α) := fun _ => rfl

theorem fail : ReadOnly (fail : Attempt σ α) := fun _ => rfl

theorem look (g : σ → α) : ReadOnly (look g) := fun _ => rfl

theorem check (p : Prop) [Decidable p] : ReadOnly (check p : Attempt σ Unit) :=
  readOnly_iff_keeps.mpr fun _ => Keeps.check p

theorem bind (hm : ReadOnly m) (hf : ∀ a, ReadOnly (f a)) : ReadOnly (m >>= f) :=
  readOnly_iff_keeps.mpr fun s =>
    Keeps.bind (readOnly_iff_keeps.mp hm s) fun a => readOnly_iff_keeps.mp (hf a) s

theorem check_bind {f : Unit → Attempt σ β} (hf : ReadOnly (f ())) :
    ReadOnly (Attempt.check p >>= f) := bind (check p) fun _ => hf

theorem ite {m' : Attempt σ α} (hm : ReadOnly m) (hm' : ReadOnly m') :
    ReadOnly (if p then m else m') := by
  split
  · exact hm
  · exact hm'

theorem answer (hm : ReadOnly m) : ReadOnly (answer m) := hm

theorem ofOption (o : Option α) : ReadOnly (ofOption o : Attempt σ α) :=
  readOnly_iff_keeps.mpr fun _ => Keeps.ofOption o

theorem firstOf (hf : ∀ a, ReadOnly (f a)) (l : List α) : ReadOnly (firstOf f l) :=
  readOnly_iff_keeps.mpr fun s => Keeps.firstOf (fun a => readOnly_iff_keeps.mp (hf a) s) l

theorem forAll {f : α → Attempt σ Unit} (hf : ∀ a, ReadOnly (f a)) (l : List α) :
    ReadOnly (forAll f l) :=
  readOnly_iff_keeps.mpr fun s => Keeps.forAll (fun a => readOnly_iff_keeps.mp (hf a) s) l

theorem foldAll {f : β → α → Attempt σ β} (hf : ∀ b a, ReadOnly (f b a)) (b : β) (l : List α) :
    ReadOnly (foldAll f b l) :=
  readOnly_iff_keeps.mpr fun s => Keeps.foldAll (fun b a => readOnly_iff_keeps.mp (hf b a) s) b l

theorem keeps (hm : ReadOnly m) {I : σ → Prop} : Keeps I m := by
  intro s hs
  rwa [hm s]

theorem eq_some_iff (hm : ReadOnly m) {a : α} : m s = (some a, s) ↔ (m s).1 = some a :=
  ⟨fun h => by rw [h], fun h => Prod.ext h (hm s)⟩

end ReadOnly

/-! ## Answers found without a change -/

/-- The command leaves this state as it is, and an answer has the property. -/
def Finds (s : σ) (P : α → Prop) (m : Attempt σ α) : Prop := (m s).2 = s ∧ ∀ a, (m s).1 = some a → P a

namespace Finds

variable {P : α → Prop} {Q : β → Prop} {m : Attempt σ α} {f : α → Attempt σ β} {s : σ}

theorem pure {a : α} (h : P a) : Finds s P (pure a : Attempt σ α) :=
  ⟨rfl, fun _ hb => Option.some.inj hb ▸ h⟩

theorem fail : Finds s P (fail : Attempt σ α) := ⟨rfl, fun _ h => by cases h⟩

theorem bind (hm : Finds s P m) (hf : ∀ a, P a → Finds s Q (f a)) : Finds s Q (m >>= f) := by
  cases h : (m s).1 with
  | none =>
    rw [Finds, bind_of_none (Prod.ext h hm.1)]
    exact fail
  | some a =>
    rw [Finds, bind_of_some (Prod.ext h hm.1)]
    exact hf a (hm.2 a h)

theorem then_ (hm : ReadOnly m) (hf : ∀ a, Finds s Q (f a)) : Finds s Q (m >>= f) :=
  bind ⟨hm s, fun _ _ => trivial⟩ fun a (_ : True) => hf a

theorem check_bind {f : Unit → Attempt σ β} (hf : p → Finds s Q (f ())) : Finds s Q (check p >>= f) := by
  by_cases hp : p
  · exact then_ (.check p) fun _ => hf hp
  · rw [Finds, bind_of_none (check_of_false hp s)]
    exact fail

theorem ite {m' : Attempt σ α} (hm : p → Finds s P m) (hm' : ¬p → Finds s P m') :
    Finds s P (if p then m else m') := by
  split
  next hp => exact hm hp
  next hp => exact hm' hp

theorem ofOption {o : Option α} (h : ∀ a, o = some a → P a) : Finds s P (ofOption o : Attempt σ α) := by
  cases o with
  | none => exact fail
  | some a => exact pure (h a rfl)

theorem firstOf {f : α → Attempt σ β} (hf : ∀ a, Finds s Q (f a)) : ∀ l, Finds s Q (firstOf f l)
  | [] => fail
  | a :: l => bind (P := fun o => ∀ b, o = some b → Q b) ⟨(hf a).1, fun _ h => Option.some.inj h ▸ (hf a).2⟩
    fun o h => by
      cases o with
      | none => exact firstOf hf l
      | some b => exact pure (h b rfl)

theorem foldAll {f : α → β → Attempt σ α} (hf : ∀ a b, P a → Finds s P (f a b)) :
    ∀ (l : List β) {a : α}, P a → Finds s P (foldAll f a l)
  | [], _, h => pure h
  | b :: l, a, h => bind (hf a b h) fun _ h' => foldAll hf l h'

end Finds

/-! ## Answers -/

theorem check_bind_fst {f : Unit → Attempt σ β} :
    ((check p >>= f) s).1 = some b ↔ p ∧ (f () s).1 = some b := by
  by_cases hp : p
  · rw [bind_of_some (check_of_true hp s)]
    simp [hp]
  · rw [bind_of_none (check_of_false hp s)]
    simp [hp]

theorem ofOption_bind_fst {o : Option α} :
    ((ofOption o >>= f) s).1 = some b ↔ ∃ a, o = some a ∧ (f a s).1 = some b := by
  cases o with
  | none => simp [ofOption]
  | some a => simp [ofOption]

namespace ReadOnly

theorem bind_of_fst_none (hm : ReadOnly m) (h : (m s).1 = none) : (m >>= f) s = (none, s) :=
  bind_of_none (Prod.ext h (hm s))

theorem bind_of_fst_some (hm : ReadOnly m) {a : α} (h : (m s).1 = some a) : (m >>= f) s = f a s :=
  bind_of_some (hm.eq_some_iff.mpr h)

/-- After a command that only looks, the rest starts from the same state. -/
theorem bind_fst (hm : ReadOnly m) :
    ((m >>= f) s).1 = some b ↔ ∃ a, (m s).1 = some a ∧ (f a s).1 = some b := by
  cases h : (m s).1 with
  | none => simp [hm.bind_of_fst_none h]
  | some a => simp [hm.bind_of_fst_some h]

theorem bind_pure_fst (hm : ReadOnly m) {g : α → β} :
    ((m >>= fun a => Pure.pure (g a)) s).1 = (m s).1.map g := by
  cases h : (m s).1 with
  | none =>
    rw [hm.bind_of_fst_none h]
    rfl
  | some a =>
    rw [hm.bind_of_fst_some h]
    rfl

theorem answer_bind (hm : ReadOnly m) {f : Option α → Attempt σ β} :
    (Attempt.answer m >>= f) s = f (m s).1 s := by
  have h : Attempt.answer m s = (some (m s).1, s) := Prod.ext rfl (hm s)
  exact bind_of_some h

theorem firstOf_fst (hf : ∀ a, ReadOnly (f a)) :
    ∀ l : List α, (Attempt.firstOf f l s).1 = some b → ∃ a ∈ l, (f a s).1 = some b
  | [], h => nomatch h
  | a :: l, h => by
    rw [Attempt.firstOf, (hf a).answer_bind] at h
    cases ha : (f a s).1 with
    | none =>
      rw [ha] at h
      obtain ⟨c, hc, hb⟩ := firstOf_fst hf l h
      exact ⟨c, mem_cons_of_mem a hc, hb⟩
    | some c =>
      rw [ha] at h
      exact ⟨a, mem_cons_self, ha.trans h⟩

theorem forAll_fst {f : α → Attempt σ Unit} (hf : ∀ a, ReadOnly (f a)) {u : Unit} :
    ∀ l : List α, (Attempt.forAll f l s).1 = some u ↔ ∀ a ∈ l, (f a s).1 = some ()
  | [] => by simp [Attempt.forAll]
  | a :: l => by
    rw [Attempt.forAll, (hf a).bind_fst, forall_mem_cons]
    constructor
    · rintro ⟨_, ha, hl⟩
      exact ⟨ha, (forAll_fst hf l).mp hl⟩
    · rintro ⟨ha, hl⟩
      exact ⟨(), ha, (forAll_fst hf l).mpr hl⟩

theorem foldAll_fst {f : β → α → Attempt σ β} {g : β → α → β} (hf : ∀ b a, ReadOnly (f b a)) :
    ∀ (l : List α) (b : β), (∀ a ∈ l, ∀ b, (f b a s).1 = some (g b a)) →
      (Attempt.foldAll f b l s).1 = some (l.foldl g b)
  | [], _, _ => rfl
  | a :: l, b, h => by
    rw [Attempt.foldAll, (hf b a).bind_fst]
    exact ⟨g b a, h a mem_cons_self b,
      foldAll_fst hf l (g b a) fun c hc => h c (mem_cons_of_mem a hc)⟩

end ReadOnly

/-! ## Commands that leave a mark or do nothing -/

/-- Where `R` holds the command leaves the mark `P` on the state `s`; else it fails and does nothing. -/
structure Marks (P : σ → Prop) (s : σ) (R : Prop) (m : Attempt σ α) : Prop where
  fails : ¬R → m s = (none, s)
  marks : R → P (m s).2

namespace Marks

variable {P : σ → Prop} {R R' : Prop} {m m' : Attempt σ α} {f : α → Attempt σ β} {s : σ}

theorem congr (h : Marks P s R m) (hR : R ↔ R') : Marks P s R' m :=
  ⟨fun hnot => h.fails fun hr => hnot (hR.mp hr), fun hr => h.marks (hR.mpr hr)⟩

theorem of_eq (h : Marks P s R m') (heq : m s = m' s) : Marks P s R m :=
  ⟨fun hnot => heq.trans (h.fails hnot), fun hr => heq ▸ h.marks hr⟩

theorem check_bind {f : Unit → Attempt σ β}
    (h : p → Marks P s R (f ())) : Marks P s (p ∧ R) (check p >>= f) := by
  by_cases hp : p
  · exact ((h hp).congr (and_iff_right hp).symm).of_eq (bind_of_some (check_of_true hp s))
  · exact ⟨fun _ => bind_of_none (check_of_false hp s), fun hr => absurd hr.1 hp⟩

theorem readOnly_bind {R : α → Prop} (hm : ReadOnly m)
    (h : ∀ a, (m s).1 = some a → Marks P s (R a) (f a)) :
    Marks P s (∃ a ∈ (m s).1, R a) (m >>= f) := by
  cases ha : (m s).1 with
  | none => exact ⟨fun _ => hm.bind_of_fst_none ha, fun ⟨a, hmem, _⟩ => absurd hmem (Option.not_mem_none a)⟩
  | some a => exact ((h a ha).congr (by simp)).of_eq (hm.bind_of_fst_some ha)

theorem ofOption_bind {R : α → Prop} {o : Option α} (h : ∀ a, Marks P s (R a) (f a)) :
    Marks P s (∃ a ∈ o, R a) (ofOption o >>= f) := by
  cases o with
  | none => exact ⟨fun _ => rfl, fun ⟨a, hmem, _⟩ => absurd hmem (Option.not_mem_none a)⟩
  | some a => exact ((h a).congr (by simp)).of_eq rfl

/-- What comes after the mark has only to keep it. -/
theorem bind_keeps (h : Marks P s R m) (hf : ∀ a, Keeps P (f a)) : Marks P s R (m >>= f) := by
  refine ⟨fun hnot => bind_of_none (h.fails hnot), fun hr => ?_⟩
  have hmark := h.marks hr
  cases hm : m s with
  | mk answer t =>
    rw [hm] at hmark
    cases answer with
    | none => rwa [bind_of_none hm]
    | some a =>
      rw [bind_of_some hm]
      exact hf a t hmark

/-- Tries along a list leave a mark if some try leaves one. -/
theorem firstOf {R : α → Prop} (h : ∀ a, Marks P s (R a) (f a)) (hkeeps : ∀ a, Keeps P (f a)) :
    ∀ l : List α, Marks P s (∃ a ∈ l, R a) (firstOf f l)
  | [] => ⟨fun _ => rfl, fun ⟨_, hmem, _⟩ => absurd hmem not_mem_nil⟩
  | a :: l => by
    by_cases ha : R a
    · refine ⟨fun hnot => absurd ⟨a, mem_cons_self, ha⟩ hnot, fun _ => ?_⟩
      have hmark := (h a).marks ha
      have hfirst : Attempt.answer (f a) s = (some (f a s).1, (f a s).2) := rfl
      rw [Attempt.firstOf, bind_of_some hfirst]
      cases (f a s).1 with
      | none => exact Keeps.firstOf hkeeps l _ hmark
      | some b => exact hmark
    · have hfirst : Attempt.answer (f a) s = (some none, s) := by
        rw [answer_apply, (h a).fails ha]
      exact ((firstOf h hkeeps l).congr (by simp [ha])).of_eq (bind_of_some hfirst)

end Marks

end Attempt

end KernelBoot.Lib
