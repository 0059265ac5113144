import Mathlib.Data.List.Basic

/-!
# Runs of a deterministic step

A component is a state type, a type of calls and a step function; a run is a list of calls. The
induction over runs is packaged here once. `run_keeps` is the invariant rule: what every legal step
preserves holds after every run of legal steps. `always_iff_each` is its exact form: when a step
keeps a property precisely under a condition on the state and the call, the property holds in every
state of a run precisely when every step of the run meets the condition.
-/

namespace KernelBoot.Lib

variable {σ α : Type*}

/-- The state after a list of calls. -/
def run (step : σ → α → σ) : σ → List α → σ
  | s, [] => s
  | s, a :: as => run step (step s a) as

/-- Every call of the run meets `C` in the state it is made in. -/
def Each (step : σ → α → σ) (C : σ → α → Prop) : σ → List α → Prop
  | _, [] => True
  | s, a :: as => C s a ∧ Each step C (step s a) as

/-- `P` holds in every state of the run, the first and the last included. -/
def Always (step : σ → α → σ) (P : σ → Prop) : σ → List α → Prop
  | s, [] => P s
  | s, a :: as => P s ∧ Always step P (step s a) as

variable {step : σ → α → σ}
variable {C D : σ → α → Prop} {s : σ} {as : List α} {I P : σ → Prop}

@[simp] theorem run_nil (s : σ) : run step s [] = s := rfl

@[simp] theorem run_cons (s : σ) (a : α) (as : List α) :
    run step s (a :: as) = run step (step s a) as := rfl

theorem run_append (s : σ) (as bs : List α) :
    run step s (as ++ bs) = run step (run step s as) bs := by
  induction as generalizing s with
  | nil => rfl
  | cons a as ih => exact ih (step s a)

theorem each_append (s : σ) (as bs : List α) :
    Each step C s (as ++ bs) ↔ Each step C s as ∧ Each step C (run step s as) bs := by
  induction as generalizing s with
  | nil => exact ⟨fun h => ⟨trivial, h⟩, fun h => h.2⟩
  | cons a as ih =>
    simp only [List.cons_append, Each, run_cons, ih, and_assoc]

theorem each_of_forall (h : ∀ s a, C s a) (s : σ) (as : List α) : Each step C s as := by
  induction as generalizing s with
  | nil => exact trivial
  | cons a as ih => exact ⟨h s a, ih (step s a)⟩

theorem each_imp (h : ∀ s a, C s a → D s a) (hC : Each step C s as) : Each step D s as := by
  induction as generalizing s with
  | nil => exact trivial
  | cons a as ih => exact ⟨h s a hC.1, ih hC.2⟩

theorem each_of_mem {C : α → Prop} (s : σ) (h : ∀ a ∈ as, C a) :
    Each step (fun _ a => C a) s as := by
  induction as generalizing s with
  | nil => exact trivial
  | cons a as ih =>
    exact ⟨h a List.mem_cons_self, ih (step s a) fun b hb => h b (List.mem_cons_of_mem a hb)⟩

section Watch

variable {τ : Type*} {watched : τ → α → τ} {state : τ → σ}

/-- A system that runs another one and keeps notes: the state it watches is the state of the run. -/
theorem run_watched (h : ∀ t a, state (watched t a) = step (state t) a) (t : τ) (as : List α) :
    state (run watched t as) = run step (state t) as := by
  induction as generalizing t with
  | nil => rfl
  | cons a as ih => rw [run_cons, run_cons, ih, h]

theorem each_watched (h : ∀ t a, state (watched t a) = step (state t) a) (t : τ) (as : List α) :
    Each watched (fun t => C (state t)) t as ↔ Each step C (state t) as := by
  induction as generalizing t with
  | nil => exact Iff.rfl
  | cons a as ih =>
    rw [Each, Each, ih, h]

end Watch

/-- The invariant rule: a property every legal step keeps holds after every legal run. -/
theorem run_keeps (hstep : ∀ s a, P s → C s a → P (step s a)) (hs : P s) (hlegal : Each step C s as) :
    P (run step s as) := by
  induction as generalizing s with
  | nil => exact hs
  | cons a as ih => exact ih (hstep s a hs hlegal.1) hlegal.2

/-- The invariant rule with no condition on the calls. -/
theorem run_keeps_any (hstep : ∀ s a, P s → P (step s a)) (hs : P s) (as : List α) :
    P (run step s as) := by
  induction as generalizing s with
  | nil => exact hs
  | cons a as ih => exact ih (hstep s a hs)

/-- Two conditions that agree in the states an invariant describes hold of the same legal runs. -/
theorem each_iff_each {L : σ → α → Prop} (hI : ∀ s a, I s → L s a → I (step s a))
    (hiff : ∀ s a, I s → L s a → (C s a ↔ D s a)) (hs : I s) (hlegal : Each step L s as) :
    Each step C s as ↔ Each step D s as := by
  induction as generalizing s with
  | nil => exact Iff.rfl
  | cons a as ih => exact and_congr (hiff s a hs hlegal.1) (ih (hI s a hs hlegal.1) hlegal.2)

/-- What an invariant and the condition on a call imply holds of every call of a legal run. -/
theorem each_of_keeps (hD : ∀ s a, I s → C s a → D s a) (hstep : ∀ s a, I s → C s a → I (step s a))
    (hs : I s) (hlegal : Each step C s as) : Each step D s as := by
  induction as generalizing s with
  | nil => exact trivial
  | cons a as ih => exact ⟨hD s a hs hlegal.1, ih (hstep s a hs hlegal.1) hlegal.2⟩

/-- What an invariant implies holds in every state of a legal run. -/
theorem always_of_keeps (hP : ∀ s, I s → P s) (hstep : ∀ s a, I s → C s a → I (step s a)) (hs : I s)
    (hlegal : Each step C s as) : Always step P s as := by
  induction as generalizing s with
  | nil => exact hP s hs
  | cons a as ih => exact ⟨hP s hs, ih (hstep s a hs hlegal.1) hlegal.2⟩

/-- A property kept exactly under `C`, in states that an invariant `I` describes, holds along a run
exactly when each of its steps meets `C`. -/
theorem always_iff_each {L : σ → α → Prop} (hI : ∀ s a, I s → L s a → I (step s a))
    (hP : ∀ s a, I s → L s a → P s → (P (step s a) ↔ C s a)) (hs : I s) (hp : P s)
    (hlegal : Each step L s as) : Always step P s as ↔ Each step C s as := by
  induction as generalizing s with
  | nil => exact ⟨fun _ => trivial, fun _ => hp⟩
  | cons a as ih =>
    obtain ⟨hl, hrest⟩ := hlegal
    have hnext := hP s a hs hl hp
    have hinv := hI s a hs hl
    constructor
    · intro h
      -- the tail's first state already tells that `P` survived this step
      have hpa : P (step s a) := by
        cases as with
        | nil => exact h.2
        | cons b bs => exact h.2.1
      exact ⟨hnext.mp hpa, (ih hinv hpa hrest).mp h.2⟩
    · intro h
      have hpa := hnext.mpr h.1
      exact ⟨hp, (ih hinv hpa hrest).mpr h.2⟩

end KernelBoot.Lib
