import KernelBoot.Lib.Run

/-!
# Refinement along runs

A component answers its calls; a specification says, for a call and an answer, which abstract states
may follow. If an abstraction function turns every legal call of the component into a step of the
specification with the same answer, then every legal run is a run of the specification with the same
answers, call by call.
-/

namespace KernelBoot.Lib

variable {σ τ α β : Type*}

/-- The calls of a run, each with the answer it got. -/
def outcomes (effect : σ → α → β × σ) : σ → List α → List (α × β)
  | _, [] => []
  | s, a :: as => (a, (effect s a).1) :: outcomes effect (effect s a).2 as

/-- A run of a specification, with the calls and answers along it. -/
inductive Trace (Step : τ → α → β → τ → Prop) : τ → List (α × β) → τ → Prop
  | nil (t : τ) : Trace Step t [] t
  | cons {t t' t'' : τ} {a : α} {b : β} {rest : List (α × β)} (first : Step t a b t')
      (more : Trace Step t' rest t'') : Trace Step t ((a, b) :: rest) t''

/-- The simulation rule. -/
theorem run_refines (effect : σ → α → β × σ) (Step : τ → α → β → τ → Prop) (abs : σ → τ)
    {I : σ → Prop} {L : σ → α → Prop}
    (hstep : ∀ s a, I s → L s a → I (effect s a).2 ∧
      Step (abs s) a (effect s a).1 (abs (effect s a).2))
    {s : σ} (hs : I s) {as : List α} (hlegal : Each (fun s a => (effect s a).2) L s as) :
    I (run (fun s a => (effect s a).2) s as) ∧
      Trace Step (abs s) (outcomes effect s as) (abs (run (fun s a => (effect s a).2) s as)) := by
  induction as generalizing s with
  | nil => exact ⟨hs, Trace.nil _⟩
  | cons a as ih =>
    obtain ⟨hl, hrest⟩ := hlegal
    obtain ⟨hinv, hfirst⟩ := hstep s a hs hl
    obtain ⟨hend, hmore⟩ := ih hinv hrest
    exact ⟨hend, Trace.cons hfirst hmore⟩

/-- Where the specification computes its next state, its runs compute their last. -/
theorem Trace.eq_foldl {next : τ → α × β → τ} {t t' : τ} {events : List (α × β)}
    (h : Trace (fun t a b t' => t' = next t (a, b)) t events t') : t' = events.foldl next t := by
  induction h with
  | nil t => rfl
  | cons first more ih => rw [List.foldl_cons, ← first, ih]

end KernelBoot.Lib
