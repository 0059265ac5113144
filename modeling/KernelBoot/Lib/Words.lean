import Mathlib

/-!
# Splitting a text into words

The words of a command line: separated by blanks, with parts in quotes, and an escape that takes the
next character as it is, in quotes as outside. `Spells text value` says what a piece of text without
blanks outside quotes stands for, and `Split text words` how a text falls into words. A text falls into
words in at most one way (`Split.unique`).
-/

namespace KernelBoot.Lib

open List

/-- The characters with a meaning; no character has two. -/
structure WordSyntax (α : Type*) where
  blank : α → Prop
  quote : α → Prop
  escape : α
  blank_quote : ∀ c, blank c → ¬quote c
  escape_blank : ¬blank escape
  escape_quote : ¬quote escape

namespace WordSyntax

variable {α : Type*} {σ : WordSyntax α}

/-- The text between two quotes `q`, and what it stands for. -/
inductive Quoted (σ : WordSyntax α) (q : α) : List α → List α → Prop
  | nil : Quoted σ q [] []
  | char {c : α} {text value : List α} (hquote : c ≠ q) (hescape : c ≠ σ.escape)
      (h : Quoted σ q text value) : Quoted σ q (c :: text) (c :: value)
  | escaped {c : α} {text value : List α} (h : Quoted σ q text value) :
      Quoted σ q (σ.escape :: c :: text) (c :: value)

/-- A text with no blank outside quotes, and what it stands for. -/
inductive Spells (σ : WordSyntax α) : List α → List α → Prop
  | nil : Spells σ [] []
  | plain {c : α} {text value : List α} (hblank : ¬σ.blank c) (hquote : ¬σ.quote c)
      (hescape : c ≠ σ.escape) (h : Spells σ text value) : Spells σ (c :: text) (c :: value)
  | escaped {c : α} {text value : List α} (h : Spells σ text value) :
      Spells σ (σ.escape :: c :: text) (c :: value)
  | quoted {q : α} {inner text value value' : List α} (hq : σ.quote q) (hinner : Quoted σ q inner value)
      (h : Spells σ text value') : Spells σ (q :: (inner ++ q :: text)) (value ++ value')

/-- Where a word may end: at the end of the text, or before a blank. -/
inductive Ends (σ : WordSyntax α) : List α → Prop
  | nil : Ends σ []
  | blank {c : α} {rest : List α} (h : σ.blank c) : Ends σ (c :: rest)

/-- A text and its words. -/
inductive Split (σ : WordSyntax α) : List α → List (List α) → Prop
  | done {blanks : List α} (hblanks : ∀ c ∈ blanks, σ.blank c) : Split σ blanks []
  | word {blanks text rest value : List α} {words : List (List α)} (hblanks : ∀ c ∈ blanks, σ.blank c)
      (hspells : Spells σ text value) (hnonempty : text ≠ []) (hends : Ends σ rest)
      (h : Split σ rest words) : Split σ (blanks ++ (text ++ rest)) (value :: words)

theorem Quoted.unique {q : α} {text value text' value' rest rest' : List α} (hq : q ≠ σ.escape)
    (h : Quoted σ q text value) (h' : Quoted σ q text' value')
    (heq : text ++ q :: rest = text' ++ q :: rest') : text = text' ∧ value = value' ∧ rest = rest' := by
  induction h generalizing text' value' with
  | nil =>
    cases h' with
    | nil => exact ⟨rfl, rfl, (cons.inj heq).2⟩
    | char hquote => exact absurd (cons.inj heq).1.symm hquote
    | escaped => exact absurd (cons.inj heq).1 hq
  | char hquote hescape _ ih =>
    cases h' with
    | nil => exact absurd (cons.inj heq).1 hquote
    | char _ _ hrest =>
      obtain ⟨rfl, htail⟩ := cons.inj heq
      obtain ⟨rfl, rfl, rfl⟩ := ih hrest htail
      exact ⟨rfl, rfl, rfl⟩
    | escaped => exact absurd (cons.inj heq).1 hescape
  | escaped _ ih =>
    cases h' with
    | nil => exact absurd (cons.inj heq).1.symm hq
    | char _ hescape => exact absurd (cons.inj heq).1.symm hescape
    | escaped hrest =>
      obtain ⟨rfl, htail⟩ := cons.inj (cons.inj heq).2
      obtain ⟨rfl, rfl, rfl⟩ := ih hrest htail
      exact ⟨rfl, rfl, rfl⟩

/-- A text that spells something does not begin where a word may end. -/
theorem Spells.eq_nil_of_ends {text value rest whole : List α} (h : Spells σ text value)
    (hends : Ends σ whole) (heq : text ++ rest = whole) : text = [] := by
  subst heq
  cases h with
  | nil => rfl
  | plain hblank =>
    cases hends with
    | blank hb => exact absurd hb hblank
  | escaped =>
    cases hends with
    | blank hb => exact absurd hb σ.escape_blank
  | quoted hq =>
    cases hends with
    | blank hb => exact absurd hq (σ.blank_quote _ hb)

/-- A word goes up to the first place where it may end. -/
theorem Spells.unique {text value text' value' rest rest' : List α} (h : Spells σ text value)
    (h' : Spells σ text' value') (hends : Ends σ rest) (hends' : Ends σ rest')
    (heq : text ++ rest = text' ++ rest') : text = text' ∧ value = value' ∧ rest = rest' := by
  induction h generalizing text' value' with
  | nil =>
    have hnil : text' = [] := h'.eq_nil_of_ends hends heq.symm
    subst hnil
    cases h'
    exact ⟨rfl, rfl, heq⟩
  | @plain c text value hblank hquote hescape htext ih =>
    cases h' with
    | nil => cases (Spells.plain hblank hquote hescape htext).eq_nil_of_ends hends' heq
    | plain _ _ _ hrest =>
      obtain ⟨rfl, htail⟩ := cons.inj heq
      obtain ⟨rfl, rfl, rfl⟩ := ih hrest htail
      exact ⟨rfl, rfl, rfl⟩
    | escaped => exact absurd (cons.inj heq).1 hescape
    | quoted hq => exact absurd ((cons.inj heq).1 ▸ hq) hquote
  | escaped htext ih =>
    cases h' with
    | nil => cases (Spells.escaped htext).eq_nil_of_ends hends' heq
    | plain _ _ hescape => exact absurd (cons.inj heq).1.symm hescape
    | escaped hrest =>
      obtain ⟨rfl, htail⟩ := cons.inj (cons.inj heq).2
      obtain ⟨rfl, rfl, rfl⟩ := ih hrest htail
      exact ⟨rfl, rfl, rfl⟩
    | quoted hq => exact absurd ((cons.inj heq).1 ▸ hq) σ.escape_quote
  | quoted hq hinner htext ih =>
    cases h' with
    | nil => cases (Spells.quoted hq hinner htext).eq_nil_of_ends hends' heq
    | plain _ hquote => exact absurd ((cons.inj heq).1 ▸ hq) hquote
    | escaped => exact absurd ((cons.inj heq).1 ▸ hq) σ.escape_quote
    | quoted hq' hinner' hrest =>
      rw [cons_append, cons_append, append_assoc, append_assoc] at heq
      obtain ⟨rfl, htail⟩ := cons.inj heq
      have hne : _ ≠ σ.escape := fun h => σ.escape_quote (h ▸ hq)
      obtain ⟨rfl, rfl, htail⟩ := hinner.unique hne hinner' htail
      obtain ⟨rfl, rfl, rfl⟩ := ih hrest htail
      exact ⟨rfl, rfl, rfl⟩

/-- The first character of a text that spells something is no blank. -/
theorem Spells.head_not_blank {c : α} {text value : List α} (h : Spells σ (c :: text) value) :
    ¬σ.blank c := by
  intro hblank
  cases h.eq_nil_of_ends (.blank hblank) (append_nil _)

/-- The blanks before a word are those the text begins with. -/
theorem blanks_unique {blanks blanks' text text' value value' rest rest' : List α}
    (hblanks : ∀ c ∈ blanks, σ.blank c) (hblanks' : ∀ c ∈ blanks', σ.blank c)
    (hspells : Spells σ text value) (hspells' : Spells σ text' value') (hne : text ≠ [])
    (hne' : text' ≠ []) (heq : blanks ++ (text ++ rest) = blanks' ++ (text' ++ rest')) :
    blanks = blanks' := by
  induction blanks generalizing blanks' with
  | nil =>
    cases blanks' with
    | nil => rfl
    | cons b blanks' =>
      obtain ⟨c, text, rfl⟩ := exists_cons_of_ne_nil hne
      have hb := hblanks' b mem_cons_self
      exact absurd ((cons.inj heq).1 ▸ hb) hspells.head_not_blank
  | cons b blanks ih =>
    cases blanks' with
    | nil =>
      obtain ⟨c, text', rfl⟩ := exists_cons_of_ne_nil hne'
      have hb := hblanks b mem_cons_self
      exact absurd ((cons.inj heq).1 ▸ hb) hspells'.head_not_blank
    | cons b' blanks' =>
      obtain ⟨rfl, htail⟩ := cons.inj heq
      rw [ih (fun c hc => hblanks c (mem_cons_of_mem b hc))
        (fun c hc => hblanks' c (mem_cons_of_mem b hc)) htail]

/-- A text of blanks holds no word. -/
theorem not_blanks_of_word {blanks text rest value : List α} (hspells : Spells σ text value)
    (hne : text ≠ []) : ¬∀ c ∈ blanks ++ (text ++ rest), σ.blank c := by
  intro hall
  obtain ⟨c, text, rfl⟩ := exists_cons_of_ne_nil hne
  exact hspells.head_not_blank (hall c (mem_append_right blanks mem_cons_self))

theorem Split.unique {text : List α} {words words' : List (List α)} (h : Split σ text words)
    (h' : Split σ text words') : words = words' := by
  induction h generalizing words' with
  | done hblanks =>
    cases h' with
    | done => rfl
    | word _ hspells hne => exact absurd hblanks (not_blanks_of_word hspells hne)
  | @word blanks text rest value words hblanks hspells hne hends hrest ih =>
    generalize htext : blanks ++ (text ++ rest) = whole at h'
    cases h' with
    | done hblanks' => exact absurd (htext ▸ hblanks') (not_blanks_of_word hspells hne)
    | word hblanks' hspells' hne' hends' hrest' =>
      have hsame := blanks_unique hblanks hblanks' hspells hspells' hne hne' htext
      subst hsame
      obtain ⟨rfl, rfl, rfl⟩ := hspells.unique hspells' hends hends' (append_cancel_left htext)
      rw [ih hrest']

/-- One more blank in front makes no difference. -/
theorem Split.cons_blank {c : α} {text : List α} {words : List (List α)} (hc : σ.blank c)
    (h : Split σ text words) : Split σ (c :: text) words := by
  cases h with
  | done hblanks => exact .done (forall_mem_cons.mpr ⟨hc, hblanks⟩)
  | word hblanks hspells hne hends hrest =>
    rw [← cons_append]
    exact .word (forall_mem_cons.mpr ⟨hc, hblanks⟩) hspells hne hends hrest

/-- What a text stands for is made of its characters. -/
theorem Quoted.subset {q : α} {text value : List α} (h : Quoted σ q text value) : value ⊆ text := by
  induction h with
  | nil => exact Subset.refl _
  | char _ _ _ ih => exact cons_subset_cons _ ih
  | escaped _ ih => exact Subset.trans (cons_subset_cons _ ih) (subset_cons_self _ _)

theorem Spells.subset {text value : List α} (h : Spells σ text value) : value ⊆ text := by
  induction h with
  | nil => exact Subset.refl _
  | plain _ _ _ _ ih => exact cons_subset_cons _ ih
  | escaped _ ih => exact Subset.trans (cons_subset_cons _ ih) (subset_cons_self _ _)
  | quoted _ hinner _ ih =>
    intro c hc
    rcases mem_append.mp hc with h | h
    · exact mem_cons_of_mem _ (mem_append_left _ (hinner.subset h))
    · exact mem_cons_of_mem _ (mem_append_right _ (mem_cons_of_mem _ (ih h)))

theorem Split.subset {text : List α} {words : List (List α)} (h : Split σ text words) :
    ∀ word ∈ words, word ⊆ text := by
  induction h with
  | done => exact forall_mem_nil _
  | word _ hspells _ _ _ ih =>
    refine forall_mem_cons.mpr ⟨fun c hc => ?_, fun word hword c hc => ?_⟩
    · exact mem_append_right _ (mem_append_left _ (hspells.subset hc))
    · exact mem_append_right _ (mem_append_right _ (ih word hword hc))

end WordSyntax

end KernelBoot.Lib
