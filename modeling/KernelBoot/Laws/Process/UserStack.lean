import KernelBoot.Lib.Words
import KernelBoot.Laws.Process.StackLayout
import KernelBoot.Laws.Process.StackScratch

/-!
# What the initial user stack holds

Whenever `process_prepare_user_stack` succeeds, the program finds at its stack pointer the argument
count, the pointers to the path and to the words of the arguments, a null, the pointers to the entries
of the environment and a null. The tokenizer reads one word after the other as the grammar of
`Lib.Words` has them.
-/

namespace KernelBoot.Process

open Lib Lib.Attempt Mm List Option

variable {rest : List UInt8}

/-! ## The tokens -/

/-- Blanks, quotes and the backslash of the argument string. -/
def argumentSyntax : WordSyntax UInt8 where
  blank byte := isBlank byte = true
  quote byte := isQuote byte = true
  escape := backslash
  blank_quote byte hblank := by
    simp only [isBlank, Bool.or_eq_true, beq_iff_eq] at hblank
    rcases hblank with rfl | rfl
    · decide
    · decide
  escape_blank := by decide
  escape_quote := by decide

open WordSyntax

/-- What is still to be read of a token, behind the rest of a part in quotes if one is open. -/
def RemainingText (quote : UInt8) (text value : List UInt8) : Prop :=
  if quote = 0 then Spells argumentSyntax text value
  else ∃ inner value₁ text₂ value₂, text = inner ++ quote :: text₂ ∧ value = value₁ ++ value₂ ∧
    Quoted argumentSyntax quote inner value₁ ∧ Spells argumentSyntax text₂ value₂

/-- The same, with the character behind an escape before it. -/
def Remaining (quote : UInt8) (escaped : Bool) (text value : List UInt8) : Prop :=
  if escaped then
    ∃ c text' value', text = c :: text' ∧ value = c :: value' ∧ RemainingText quote text' value'
  else RemainingText quote text value

section Steps

variable {quote c : UInt8} {text value : List UInt8}

theorem remaining_unescaped {escaped : Bool} (hescaped : ¬escaped = true) :
    Remaining quote escaped text value ↔ RemainingText quote text value := by
  rw [Remaining, if_neg hescaped]

theorem remaining_backslash (h : Remaining quote true text value) :
    RemainingText quote (backslash :: text) value := by
  rw [Remaining, if_pos rfl] at h
  obtain ⟨c, text, value, rfl, rfl, h⟩ := h
  unfold RemainingText at h ⊢
  split at h
  next hquote =>
    rw [if_pos hquote]
    exact .escaped h
  next hquote =>
    rw [if_neg hquote]
    obtain ⟨inner, value₁, text₂, value₂, rfl, rfl, hinner, hrest⟩ := h
    exact ⟨backslash :: c :: inner, c :: value₁, text₂, value₂, rfl, rfl, .escaped hinner, hrest⟩

theorem remaining_close (hquote : quote ≠ 0) (h : RemainingText 0 text value) :
    RemainingText quote (quote :: text) value := by
  rw [RemainingText, if_pos rfl] at h
  rw [RemainingText, if_neg hquote]
  exact ⟨[], [], text, value, rfl, rfl, .nil, h⟩

theorem remaining_quoted (hquote : quote ≠ 0) (hc : c ≠ quote) (hescape : c ≠ backslash)
    (h : RemainingText quote text value) : RemainingText quote (c :: text) (c :: value) := by
  rw [RemainingText, if_neg hquote] at h ⊢
  obtain ⟨inner, value₁, text₂, value₂, rfl, rfl, hinner, hrest⟩ := h
  exact ⟨c :: inner, c :: value₁, text₂, value₂, rfl, rfl, .char hc hescape hinner, hrest⟩

theorem remaining_open (hc : isQuote c = true) (h : RemainingText c text value) :
    RemainingText 0 (c :: text) value := by
  have hne : c ≠ 0 := by
    rintro rfl
    cases hc
  rw [RemainingText, if_neg hne] at h
  obtain ⟨inner, value₁, text₂, value₂, rfl, rfl, hinner, hrest⟩ := h
  rw [RemainingText, if_pos rfl]
  exact .quoted hc hinner hrest

theorem remaining_plain (hblank : ¬isBlank c = true) (hquote : ¬isQuote c = true) (hescape : c ≠ backslash)
    (h : RemainingText 0 text value) : RemainingText 0 (c :: text) (c :: value) := by
  rw [RemainingText, if_pos rfl] at h ⊢
  exact .plain hblank hquote hescape h

end Steps

/-- The token loop reads what is left of a token, up to a place where a word may end. -/
theorem tokenLoop_sound {rest' : List UInt8} {s t : TokenState}
    (h : tokenLoop rest s = some (t, rest')) (hquote : t.quote = 0) (hescaped : t.escaped = false) :
    ∃ text value ending, rest = text ++ ending ∧ Ends argumentSyntax ending ∧ rest' = ending.tail ∧
      t.token = s.token ++ value ∧ Remaining s.quote s.escaped text value := by
  induction rest generalizing s with
  | nil =>
    cases h
    refine ⟨[], [], [], rfl, .nil, rfl, (append_nil _).symm, ?_⟩
    rw [hquote, hescaped, remaining_unescaped Bool.false_ne_true, RemainingText, if_pos rfl]
    exact .nil
  | cons c rest ih =>
    rw [tokenLoop] at h
    split_ifs at h with hs _ hbackslash hq hclose _ hopen hblank
    · -- behind an escape
      obtain ⟨text, value, ending, rfl, hends, htail, htoken, hrest⟩ := ih h
      rw [remaining_unescaped Bool.false_ne_true] at hrest
      refine ⟨c :: text, c :: value, ending, rfl, hends, htail, ?_, ?_⟩
      · rw [htoken, append_assoc, singleton_append]
      · rw [hs, Remaining, if_pos rfl]
        exact ⟨c, text, value, rfl, rfl, hrest⟩
    · -- the escape itself
      obtain ⟨text, value, ending, rfl, hends, htail, htoken, hrest⟩ := ih h
      subst hbackslash
      exact ⟨backslash :: text, value, ending, rfl, hends, htail, htoken,
        (remaining_unescaped hs).mpr (remaining_backslash hrest)⟩
    · -- the closing quote
      obtain ⟨text, value, ending, rfl, hends, htail, htoken, hrest⟩ := ih h
      rw [remaining_unescaped hs] at hrest
      rw [hclose]
      exact ⟨s.quote :: text, value, ending, rfl, hends, htail, htoken,
        (remaining_unescaped hs).mpr (remaining_close hq hrest)⟩
    · -- between quotes
      obtain ⟨text, value, ending, rfl, hends, htail, htoken, hrest⟩ := ih h
      rw [remaining_unescaped hs] at hrest
      refine ⟨c :: text, c :: value, ending, rfl, hends, htail, ?_,
        (remaining_unescaped hs).mpr (remaining_quoted hq hclose hbackslash hrest)⟩
      rw [htoken, append_assoc, singleton_append]
    · -- an opening quote
      obtain ⟨text, value, ending, rfl, hends, htail, htoken, hrest⟩ := ih h
      rw [remaining_unescaped hs] at hrest
      refine ⟨c :: text, value, ending, rfl, hends, htail, htoken, (remaining_unescaped hs).mpr ?_⟩
      rw [not_not.mp hq]
      exact remaining_open hopen hrest
    · -- the blank behind the token
      cases h
      refine ⟨[], [], c :: rest', rfl, .blank hblank, rfl, (append_nil _).symm, ?_⟩
      rw [remaining_unescaped hs, hquote, RemainingText, if_pos rfl]
      exact .nil
    · -- any other character
      obtain ⟨text, value, ending, rfl, hends, htail, htoken, hrest⟩ := ih h
      rw [remaining_unescaped hs, not_not.mp hq] at hrest
      refine ⟨c :: text, c :: value, ending, rfl, hends, htail, ?_, (remaining_unescaped hs).mpr ?_⟩
      · rw [htoken, append_assoc, singleton_append]
      · rw [not_not.mp hq]
        exact remaining_plain hblank hopen hbackslash hrest

/-- Behind the blanks no word ends. -/
theorem not_ends_dropWhile (h : ¬(rest.dropWhile isBlank).length = 0) :
    ¬Ends argumentSyntax (rest.dropWhile isBlank) := by
  intro hends
  have hne : rest.dropWhile isBlank ≠ [] := fun hnil => h (length_eq_zero_iff.mpr hnil)
  have hhead := head_dropWhile_not isBlank hne
  generalize rest.dropWhile isBlank = list at hends hne hhead
  cases hends with
  | nil => exact hne rfl
  | blank hblank => exact Bool.false_ne_true (hhead.symm.trans hblank)

/-- The tokens are the words of the arguments. -/
theorem argumentTokens_split {tokens tokens' : List (List UInt8)}
    (h : argumentTokens rest tokens = some tokens') :
    ∃ words, tokens' = tokens ++ words ∧ Split argumentSyntax rest words := by
  fun_induction argumentTokens rest tokens with
  | case1 rest tokens hempty =>
    cases h
    refine ⟨[], (append_nil _).symm, .done fun c hc => ?_⟩
    have hnil := dropWhile_eq_nil_iff.mp (length_eq_zero_iff.mp hempty)
    exact hnil c hc
  | case2 => cases h
  | case3 => cases h
  | case4 => cases h
  | case5 rest tokens hempty hfull s rest' hloop hgood ih =>
    obtain ⟨words, rfl, hsplit⟩ := ih h
    simp only [not_or, not_not, Bool.not_eq_true, Bool.not_eq_true'] at hgood
    obtain ⟨text, value, ending, hrest, hends, rfl, htoken, hremaining⟩ :=
      tokenLoop_sound hloop hgood.1 hgood.2.1
    rw [TokenState.initial, remaining_unescaped Bool.false_ne_true, RemainingText,
      if_pos rfl] at hremaining
    refine ⟨value :: words, ?_, ?_⟩
    · rw [htoken, append_assoc]
      rfl
    · have hne : text ≠ [] := by
        rintro rfl
        exact not_ends_dropWhile hempty (hrest ▸ hends)
      have hending : Split argumentSyntax ending words := by
        cases hends with
        | nil => exact hsplit
        | blank hblank => exact hsplit.cons_blank hblank
      rw [← takeWhile_append_dropWhile (p := isBlank) (l := rest), hrest]
      exact .word (fun c hc => mem_takeWhile_imp hc) hremaining hne hends hending

theorem terminated_of_nonzero {token : List UInt8} (h : (0 : UInt8) ∉ token) :
    terminated token = token ++ [0] := by
  rw [terminated, takeWhile_eq_self_iff.mpr]
  intro byte hbyte
  rw [decide_eq_true_eq]
  rintro rfl
  exact h hbyte

/-! ## The environment -/

/-- What is left of a block whose last byte is zero. -/
def EndsWithZero (rest : List UInt8) : Prop := rest = [] ∨ rest.getLast? = some 0

/-- An entry of such a block has its zero byte behind it. -/
theorem EndsWithZero.split (h : EndsWithZero rest) (hfollows : entryFollows rest = true) :
    ∃ tail, rest = entryAt rest ++ 0 :: tail ∧ EndsWithZero tail := by
  rcases h with rfl | hlast
  · cases hfollows
  have hmem : (0 : UInt8) ∈ rest := mem_of_getLast? hlast
  cases htail : rest.dropWhile (· ≠ 0) with
  | nil =>
    have hall := dropWhile_eq_nil_iff.mp htail 0 hmem
    exact absurd hall (by decide)
  | cons byte tail =>
    have hzero : byte = 0 := by
      have hhead := head?_dropWhile_not (· ≠ (0 : UInt8)) rest
      rw [htail] at hhead
      simpa using hhead
    have hsplit : rest = entryAt rest ++ 0 :: tail := by
      rw [← hzero, ← htail, entryAt, takeWhile_append_dropWhile]
    refine ⟨tail, hsplit, ?_⟩
    rw [hsplit, getLast?_append, getLast?_cons, some_or, some_inj] at hlast
    cases htail' : tail.getLast? with
    | none => exact .inl (getLast?_eq_none_iff.mp htail')
    | some last =>
      rw [htail', getD_some] at hlast
      exact .inr (htail'.trans (congrArg some hlast))

theorem EndsWithZero.entry (h : EndsWithZero rest) (hfollows : entryFollows rest = true)
    (behind : UInt8) : (rest ++ [behind]).take ((entryAt rest).length + 1) = entryAt rest ++ [0] ∧
      EndsWithZero (rest.drop ((entryAt rest).length + 1)) := by
  obtain ⟨tail, hsplit, htail⟩ := h.split hfollows
  generalize entryAt rest = entry at hsplit ⊢
  subst hsplit
  rw [append_cons entry 0 tail]
  have hlength : entry.length + 1 = (entry ++ [0]).length := by
    rw [length_append, length_singleton]
  rw [hlength, append_assoc (entry ++ [0]), take_left, drop_left]
  exact ⟨rfl, htail⟩

/-- The scan finds the entries, each with its terminator. -/
theorem environmentScan_entries {behind : UInt8} {entries found : List (List UInt8)}
    (h : environmentScan behind rest entries = some found) (hzero : EndsWithZero rest) :
    found = entries ++ (environmentEntries rest).map (· ++ [0]) := by
  fun_induction environmentScan behind rest entries with
  | case1 => cases h
  | case2 rest entries hfollows hfull ih =>
    obtain ⟨hentry, hdrop⟩ := hzero.entry hfollows behind
    have hentries : environmentEntries rest = entryAt rest ::
        environmentEntries (rest.drop ((entryAt rest).length + 1)) := by
      rw [environmentEntries, dif_pos hfollows]
    rw [ih h hdrop, hentry, hentries, map_cons, append_assoc, singleton_append]
  | case3 rest entries hend =>
    cases h
    rw [environmentEntries, dif_neg hend, map_nil, append_nil]

theorem copyOthers_length {key updated updated' : List UInt8}
    (h : copyOthers key rest updated = some updated')
    (hlength : updated.length < processEnvironmentSize) :
    updated'.length < processEnvironmentSize := by
  fun_induction copyOthers key rest updated with
  | case1 => cases h
  | case2 rest updated hfollows entry hother hfull ih =>
    refine ih h ?_
    rw [length_append, length_take]
    omega
  | case3 rest updated hfollows entry hmatches ih => exact ih h hlength
  | case4 =>
    cases h
    exact hlength

theorem ofWritten_endsWithZero {written : List UInt8} (h : written.length < processEnvironmentSize) :
    EndsWithZero (Environment.ofWritten written).bytes := by
  right
  obtain ⟨n, hn⟩ := Nat.exists_eq_add_of_lt h
  have hzeros : processEnvironmentSize - written.length = n + 1 := by omega
  rw [ofWritten_bytes (Nat.le_of_lt h), hzeros, replicate_succ', ← append_assoc,
    getLast?_concat]

theorem EnvironmentCall.effect_endsWithZero (environment : Environment) (call : EnvironmentCall)
    (h : EndsWithZero environment.bytes) : EndsWithZero (call.effect environment).2.bytes := by
  cases call with
  | set key value =>
    rw [EnvironmentCall.effect]
    fun_cases processEnvironmentSet environment key value
    · exact h
    · exact h
    · exact h
    · exact h
    · refine ofWritten_endsWithZero ?_
      simp only [length_append, length_cons]
      omega
  | unset key =>
    rw [EnvironmentCall.effect]
    fun_cases processEnvironmentUnset environment key
    · exact h
    · exact h
    next hcopy => exact ofWritten_endsWithZero (copyOthers_length hcopy (by decide))

theorem environment_endsWithZero (calls : List EnvironmentCall) :
    EndsWithZero (run (fun e call => (EnvironmentCall.effect e call).2) environmentInitial calls).bytes :=
  run_keeps_any EnvironmentCall.effect_endsWithZero (ofWritten_endsWithZero (by decide)) calls

/-! ## The stack -/

theorem kfree_physical {heap heap' : Heap} {pointer : Nat} (h : kfree heap pointer = some heap') :
    heap'.physical = heap.physical := by
  revert h
  fun_cases kfree heap pointer
  · rintro ⟨⟩
    rfl
  · rintro ⟨⟩
    rfl
  · rintro ⟨⟩
  · rintro ⟨⟩
    rfl

/-- A call that succeeds: what the scans found, and the writes. -/
theorem prepareUserStack_eq_some {process : StackOwner} {path arguments : CString} {heap heap' : Heap}
    {pointer : Nat} (h : processPrepareUserStack process path arguments heap = some (some pointer, heap')) :
    ∃ stack environment tokens memory, process.stack = some stack ∧
      environmentScan process.behind process.environment.bytes [] = some environment ∧
      argumentTokens arguments.bytes [] = some tokens ∧
      buildUserStack stack (path.bytes ++ [0]) (tokens.map terminated) environment memory =
        (some pointer, heap'.physical.memory) := by
  revert h
  fun_cases processPrepareUserStack process path arguments heap
  · rintro ⟨⟩
  · rintro ⟨⟩
  · rintro ⟨⟩
  · rintro ⟨⟩
  · rintro ⟨⟩
  · intro h
    obtain ⟨_, _, h⟩ := map_eq_some_iff.mp h
    cases h
  next stack hstack _ _ heap₁ _ _ environment henvironment tokens htokens _ _ hbuilt =>
    intro h
    obtain ⟨freed, hfree, h⟩ := map_eq_some_iff.mp h
    have hphysical := kfree_physical hfree
    obtain ⟨hresult, rfl⟩ := Prod.mk.inj h
    refine ⟨stack, environment, tokens, heap₁.physical.memory, hstack, henvironment, htokens, ?_⟩
    rw [hphysical]
    exact hresult ▸ hbuilt

/-- A process as `process_create` makes it, with a stack. -/
def firstOwner : StackOwner := { sampleOwner [] with environment := environmentInitial }

theorem firstOwner_entries : environmentEntries firstOwner.environment.bytes = [defaultEnvironment] := by
  have hbytes : firstOwner.environment.bytes = (sampleOwner [defaultEnvironment]).environment.bytes :=
    ofWritten_zero (by decide)
  rw [hbytes, sampleOwner_entries (by decide) (by decide)]

theorem firstOwner_prepared : ∃ pointer heap',
    processPrepareUserStack firstOwner emptyString emptyString bootHeap = some (some pointer, heap') := by
  obtain ⟨build, heap₁, hallocated, hbuild⟩ := (sampleOwner_allocates []).kmalloc
  obtain ⟨_, _, hkmalloc, ⟨rfl, -⟩ | ⟨-, before, after, -, hholds⟩⟩ :=
    kmalloc_live bootHeap_isHeap sizeofProcessStackBuild
  · cases hallocated.symm.trans hkmalloc
    exact absurd rfl hbuild
  · cases hallocated.symm.trans hkmalloc
    have hscan := environmentScan_isNone_iff firstOwner.behind firstOwner.environment.bytes [] (by decide)
    rw [firstOwner_entries] at hscan
    obtain ⟨environment, henvironment⟩ := ne_none_iff_exists'.mp (mt hscan.mp (by decide))
    have hfound := environmentScan_entries henvironment (environment_endsWithZero [])
    rw [firstOwner_entries] at hfound
    subst hfound
    obtain ⟨pointer, memory', hwritten⟩ : ∃ pointer memory', buildUserStack sampleStack [0] []
        ([defaultEnvironment].map (· ++ [0])) heap₁.physical.memory = (some pointer, memory') :=
      ⟨_, _, rfl⟩
    have hholds' : Holds (withMemory heap₁ memory') build before after := hholds.withPhysical _
    obtain ⟨freed, hfree, -⟩ := hholds'.kfree
    refine ⟨pointer, freed, ?_⟩
    have htokens : argumentTokens emptyString.bytes [] = some [] := by
      rw [argumentTokens, if_pos]
      rfl
    rw [processPrepareUserStack]
    simp only [firstOwner, sampleOwner] at henvironment ⊢
    rw [if_neg (by decide), hkmalloc]
    simp only
    rw [if_neg hbuild, henvironment, htokens]
    have hbuilt : buildUserStack sampleStack (emptyString.bytes ++ [0]) (List.map terminated [])
        ([] ++ [defaultEnvironment].map (· ++ [0])) heap₁.physical.memory = (some pointer, memory') :=
      hwritten
    simp only
    rw [hbuilt, hfree, map_some]

end KernelBoot.Process
