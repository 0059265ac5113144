import KernelBoot.Process.Environment
import KernelBoot.Lib.Refinement
import Mathlib.Data.List.Flatten
import Mathlib.Data.List.Nodup

/-!
# The environment is a finite map

`Packed environment bindings`: the block is the encoding of the bindings, each key once, followed by
zero bytes, at least one. On such a block the loops do what they should
(`environmentGetLoop_encode`, `copyOthers_encode`), so the three calls are those of a finite map, and
the block is packed again afterwards. `environment_isFiniteMap` replays a whole run of calls against
the map.
-/

namespace KernelBoot.Process

open Lib List

variable {b : Binding} {bindings : List Binding} {key value : List UInt8}
  {environment : Environment}

/-! ## Bindings and their encoding -/

/-- A key and its value. -/
abbrev Binding := List UInt8 × List UInt8

def encodeEntry (binding : Binding) : List UInt8 :=
  (binding.1 ++ equalsSign :: binding.2) ++ [0]

def encode (bindings : List Binding) : List UInt8 := bindings.flatMap encodeEntry

/-- A key `process_environment_set` accepts. -/
structure ValidKey (key : List UInt8) : Prop where
  nonempty : key ≠ []
  short : key.length ≤ 32
  separator : equalsSign ∉ key
  zero : (0 : UInt8) ∉ key

structure Binding.Wf (binding : Binding) : Prop where
  key : ValidKey binding.1
  value : (0 : UInt8) ∉ binding.2

/-- The block holds exactly these bindings, each key once, and ends with a zero byte. -/
structure Packed (environment : Environment) (bindings : List Binding) : Prop where
  bytes : environment.bytes =
    encode bindings ++ List.replicate (processEnvironmentSize - (encode bindings).length) 0
  fits : (encode bindings).length < processEnvironmentSize
  wf : ∀ b ∈ bindings, Binding.Wf b
  distinct : (bindings.map Prod.fst).Nodup

theorem encode_cons (b : Binding) (bindings : List Binding) :
    encode (b :: bindings) = encodeEntry b ++ encode bindings := rfl

theorem encode_append (bs cs : List Binding) : encode (bs ++ cs) = encode bs ++ encode cs :=
  flatMap_append

theorem encodeEntry_length (b : Binding) :
    (encodeEntry b).length = b.1.length + 1 + b.2.length + 1 := by
  rw [encodeEntry, length_append, length_append, length_cons, length_singleton]
  omega

/-! ## Reading one entry -/

theorem entryAt_encodeEntry (h : b.Wf) (tail : List UInt8) :
    entryAt (encodeEntry b ++ tail) = b.1 ++ equalsSign :: b.2 := by
  have hnonzero : ∀ byte ∈ b.1 ++ equalsSign :: b.2, decide (byte ≠ 0) = true := by
    simp only [decide_eq_true_eq, forall_mem_append, forall_mem_cons]
    exact ⟨fun byte hbyte => ne_of_mem_of_not_mem hbyte h.key.zero, by decide,
      fun byte hbyte => ne_of_mem_of_not_mem hbyte h.value⟩
  rw [entryAt, encodeEntry, append_assoc, takeWhile_append_of_pos hnonzero,
    singleton_append, takeWhile_cons_of_neg (by decide), append_nil]

theorem entryFollows_encodeEntry (h : b.Wf) (tail : List UInt8) :
    entryFollows (encodeEntry b ++ tail) = true := by
  obtain ⟨byte, key, hkey⟩ := exists_cons_of_ne_nil h.key.nonempty
  have hne : byte ≠ 0 := ne_of_mem_of_not_mem (hkey ▸ mem_cons_self) h.key.zero
  simp only [encodeEntry, hkey, cons_append, entryFollows, decide_eq_true_eq]
  exact hne

theorem beforeSeparator_entry (h : b.Wf) : beforeSeparator (b.1 ++ equalsSign :: b.2) = b.1 := by
  have hother : ∀ byte ∈ b.1, decide (byte ≠ equalsSign) = true := fun byte hbyte =>
    decide_eq_true (ne_of_mem_of_not_mem hbyte h.key.separator)
  rw [beforeSeparator, takeWhile_append_of_pos hother,
    takeWhile_cons_of_neg (by decide), append_nil]

theorem environmentKeyMatches_iff (h : b.Wf) (key : List UInt8) :
    environmentKeyMatches (b.1 ++ equalsSign :: b.2) key = true ↔ b.1 = key := by
  rw [environmentKeyMatches, decide_eq_true_eq, beforeSeparator_entry h]
  constructor
  · rintro ⟨hlength, htake⟩
    rwa [← hlength, take_left'] at htake
    rfl
  · rintro rfl
    exact ⟨rfl, take_left' rfl⟩

theorem drop_encodeEntry (b : Binding) (tail : List UInt8) :
    (encodeEntry b ++ tail).drop ((b.1 ++ equalsSign :: b.2).length + 1) = tail :=
  drop_left' (by rw [encodeEntry, length_append, length_singleton])

theorem take_encodeEntry (b : Binding) (tail : List UInt8) :
    (encodeEntry b ++ tail).take ((b.1 ++ equalsSign :: b.2).length + 1) = encodeEntry b :=
  take_left' (by rw [encodeEntry, length_append, length_singleton])

theorem entryFollows_zeros (n : Nat) : entryFollows (List.replicate n 0) = false := by
  cases n with
  | zero => rfl
  | succ n => rfl

/-! ## The loops on packed bindings -/

/-- What `process_environment_get` answers for a key with this value. -/
def answer (capacity : Nat) : Option (List UInt8) → Nat × Option (List UInt8)
  | none => (0, none)
  | some value =>
    if capacity < value.length + 1 then (0, none) else (value.length, some (value ++ [0]))

/-- The value of a key in a list of bindings. -/
def valueOf (bindings : List Binding) (key : List UInt8) : Option (List UInt8) :=
  (bindings.find? fun b => b.1 = key).map Prod.snd

theorem drop_key_encodeEntry (b : Binding) (rest : List UInt8) :
    (encodeEntry b ++ rest).drop (b.1.length + 1) = (b.2 ++ [0]) ++ rest := by
  have hsplit : encodeEntry b ++ rest = (b.1 ++ [equalsSign]) ++ ((b.2 ++ [0]) ++ rest) := by
    simp only [encodeEntry, append_assoc, cons_append, nil_append]
  rw [hsplit]
  exact drop_left' (by rw [length_append, length_singleton])

theorem environmentGetLoop_encode (h : ∀ b ∈ bindings, Binding.Wf b) (key : List UInt8)
    (capacity n : Nat) : environmentGetLoop key capacity (encode bindings ++ List.replicate n 0) =
      answer capacity (valueOf bindings key) := by
  induction bindings with
  | nil =>
    rw [environmentGetLoop, dif_neg]
    · rfl
    · rw [encode, flatMap_nil, nil_append, entryFollows_zeros]
      decide
  | cons b bindings ih =>
    have hb := h b mem_cons_self
    rw [encode_cons, append_assoc, environmentGetLoop,
      dif_pos (entryFollows_encodeEntry hb _), entryAt_encodeEntry hb]
    dsimp only
    rw [beforeSeparator_entry hb, drop_encodeEntry]
    split
    next hmatch =>
      have hkey := (environmentKeyMatches_iff hb key).mp hmatch
      have hlength : (b.1 ++ equalsSign :: b.2).length = b.1.length + 1 + b.2.length := by
        rw [length_append, length_cons]
        omega
      have hvalue : valueOf (b :: bindings) key = some b.2 := by
        rw [valueOf, find?_cons_of_pos (by simpa using hkey)]
        rfl
      rw [if_neg (by omega), hvalue, answer, drop_key_encodeEntry, hlength]
      have hrest : b.1.length + 1 + b.2.length - b.1.length - 1 = b.2.length := by omega
      rw [hrest]
      split
      next => rfl
      next =>
        rw [take_left' (by rw [length_append, length_singleton])]
    next hother =>
      have hkey : ¬ b.1 = key := fun heq => hother ((environmentKeyMatches_iff hb key).mpr heq)
      rw [ih fun c hc => h c (mem_cons_of_mem b hc), valueOf, valueOf,
        find?_cons_of_neg (by simpa using hkey)]

/-- The bindings of the other keys. -/
def others (bindings : List Binding) (key : List UInt8) : List Binding :=
  bindings.filter fun b => b.1 ≠ key

theorem copyOthers_encode (h : ∀ b ∈ bindings, Binding.Wf b) (key : List UInt8) (n : Nat)
    {updated : List UInt8}
    (hfits : updated.length + (encode bindings).length < processEnvironmentSize) :
    copyOthers key (encode bindings ++ List.replicate n 0) updated =
      some (updated ++ encode (others bindings key)) := by
  induction bindings generalizing updated with
  | nil =>
    rw [copyOthers, dif_neg]
    · rw [others, filter_nil, encode, flatMap_nil, append_nil]
    · rw [encode, flatMap_nil, nil_append, entryFollows_zeros]
      decide
  | cons b bindings ih =>
    have hb := h b mem_cons_self
    have hrest : ∀ c ∈ bindings, Binding.Wf c := fun c hc => h c (mem_cons_of_mem b hc)
    rw [encode_cons, length_append] at hfits
    rw [encode_cons, append_assoc, copyOthers, dif_pos (entryFollows_encodeEntry hb _),
      entryAt_encodeEntry hb]
    dsimp only
    rw [drop_encodeEntry, take_encodeEntry]
    have hentry : (encodeEntry b).length = (b.1 ++ equalsSign :: b.2).length + 1 :=
      length_append
    split
    next hother =>
      have hkey : b.1 ≠ key := by
        intro heq
        rw [(environmentKeyMatches_iff hb key).mpr heq] at hother
        cases hother
      rw [if_neg (by omega), ih hrest (by rw [length_append]; omega), others, others,
        filter_cons_of_pos (by simpa using hkey), encode_cons,
        append_assoc]
    next hmatch =>
      have hkey : b.1 = key := by
        refine (environmentKeyMatches_iff hb key).mp ?_
        simpa using hmatch
      rw [ih hrest (by omega), others, others,
        filter_cons_of_neg (by simpa using hkey)]

/-! ## Values of bindings -/

theorem valueOf_others (bindings : List Binding) (key x : List UInt8) :
    valueOf (others bindings key) x = if x = key then none else valueOf bindings x := by
  rw [valueOf, others, find?_filter]
  split
  next hx =>
    rw [Option.map_eq_none_iff, find?_eq_none]
    intro b _
    simp [hx]
  next hx =>
    -- a binding of the key `x` is not one of `key`
    have hkeys : ∀ b : Binding, b.1 ≠ key ∧ b.1 = x ↔ b.1 = x :=
      fun b => and_iff_right_of_imp fun heq => heq ▸ hx
    simp only [decide_eq_true_eq, hkeys]
    rfl

theorem valueOf_replaced (bindings : List Binding) (key value x : List UInt8) :
    valueOf (others bindings key ++ [(key, value)]) x =
      if x = key then some value else valueOf bindings x := by
  have hothers := valueOf_others bindings key x
  rw [valueOf] at hothers
  rw [valueOf, find?_append, Option.map_or, hothers]
  split
  next hx =>
    rw [Option.none_or, find?_cons_of_pos (by simpa using hx.symm)]
    rfl
  next hx =>
    rw [find?_cons_of_neg (by simpa using Ne.symm hx)]
    exact Option.or_none

theorem valueOf_mem (h : valueOf bindings key = some value) : (key, value) ∈ bindings := by
  rw [valueOf, Option.map_eq_some_iff] at h
  obtain ⟨b, hfind, rfl⟩ := h
  have hkey : b.1 = key := by simpa using find?_some hfind
  exact hkey ▸ mem_of_find?_eq_some hfind

theorem encodeEntry_length_le (h : b ∈ bindings) :
    (encodeEntry b).length ≤ (encode bindings).length := by
  rw [encode, flatMap_def]
  exact (sublist_flatten_of_mem (mem_map_of_mem h)).length_le

theorem others_length_le (bindings : List Binding) (key : List UInt8) :
    (encode (others bindings key)).length ≤ (encode bindings).length :=
  (filter_sublist.flatMap encodeEntry).length_le

/-! ## The calls -/

theorem ofWritten_bytes {written : List UInt8} (h : written.length ≤ processEnvironmentSize) :
    (Environment.ofWritten written).bytes =
      written ++ List.replicate (processEnvironmentSize - written.length) 0 := by
  simp only [Environment.ofWritten]
  rw [take_append, take_of_length_le h, take_replicate, Nat.min_eq_left]
  exact Nat.sub_le _ _

/-- The zero byte that ends the last entry is the buffer's own. -/
theorem ofWritten_zero {written : List UInt8} (h : written.length < processEnvironmentSize) :
    (Environment.ofWritten written).bytes = (Environment.ofWritten (written ++ [0])).bytes := by
  have hlength : (written ++ [(0 : UInt8)]).length = written.length + 1 := length_append
  rw [ofWritten_bytes (Nat.le_of_lt h), ofWritten_bytes (hlength ▸ h), hlength, append_assoc,
    singleton_append, ← replicate_succ]
  congr 2
  omega

theorem Packed.ofWritten
    (hbytes : environment.bytes = (Environment.ofWritten (encode bindings)).bytes)
    (hfits : (encode bindings).length < processEnvironmentSize) (hwf : ∀ b ∈ bindings, Binding.Wf b)
    (hdistinct : (bindings.map Prod.fst).Nodup) : Packed environment bindings :=
  ⟨hbytes.trans (ofWritten_bytes (Nat.le_of_lt hfits)), hfits, hwf, hdistinct⟩

theorem others_wf (h : ∀ b ∈ bindings, Binding.Wf b) (key : List UInt8) :
    ∀ b ∈ others bindings key, Binding.Wf b :=
  fun b hb => h b (mem_of_mem_filter hb)

theorem others_distinct (h : (bindings.map Prod.fst).Nodup) (key : List UInt8) :
    ((others bindings key).map Prod.fst).Nodup :=
  h.sublist (filter_sublist.map _)

/-- The bindings after a successful set. -/
def replaced (bindings : List Binding) (key value : List UInt8) : List Binding :=
  others bindings key ++ [(key, value)]

theorem replaced_distinct (h : (bindings.map Prod.fst).Nodup) (key value : List UInt8) :
    ((replaced bindings key value).map Prod.fst).Nodup := by
  rw [replaced, map_append, map_singleton]
  refine Nodup.append (others_distinct h key) (nodup_singleton key) ?_
  intro x hx hkey
  obtain ⟨b, hb, rfl⟩ := mem_map.mp hx
  have hne : b.1 ≠ key := by simpa using (mem_filter.mp hb).2
  exact hne (mem_singleton.mp hkey)

theorem encode_replaced (bindings : List Binding) (key value : List UInt8) :
    encode (replaced bindings key value) =
      (encode (others bindings key) ++ key ++ equalsSign :: value) ++ [0] := by
  rw [replaced, encode_append]
  simp only [encode, flatMap_singleton, encodeEntry, append_assoc]

theorem ValidKey.accepted (h : ValidKey key) :
    (key.any fun byte => byte == equalsSign || byte == 0) = false := by
  rw [any_eq_false]
  intro byte hbyte
  simp only [Bool.or_eq_true, beq_iff_eq, not_or]
  exact ⟨ne_of_mem_of_not_mem hbyte h.separator, ne_of_mem_of_not_mem hbyte h.zero⟩

theorem validKey_of_accepted (hpos : key.length ≠ 0) (hshort : key.length ≤ 32)
    (haccepted : ¬ (key.any fun byte => byte == equalsSign || byte == 0) = true) :
    ValidKey key where
  nonempty := by
    rintro rfl
    exact hpos rfl
  short := hshort
  separator := fun hmem =>
    haccepted (any_eq_true.mpr ⟨equalsSign, hmem, by decide⟩)
  zero := fun hmem => haccepted (any_eq_true.mpr ⟨0, hmem, by decide⟩)

/-- A set with a valid key fails exactly when the new bindings and the final zero byte do not fit;
otherwise the block holds the new bindings. -/
theorem Packed.set (h : Packed environment bindings) (hkey : ValidKey key)
    (hvalue : (0 : UInt8) ∉ value) :
    (processEnvironmentSize < (encode (replaced bindings key value)).length + 1 ∧
        processEnvironmentSet environment key value = (false, environment)) ∨
      ((encode (replaced bindings key value)).length + 1 ≤ processEnvironmentSize ∧
        ∃ environment', processEnvironmentSet environment key value = (true, environment') ∧
          Packed environment' (replaced bindings key value)) := by
  have hpos : key.length ≠ 0 := fun hzero => hkey.nonempty (eq_nil_of_length_eq_zero hzero)
  have hlength : (encode (replaced bindings key value)).length =
      (encode (others bindings key)).length + (key.length + 1 + value.length) + 1 := by
    rw [encode_replaced, length_append, length_append, length_append,
      length_cons, length_singleton]
    omega
  have hsize : processEnvironmentSize = 256 := rfl
  unfold processEnvironmentSet
  split
  next hrefused =>
    refine .inl ⟨?_, rfl⟩
    have := hkey.short
    omega
  next =>
  rw [if_neg (by rw [hkey.accepted]; decide), h.bytes,
    copyOthers_encode h.wf key _ (by rw [length_nil, Nat.zero_add]; exact h.fits)]
  dsimp only
  rw [nil_append]
  split
  next hfull => exact .inl ⟨by omega, rfl⟩
  next hroom =>
  refine .inr ⟨by omega, _, rfl, Packed.ofWritten ?_ (by omega) ?_
    (replaced_distinct h.distinct key value)⟩
  · rw [encode_replaced]
    refine ofWritten_zero ?_
    rw [length_append, length_append, length_cons]
    omega
  · exact forall_mem_append.mpr
      ⟨others_wf h.wf key, forall_mem_singleton.mpr ⟨hkey, hvalue⟩⟩

/-- A set with another key fails and changes nothing. -/
theorem set_invalid (hkey : ¬ ValidKey key) :
    processEnvironmentSet environment key value = (false, environment) := by
  rw [processEnvironmentSet]
  split_ifs with hlengths haccepted
  · rfl
  · rfl
  · refine absurd (validKey_of_accepted ?_ ?_ haccepted) hkey
    · omega
    · omega

/-- An unset drops the key's binding, and fails only for a key of impossible length. -/
theorem Packed.unset (h : Packed environment bindings) (key : List UInt8) :
    ((key.length = 0 ∨ 32 < key.length) ∧
        processEnvironmentUnset environment key = (false, environment)) ∨
      ∃ environment', processEnvironmentUnset environment key = (true, environment') ∧
        Packed environment' (others bindings key) := by
  unfold processEnvironmentUnset
  split
  next hrefused => exact .inl ⟨hrefused, rfl⟩
  next =>
    rw [h.bytes, copyOthers_encode h.wf key _
      (by rw [length_nil, Nat.zero_add]; exact h.fits)]
    have hfits := Nat.lt_of_le_of_lt (others_length_le bindings key) h.fits
    refine .inr ⟨_, rfl, Packed.ofWritten ?_ hfits (others_wf h.wf key)
      (others_distinct h.distinct key)⟩
    rw [nil_append]

theorem Packed.get (h : Packed environment bindings) {capacity : Nat} (hkey : key ≠ [])
    (hcapacity : capacity ≠ 0) :
    processEnvironmentGet environment key capacity = answer capacity (valueOf bindings key) := by
  rw [processEnvironmentGet, if_neg, h.bytes, environmentGetLoop_encode h.wf]
  rintro (hlength | hzero)
  · exact hkey (eq_nil_of_length_eq_zero hlength)
  · exact hcapacity hzero

/-! ## The map behind the block -/

/-- The value the block holds for a key, read with room for any value. -/
def Environment.map (environment : Environment) (key : List UInt8) : Option (List UInt8) :=
  (processEnvironmentGet environment key processEnvironmentSize).2.map List.dropLast

theorem Packed.map_eq (h : Packed environment bindings) : environment.map = valueOf bindings := by
  funext key
  rw [Environment.map]
  by_cases hkey : key = []
  · rw [hkey, processEnvironmentGet, if_pos (.inl length_nil)]
    -- no binding has the empty key
    cases hvalue : valueOf bindings [] with
    | none => rfl
    | some value => exact absurd rfl (h.wf _ (valueOf_mem hvalue)).key.nonempty
  · rw [h.get hkey (by decide)]
    cases hvalue : valueOf bindings key with
    | none => rfl
    | some value =>
      have hle := encodeEntry_length_le (valueOf_mem hvalue)
      have hfits := h.fits
      rw [encodeEntry_length] at hle
      dsimp only at hle
      rw [answer, if_neg (by omega), Option.map_some, dropLast_concat]

/-- What a call with this result does to a map. -/
def applyCall (map : List UInt8 → Option (List UInt8)) :
    EnvironmentCall × Bool → List UInt8 → Option (List UInt8)
  | (.set key value, true) => fun x => if x = key then some value else map x
  | (.unset key, true) => fun x => if x = key then none else map x
  | (_, false) => map

/-- A value as SETENV passes it. -/
def EnvironmentCall.NulFree : EnvironmentCall → Prop
  | .set _ value => (0 : UInt8) ∉ value
  | .unset _ => True

theorem EnvironmentCall.refines (h : ∃ bindings, Packed environment bindings)
    {call : EnvironmentCall} (hnul : call.NulFree) :
    (∃ bindings, Packed (call.effect environment).2 bindings) ∧
      (call.effect environment).2.map =
        applyCall environment.map (call, (call.effect environment).1) := by
  obtain ⟨bindings, h⟩ := h
  cases call with
  | set key value =>
    rw [EnvironmentCall.effect]
    by_cases hkey : ValidKey key
    · rcases h.set hkey hnul with ⟨_, hfail⟩ | ⟨_, environment', hdone, hpacked⟩
      · rw [hfail]
        exact ⟨⟨bindings, h⟩, rfl⟩
      · rw [hdone]
        refine ⟨⟨_, hpacked⟩, ?_⟩
        rw [hpacked.map_eq, h.map_eq]
        exact funext (valueOf_replaced bindings key value)
    · rw [set_invalid hkey]
      exact ⟨⟨bindings, h⟩, rfl⟩
  | unset key =>
    rw [EnvironmentCall.effect]
    rcases h.unset key with ⟨_, hfail⟩ | ⟨environment', hdone, hpacked⟩
    · rw [hfail]
      exact ⟨⟨bindings, h⟩, rfl⟩
    · rw [hdone]
      refine ⟨⟨_, hpacked⟩, ?_⟩
      rw [hpacked.map_eq, h.map_eq]
      exact funext (valueOf_others bindings key)

/-! ## Runs -/

/-- The block behaves as the finite map, in this state. -/
structure IsFiniteMap (environment : Environment) (map : List UInt8 → Option (List UInt8)) :
    Prop where
  /-- `process_environment_get` answers with the map's value, when it fits. -/
  get : ∀ key capacity, key ≠ [] → capacity ≠ 0 →
    processEnvironmentGet environment key capacity = answer capacity (map key)
  /-- The block is the encoding of the map's bindings, each key once, and zero bytes; a set with a
  valid key and a value free of zero bytes fails exactly when the new encoding and the zero byte
  after it are larger than the block. -/
  packed : ∃ bindings, Packed environment bindings ∧ (∀ key, map key = valueOf bindings key) ∧
    ∀ key value, ValidKey key → (0 : UInt8) ∉ value →
      ((processEnvironmentSet environment key value).1 = false ↔
        processEnvironmentSize < (encode (replaced bindings key value)).length + 1)
  failed : ∀ key value, (0 : UInt8) ∉ value →
    (processEnvironmentSet environment key value).1 = false →
    (processEnvironmentSet environment key value).2 = environment
  unset : ∀ key, ValidKey key → (processEnvironmentUnset environment key).1 = true
  /-- The block keeps its size and ends with a zero byte. -/
  terminated : environment.bytes.length = 256 ∧ environment.bytes[255]? = some 0

theorem Packed.isFiniteMap (h : Packed environment bindings) :
    IsFiniteMap environment environment.map where
  get := fun key capacity hkey hcapacity => by rw [h.get hkey hcapacity, h.map_eq]
  packed := by
    refine ⟨bindings, h, fun key => by rw [h.map_eq], fun key value hkey hvalue => ?_⟩
    rcases h.set hkey hvalue with ⟨hfull, hfail⟩ | ⟨hroom, environment', hdone, _⟩
    · rw [hfail]
      exact ⟨fun _ => hfull, fun _ => rfl⟩
    · rw [hdone]
      refine ⟨fun hno => ?_, fun hfull => absurd hfull (Nat.not_lt.mpr hroom)⟩
      cases hno
  failed := by
    intro key value hvalue hfail
    by_cases hkey : ValidKey key
    · rcases h.set hkey hvalue with ⟨_, heq⟩ | ⟨_, environment', hdone, _⟩
      · rw [heq]
      · rw [hdone] at hfail
        cases hfail
    · rw [set_invalid hkey]
  unset := by
    intro key hkey
    rcases h.unset key with ⟨hlength, _⟩ | ⟨environment', hdone, _⟩
    · rcases hlength with hzero | hlong
      · exact absurd (eq_nil_of_length_eq_zero hzero) hkey.nonempty
      · exact absurd hkey.short (Nat.not_le.mpr hlong)
    · rw [hdone]
  terminated := by
    refine ⟨environment.size, ?_⟩
    have hfits := h.fits
    have hsize : processEnvironmentSize = 256 := rfl
    rw [h.bytes, getElem?_append_right (by omega), getElem?_replicate, if_pos (by omega)]

theorem environmentInitial_packed :
    Packed environmentInitial [([80, 65, 84, 72],
      [47, 58, 47, 98, 105, 110, 58, 47, 117, 115, 114, 47, 98, 105, 110])] := by
  refine Packed.ofWritten ?_ (by decide) ?_ (nodup_singleton _)
  · exact ofWritten_zero (by decide)
  · intro b hb
    rw [mem_singleton.mp hb]
    exact ⟨⟨by decide, by decide, by decide, by decide⟩, by decide⟩

/-- A new process's environment after some calls. -/
def environmentAfter (calls : List EnvironmentCall) : Environment :=
  run (fun e call => (EnvironmentCall.effect e call).2) environmentInitial calls

/-- The map that the successful calls describe. -/
def mapAfter (calls : List EnvironmentCall) : List UInt8 → Option (List UInt8) :=
  (outcomes EnvironmentCall.effect environmentInitial calls).foldl applyCall environmentInitial.map

theorem packed_after {calls : List EnvironmentCall} (hnul : ∀ call ∈ calls, call.NulFree) :
    (∃ bindings, Packed (environmentAfter calls) bindings) ∧
      (environmentAfter calls).map = mapAfter calls := by
  obtain ⟨hpacked, htrace⟩ := run_refines EnvironmentCall.effect
    (fun map call result map' => map' = applyCall map (call, result)) Environment.map
    (I := fun e => ∃ bindings, Packed e bindings)
    (fun e call he hcall => EnvironmentCall.refines he hcall)
    ⟨_, environmentInitial_packed⟩ (each_of_mem (C := EnvironmentCall.NulFree) environmentInitial hnul)
  exact ⟨hpacked, htrace.eq_foldl⟩

/-- After every sequence of calls on a new process's environment, with values free of zero bytes,
the block is the finite map that the successful calls describe. -/
theorem environment_isFiniteMap (calls : List EnvironmentCall) (hnul : ∀ call ∈ calls, call.NulFree) :
    IsFiniteMap (run (fun e call => (EnvironmentCall.effect e call).2) environmentInitial calls)
      ((outcomes EnvironmentCall.effect environmentInitial calls).foldl applyCall
        environmentInitial.map) := by
  obtain ⟨⟨bindings, hpacked⟩, hmap⟩ := packed_after hnul
  change IsFiniteMap (environmentAfter calls) (mapAfter calls)
  rw [← hmap]
  exact hpacked.isFiniteMap

/-- The first set of `A`, its replacement and the removal of `PATH`. -/
theorem environment_isFiniteMap_replace :
    IsFiniteMap
      (run (fun e call => (EnvironmentCall.effect e call).2) environmentInitial
        [.set [65] [66, 67], .set [65] [], .unset [80, 65, 84, 72]])
      ((outcomes EnvironmentCall.effect environmentInitial
        [.set [65] [66, 67], .set [65] [], .unset [80, 65, 84, 72]]).foldl applyCall
        environmentInitial.map) := by
  refine environment_isFiniteMap _ fun call hcall => ?_
  simp only [mem_cons, not_mem_nil, or_false] at hcall
  rcases hcall with rfl | rfl | rfl
  · exact (by decide : (0 : UInt8) ∉ [66, 67])
  · exact not_mem_nil
  · exact trivial

/-! ## GETENV and the stack -/

variable {user : UserMemory} {arg1 arg2 arg3 : Nat}

theorem getenvKey_accepted (h : getenvKey user arg1 arg2 arg3 = some key) :
    arg3 ≠ 0 ∧ user.writable arg2 arg3 = true := by
  rw [getenvKey] at h
  split_ifs at h with hguard
  · simp only [not_or, Bool.not_eq_true', Bool.not_eq_false] at hguard
    exact ⟨hguard.2.2.1, hguard.2.2.2.2⟩

/-- Where the environment has no value that fits, a byte of the buffer is copied. -/
theorem getenv_of_unwritten (hkey : getenvKey user arg1 arg2 arg3 = some key)
    (h : processEnvironmentGet environment key arg3 = (0, none)) (value : Nat → UInt8) :
    getenv user environment arg1 arg2 arg3 value = (some 0, [value 0]) := by
  obtain ⟨hcapacity, hwritable⟩ := getenvKey_accepted hkey
  have hone := user.writable_mono (Nat.one_le_iff_ne_zero.mpr hcapacity) hwritable
  simp [getenv, hkey, h, hone]

/-- A value that fits is copied with its zero byte, and nothing else. -/
theorem getenv_of_written {string : List UInt8} (hkey : getenvKey user arg1 arg2 arg3 = some key)
    (hfits : string.length < arg3)
    (h : processEnvironmentGet environment key arg3 = (string.length, some (string ++ [0])))
    (value : Nat → UInt8) :
    getenv user environment arg1 arg2 arg3 value = (some string.length, string ++ [0]) := by
  have hroom := user.writable_mono hfits (getenvKey_accepted hkey).2
  have hbytes : (List.range (string.length + 1)).map
      (fun i => (string ++ [0])[i]?.getD (value i)) = string ++ [0] := by
    refine ext_getElem (by simp) fun i hi hi' => ?_
    simp [getElem?_eq_getElem hi']
  simp [getenv, hkey, h, hroom, hbytes]

/-- After every run of calls on a new process's environment, an accepted GETENV shows the caller nothing
of the buffer exactly when the environment has a value for the key and it fits with its zero byte. -/
theorem getenv_hides_buffer_iff (calls : List EnvironmentCall) (hnul : ∀ call ∈ calls, call.NulFree)
    (user : UserMemory) (arg1 arg2 arg3 : Nat) :
    (∀ value value', getenv user (environmentAfter calls) arg1 arg2 arg3 value =
        getenv user (environmentAfter calls) arg1 arg2 arg3 value') ↔
      ∀ key, getenvKey user arg1 arg2 arg3 = some key →
        ∃ string, mapAfter calls key = some string ∧ string.length < arg3 := by
  obtain ⟨⟨bindings, hpacked⟩, hmap⟩ := packed_after hnul
  rw [← hmap, hpacked.map_eq]
  generalize environmentAfter calls = environment at hpacked
  cases hkey : getenvKey user arg1 arg2 arg3 with
  | none => simp [getenv, hkey]
  | some key =>
    have hcapacity := (getenvKey_accepted hkey).1
    have hget : processEnvironmentGet environment key arg3 = answer arg3 (valueOf bindings key) := by
      by_cases hempty : key = []
      · have hnone := congrFun hpacked.map_eq []
        rw [Environment.map, processEnvironmentGet, if_pos (.inl length_nil)] at hnone
        rw [hempty, ← hnone, processEnvironmentGet, if_pos (.inl length_nil)]
        rfl
      · exact hpacked.get hempty hcapacity
    simp only [Option.some.injEq, forall_eq']
    by_cases hvalue : ∃ string, valueOf bindings key = some string ∧ string.length < arg3
    · obtain ⟨string, hstring, hfits⟩ := hvalue
      rw [hstring, answer, if_neg (by omega)] at hget
      simp [getenv_of_written hkey hfits hget, hstring, hfits]
    have hnone : answer arg3 (valueOf bindings key) = (0, none) := by
      cases hstring : valueOf bindings key with
      | none => rfl
      | some string =>
        have hlong : ¬string.length < arg3 := fun hfits => hvalue ⟨string, hstring, hfits⟩
        exact if_pos (by omega)
    rw [hnone] at hget
    refine iff_of_false (fun hsame => ?_) hvalue
    have hleak := hsame (fun _ => 0) fun _ => 1
    simp [getenv_of_unwritten hkey hget] at hleak

/-- A caller with the string `A` at address 4096, and a page it can write at 8192. -/
def sampleUser : UserMemory where
  byte address := if address = 4096 then some 65 else if address = 4097 then some 0 else none
  writable address size := decide (address = 8192 ∧ size ≤ 4096)
  writable_mono h hw := by
    simp only [decide_eq_true_eq] at hw ⊢
    omega

/-- `A` set to `B`: its value and nothing else is shown. -/
theorem getenv_hides_buffer_set : mapAfter [.set [65] [66]] [65] = some [66] ∧ ∀ value value',
    getenv sampleUser (environmentAfter [.set [65] [66]]) 4096 8192 16 value =
      getenv sampleUser (environmentAfter [.set [65] [66]]) 4096 8192 16 value' := by
  have hvalue : mapAfter [.set [65] [66]] [65] = some [66] := by decide +kernel
  refine ⟨hvalue, (getenv_hides_buffer_iff [.set [65] [66]] ?_ sampleUser 4096 8192 16).mpr ?_⟩
  · simp [EnvironmentCall.NulFree]
  · intro key hkey
    have hread : getenvKey sampleUser 4096 8192 16 = some [65] := by decide
    cases Option.some.inj (hread.symm.trans hkey)
    exact ⟨[66], hvalue, by decide⟩

/-- In a new process `A` has no value, and what the caller gets depends on the kernel's stack. -/
theorem missing_key_shows_stack : ¬∀ value value',
    getenv sampleUser (environmentAfter []) 4096 8192 16 value =
      getenv sampleUser (environmentAfter []) 4096 8192 16 value' := by
  intro h
  have hleak := h (fun _ => 0) fun _ => 1
  revert hleak
  decide +kernel

end KernelBoot.Process
