import KernelBoot.Lib.LittleEndian
import KernelBoot.Lib.Lzo1x
import KernelBoot.Btrfs.Lzo

/-!
# Laws of LZO decompression

On a stream of the format that starts with four or more initial literals the main loop follows the
instructions one by one. Three kinds of instructions it does not take as the format means them: a
three-byte match after a literal run is looked up `0x4000` back where the format says `0x800`, the
bit test in front of the `M4` case refuses some matches, and a length of more than 65793 zero bytes is
refused. `Followed` says of an instruction that it is none of these, and the decoder returns the
stream's output exactly when all its instructions are.
-/

namespace KernelBoot.Btrfs

open List Option Nat

open Lib Lib.Lzo1x

variable {n : Nat} {rest : List UInt8} {r : LzoNext} {i : Instruction}

section Bytes

theorem toNat_byte (h : n < 256) : (UInt8.ofNat n).toNat = n := by
  rw [UInt8.toNat_ofNat', mod_eq_of_lt h]

theorem byte_and_three (n : Nat) : n &&& 3 = n % 4 := and_two_pow_sub_one_eq_mod n 2

theorem byte_and_seven (n : Nat) : n &&& 7 = n % 8 := and_two_pow_sub_one_eq_mod n 3

theorem byte_and_thirtyOne (n : Nat) : n &&& 31 = n % 32 := and_two_pow_sub_one_eq_mod n 5

theorem le16_eq (low high : UInt8) : le16 low high = low.toNat + 256 * high.toNat :=
  lor_shiftLeft low.toNat_lt high.toNat

/-- The two bytes of a number are read back. -/
theorem le16_le16Bytes (h : n < 65536) : le16 (UInt8.ofNat n) (UInt8.ofNat (n / 256)) = n := by
  rw [le16_eq, UInt8.toNat_ofNat', UInt8.toNat_ofNat']
  omega

/-- The test in front of the `M4` case on two bytes. -/
theorem le16_and_eq_iff (low high : UInt8) :
    le16 low high &&& 0xfffc = 0xfffc ↔ 252 ≤ low.toNat ∧ high.toNat = 255 := by
  have hlow := low.toNat_lt
  have hhigh := high.toNat_lt
  have hdiv : (le16 low high &&& 0xfffc) / 4 = le16 low high / 4 % 2 ^ 14 := by
    rw [show (4 : Nat) = 2 ^ 2 from rfl, and_div_two_pow]
    exact and_two_pow_sub_one_eq_mod _ 14
  have hmod : (le16 low high &&& 0xfffc) % 4 = 0 := by
    rw [show (4 : Nat) = 2 ^ 2 from rfl, and_mod_two_pow]
    simp
  rw [le16_eq] at *
  omega

/-- Bit 3 of an `M4` opcode, as the test and as the distance read it. -/
theorem m4_opcode_bits : ∀ t < 32, 16 ≤ t →
    (t &&& 0xf8 = 0x18 ↔ 24 ≤ t) ∧ (t &&& 8) <<< 11 = (t - 16) / 8 * 16384 := by decide

end Bytes

section Lengths

variable {length base n : Nat} {rest : List UInt8}

/-- The last byte of an extension is not zero. -/
theorem extension_last : UInt8.ofNat ((n - 1) % 255 + 1) ≠ 0 := by
  intro h
  have hnat : ((n - 1) % 255 + 1) % 256 = 0 := by
    rw [← UInt8.toNat_ofNat', h]
    rfl
  omega

theorem takeWhile_zeros {byte : UInt8} (h : byte ≠ 0) (count : Nat) :
    (List.replicate count 0 ++ byte :: rest).takeWhile (· = 0) = List.replicate count 0 := by
  simp [h]

theorem dropWhile_zeros {byte : UInt8} (h : byte ≠ 0) (count : Nat) :
    (List.replicate count 0 ++ byte :: rest).dropWhile (· = 0) = byte :: rest := by
  simp [h]

/-- An extension of at most 65793 zero bytes is read back, a longer one is refused. -/
theorem extendLength_extension (hn : 1 ≤ n) (hlength : length ≤ 2) (hbase : base ≤ 31) :
    extendLength (extension n ++ rest) length base =
      if n ≤ 16777470 then some (length + base + n, rest) else none := by
  simp only [extendLength, extension, append_assoc, singleton_append,
    takeWhile_zeros extension_last, dropWhile_zeros extension_last, length_replicate]
  rw [toNat_byte (by omega)]
  by_cases h : n ≤ 16777470
  · rw [if_pos h, if_neg (by omega)]
    refine congrArg some (Prod.ext ?_ rfl)
    change length + (base + (n - 1) / 255 * 255 + ((n - 1) % 255 + 1)) = length + base + n
    omega
  · rw [if_neg h, if_pos (by omega)]

/-- An opcode with a length in its low bits, and what `extend_length` makes of the bytes after it. -/
theorem lengthBytes_spec (opcode : Nat) {bound : Nat} (hlength : 3 ≤ length)
    (hbound : bound ≤ 31) :
    ∃ low extra, lengthBytes opcode bound length = UInt8.ofNat (opcode + low) :: extra ∧
      low ≤ bound ∧
      ∀ input, extendedLength (extra ++ input) (low + 2) 2 bound =
        if length ≤ bound + 16777472 then some (length, input) else none := by
  by_cases h : length ≤ bound + 2
  · refine ⟨length - 2, [], by rw [lengthBytes, if_pos h], by omega, fun input => ?_⟩
    rw [extendedLength, if_neg (by omega), if_pos (by omega), nil_append,
      show length - 2 + 2 = length by omega]
  · refine ⟨0, extension (length - (bound + 2)), by rw [lengthBytes, if_neg h]; rfl,
      by omega, fun input => ?_⟩
    rw [extendedLength, if_pos rfl, extendLength_extension (by omega) (by omega) hbound]
    simp only [show length - (bound + 2) ≤ 16777470 ↔ length ≤ bound + 16777472 by omega,
      show 0 + 2 + bound + (length - (bound + 2)) = length by omega]

end Lengths

section Copies

variable {capacity state distance length : Nat} {out rest run trail : List UInt8}

theorem copyLiterals_append (h : out.length + run.length ≤ capacity) :
    copyLiterals capacity run.length ⟨run ++ rest, out, state⟩ = some ⟨rest, out ++ run, state⟩ := by
  have hfit : ¬((run ++ rest).length < run.length ∨ capacity - out.length < run.length) := by
    rw [length_append]
    omega
  simp only [copyLiterals, if_neg hfit, drop_left, take_left]

theorem copyRun_append (h : out.length + run.length ≤ capacity) :
    copyRun capacity run.length ⟨run ++ rest, out, state⟩ = some ⟨rest, out ++ run, 4⟩ := by
  simp only [copyRun, copyLiterals_append h, map_some]

theorem matchNext_append (h : out.length + trail.length ≤ capacity) :
    matchNext capacity trail.length ⟨trail ++ rest, out, state⟩ =
      some ⟨rest, out ++ trail, trail.length⟩ := by
  cases trail with
  | nil => simp [matchNext]
  | cons byte trail =>
    rw [matchNext, if_neg (by simp)]
    exact copyLiterals_append h

theorem copyBack_append (hdistance : distance ≤ out.length)
    (h : out.length + length + trail.length ≤ capacity) :
    copyBack capacity distance length trail.length ⟨trail ++ rest, out, state⟩ =
      some ⟨rest, copyMatch out distance length ++ trail, trail.length⟩ := by
  have hfit : ¬(out.length < distance ∨ capacity - out.length < length) := by omega
  simp only [copyBack, if_neg hfit]
  exact matchNext_append (by simpa using h)

theorem copyBack_of_lt (h : out.length < distance) (t next : Nat) :
    copyBack capacity distance t next ⟨rest, out, state⟩ = none := if_pos (.inl h)

end Copies

section Growth

/-- What a pass does to the two pointers: output is only added, and input only read on. -/
structure Lzo.Onward (s s' : Lzo) : Prop where
  output : s.output <+: s'.output
  input : s'.input.length ≤ s.input.length

variable {capacity t next distance : Nat} {s s' : Lzo}

theorem copyLiterals_onward (h : copyLiterals capacity t s = some s') : s.Onward s' := by
  unfold copyLiterals at h
  split at h
  · cases h
  · cases h
    exact ⟨prefix_append _ _, by simp⟩

theorem matchNext_onward (h : matchNext capacity next s = some s') : s.Onward s' := by
  unfold matchNext at h
  split at h
  · cases h
    exact ⟨prefix_refl _, le_refl _⟩
  · have hcopy := copyLiterals_onward h
    exact ⟨hcopy.output, hcopy.input⟩

theorem copyBack_onward (h : copyBack capacity distance t next s = some s') : s.Onward s' := by
  unfold copyBack at h
  split at h
  · cases h
  · have hnext := matchNext_onward h
    exact ⟨(isPrefix_copyMatch distance t s.output).trans hnext.output, hnext.input⟩

theorem copyRun_onward (h : copyRun capacity t s = some s') : s.Onward s' := by
  obtain ⟨copied, hcopied, rfl⟩ := map_eq_some_iff.mp h
  have hcopy := copyLiterals_onward hcopied
  exact ⟨hcopy.output, hcopy.input⟩

theorem extendedLength_shortens {input : List UInt8} {length short base : Nat}
    (h : extendedLength input length short base = some (n, rest)) : rest.length ≤ input.length := by
  unfold extendedLength at h
  split at h
  · simp only [extendLength] at h
    have hdrop := (dropWhile_sublist (fun byte : UInt8 => decide (byte = 0)) (l := input)).length_le
    split at h
    · cases h
    · rename_i byte tail heq
      rw [heq, length_cons] at hdrop
      split at h
      · cases h
      · cases h
        omega
  · cases h
    exact le_refl _

/-- The variables a pass ends with. -/
def LzoNext.state : LzoNext → Lzo
  | .again s => s
  | .done _ s => s

theorem again_onward {result : Option Lzo} (h : result.map .again = some r)
    (hresult : ∀ s', result = some s' → s.Onward s') : s.Onward r.state := by
  obtain ⟨s', hs', rfl⟩ := map_eq_some_iff.mp h
  exact hresult s' hs'

theorem lzoFar_onward {high length : Nat} (h : lzoFar capacity high length s = some r) :
    s.Onward r.state := by
  simp only [lzoFar] at h
  split at h
  · rename_i first second input hinput
    have hless : input.length ≤ s.input.length := by simp [hinput, Nat.add_assoc]
    split at h
    · cases h
      exact ⟨prefix_refl _, hless⟩
    · have hcopy := again_onward h fun s' hs' => copyBack_onward hs'
      exact ⟨hcopy.output, hcopy.input.trans hless⟩
  · cases h

/-- Every pass reads a byte. -/
theorem lzoInstruction_onward (h : lzoInstruction capacity s = some r) :
    s.output <+: r.state.output ∧ r.state.input.length < s.input.length := by
  -- each case starts from what is left of the input at some point behind the opcode
  have hfrom {input : List UInt8} (hshort : input.length < s.input.length)
      (hon : Lzo.Onward { s with input } r.state) :
      s.output <+: r.state.output ∧ r.state.input.length < s.input.length :=
    ⟨hon.output, lt_of_le_of_lt hon.input hshort⟩
  unfold lzoInstruction at h
  split at h
  · cases h
  · rename_i opcode input hinput
    have hone : input.length < s.input.length := by simp [hinput]
    simp only at h
    split_ifs at h
    · obtain ⟨⟨t, rest⟩, hextended, h⟩ := Option.bind_eq_some_iff.mp h
      have hrest := extendedLength_shortens hextended
      exact hfrom (lt_of_le_of_lt hrest hone) (again_onward h fun s' hs' => copyRun_onward hs')
    · split at h
      · cases h
      · exact hfrom (by simp [hinput]) (again_onward h fun s' hs' => copyBack_onward hs')
    · split at h
      · cases h
      · exact hfrom (by simp [hinput]) (again_onward h fun s' hs' => copyBack_onward hs')
    · split at h
      · cases h
      · exact hfrom (by simp [hinput]) (again_onward h fun s' hs' => copyBack_onward hs')
    · obtain ⟨⟨t, rest⟩, hextended, h⟩ := Option.bind_eq_some_iff.mp h
      have hrest := extendedLength_shortens hextended
      simp only at h
      split at h
      · rename_i low high tail
        have htail : tail.length < s.input.length := by
          simp only [length_cons] at hrest
          omega
        exact hfrom htail (again_onward h fun s' hs' => copyBack_onward hs')
      · cases h
    · split at h
      · split_ifs at h
        obtain ⟨⟨t, rest⟩, hextended, h⟩ := Option.bind_eq_some_iff.mp h
        have hrest := extendedLength_shortens hextended
        exact hfrom (lt_of_le_of_lt hrest hone) (lzoFar_onward h)
      · cases h

theorem lzoLoop_isPrefix {out : List UInt8} {fuel : Nat} (h : lzoLoop capacity fuel s = some out) :
    s.output <+: out := by
  induction fuel generalizing s with
  | zero => cases h
  | succ fuel ih =>
    simp only [lzoLoop] at h
    split at h
    · cases h
    · rename_i s' hs'
      exact (lzoInstruction_onward hs').1.trans (ih h)
    · rename_i t s' hs'
      split_ifs at h
      cases h
      exact (lzoInstruction_onward hs').1

end Growth

section Instructions

variable {capacity state distance length trailing : Nat} {out rest : List UInt8}

theorem lzoInstruction_m1 (hfit : MatchKind.m1.Fits state distance length) (ht : trailing ≤ 3) :
    lzoInstruction capacity ⟨MatchKind.m1.encode distance length trailing ++ rest, out, state⟩ =
      (copyBack capacity distance length trailing ⟨rest, out, state⟩).map .again := by
  obtain ⟨hlow, hhigh, hone, hmax, rfl⟩ := hfit
  rw [MatchKind.encode]
  generalize hopcode : (distance - 1) % 4 * 4 + trailing = opcode
  simp only [lzoInstruction, cons_append, nil_append, toNat_byte (show opcode < 256 by omega),
    toNat_byte (show (distance - 1) / 4 < 256 by omega), if_pos (show opcode < 16 by omega),
    if_neg (show state ≠ 0 by omega), if_pos (show state ≠ 4 by omega), byte_and_three,
    shiftRight_eq_div_pow, shiftLeft_eq]
  rw [show 1 + opcode / 2 ^ 2 + (distance - 1) / 4 * 2 ^ 2 = distance by omega,
    show opcode % 4 = trailing by omega]

/-- The three-byte match after a literal run is taken `0x4000 - 0x800` too far back. -/
theorem lzoInstruction_m1Far (hfit : MatchKind.m1Far.Fits state distance length)
    (ht : trailing ≤ 3) :
    lzoInstruction capacity ⟨MatchKind.m1Far.encode distance length trailing ++ rest, out, state⟩ =
      (copyBack capacity (distance + 14336) length trailing ⟨rest, out, state⟩).map .again := by
  obtain ⟨rfl, hlow, hhigh, rfl⟩ := hfit
  rw [MatchKind.encode]
  generalize hopcode : (distance - 2049) % 4 * 4 + trailing = opcode
  simp only [lzoInstruction, cons_append, nil_append, toNat_byte (show opcode < 256 by omega),
    toNat_byte (show (distance - 2049) / 4 < 256 by omega), if_pos (show opcode < 16 by omega),
    if_neg (show ¬(4 : Nat) = 0 by omega), if_neg (show ¬(4 : Nat) ≠ 4 by omega), byte_and_three,
    shiftRight_eq_div_pow, shiftLeft_eq]
  rw [show 1 + 0x4000 + opcode / 2 ^ 2 + (distance - 2049) / 4 * 2 ^ 2 = distance + 14336 by omega,
    show opcode % 4 = trailing by omega]

theorem lzoInstruction_m2 (hfit : MatchKind.m2.Fits state distance length) (ht : trailing ≤ 3) :
    lzoInstruction capacity ⟨MatchKind.m2.encode distance length trailing ++ rest, out, state⟩ =
      (copyBack capacity distance length trailing ⟨rest, out, state⟩).map .again := by
  obtain ⟨hone, hmax, hthree, height⟩ := hfit
  rw [MatchKind.encode]
  generalize hopcode : (length - 1) * 32 + (distance - 1) % 8 * 4 + trailing = opcode
  simp only [lzoInstruction, cons_append, nil_append, toNat_byte (show opcode < 256 by omega),
    toNat_byte (show (distance - 1) / 8 < 256 by omega), if_pos (show 64 ≤ opcode by omega),
    if_neg (show ¬opcode < 16 by omega), byte_and_three, byte_and_seven, shiftRight_eq_div_pow,
    shiftLeft_eq]
  rw [show 1 + opcode / 2 ^ 2 % 8 + (distance - 1) / 8 * 2 ^ 3 = distance by omega,
    show opcode % 4 = trailing by omega, show opcode / 2 ^ 5 - 1 + 2 = length by omega]

theorem lzoInstruction_m3 (hfit : MatchKind.m3.Fits state distance length) (ht : trailing ≤ 3) :
    lzoInstruction capacity ⟨MatchKind.m3.encode distance length trailing ++ rest, out, state⟩ =
      if length ≤ 16777503 then
        (copyBack capacity distance length trailing ⟨rest, out, state⟩).map .again
      else none := by
  obtain ⟨hone, hmax, hthree⟩ := hfit
  obtain ⟨low, extra, hbytes, hlow, hextended⟩ :=
    lengthBytes_spec 32 hthree (le_refl 31)
  have hfield : (distance - 1) * 4 + trailing < 65536 := by omega
  simp only [lzoInstruction, MatchKind.encode, hbytes, cons_append, append_assoc,
    le16Bytes, nil_append, toNat_byte (show 32 + low < 256 by omega),
    if_neg (show ¬32 + low < 16 by omega), if_neg (show ¬64 ≤ 32 + low by omega),
    if_pos (show 32 ≤ 32 + low by omega), byte_and_thirtyOne, byte_and_three,
    show (32 + low) % 32 = low by omega, hextended]
  by_cases hlength : length ≤ 16777503
  · simp only [if_pos hlength, bind_eq_bind, bind_some, le16_le16Bytes hfield,
      shiftRight_eq_div_pow]
    rw [show 1 + ((distance - 1) * 4 + trailing) / 2 ^ 2 = distance by omega,
      show ((distance - 1) * 4 + trailing) % 4 = trailing by omega]
  · simp only [if_neg hlength, bind_eq_bind, bind_none]

/-- The `M4` matches that the test of the source takes for something else: the farthest distance with
a short length, and lengths whose extension byte and distance byte look like it. -/
def M4Refused (distance length trailing : Nat) : Prop :=
  32768 ≤ distance ∧ (length ≤ 9 ∧ distance = 49151 ∨
    261 ≤ length ∧ length ≤ 264 ∧ distance % 64 = 63 ∧ trailing = 3)

instance : Decidable (M4Refused distance length trailing) :=
  inferInstanceAs (Decidable (_ ∧ _))

/-- The first two bytes after an `M4` opcode. -/
theorem m4_peek (opcode : Nat) (rest : List UInt8) {field : Nat} (hfield : field < 65536)
    (hlength : 3 ≤ length) :
    ∃ opcodeByte low high more,
      lengthBytes opcode 7 length ++ (le16Bytes field ++ rest) =
        opcodeByte :: low :: high :: more ∧
      (252 ≤ UInt8.toNat low ∧ UInt8.toNat high = 255 ↔
        length ≤ 9 ∧ 65532 ≤ field ∨ 261 ≤ length ∧ length ≤ 264 ∧ field % 256 = 255) := by
  by_cases hshort : length ≤ 9
  · refine ⟨_, _, _, _, by simp [lengthBytes, hshort, le16Bytes]; exact ⟨rfl, rfl, rfl, rfl⟩, ?_⟩
    rw [UInt8.toNat_ofNat', toNat_byte (by omega)]
    omega
  by_cases hzero : (length - 9 - 1) / 255 = 0
  · refine ⟨_, _, _, _, by
      simp only [lengthBytes, hshort, extension, hzero, le16Bytes, if_false, List.replicate,
        cons_append, nil_append]
      exact rfl, ?_⟩
    rw [toNat_byte (by omega), UInt8.toNat_ofNat']
    omega
  obtain ⟨zeros, hzeros⟩ := exists_eq_succ_of_ne_zero hzero
  obtain ⟨high, more, hmore⟩ := exists_cons_of_ne_nil
    (show List.replicate zeros (0 : UInt8) ++ ([UInt8.ofNat ((length - 9 - 1) % 255 + 1)] ++
      (le16Bytes field ++ rest)) ≠ [] by simp)
  refine ⟨UInt8.ofNat opcode, 0, high, more, ?_, ?_⟩
  · rw [← hmore]
    simp [lengthBytes, hshort, extension, hzeros, replicate_succ]
  · rw [UInt8.toNat_zero]
    omega

theorem lzoFar_le16Bytes {high low : Nat} (hlow : low < 16384) (ht : trailing ≤ 3)
    (hdistance : high + low + 16384 = distance) (hpos : high + low ≠ 0) :
    lzoFar capacity high length ⟨le16Bytes (low * 4 + trailing) ++ rest, out, state⟩ =
      (copyBack capacity distance length trailing ⟨rest, out, state⟩).map .again := by
  have hshift : (low * 4 + trailing) / 2 ^ 2 = low := by omega
  have hnext : (low * 4 + trailing) % 4 = trailing := by omega
  simp only [lzoFar, le16Bytes, cons_append, nil_append,
    le16_le16Bytes (show low * 4 + trailing < 65536 by omega), shiftRight_eq_div_pow, hshift,
    byte_and_three, hnext, if_neg hpos, hdistance]

theorem lzoInstruction_m4 (hfit : MatchKind.m4.Fits state distance length) (ht : trailing ≤ 3) :
    lzoInstruction capacity ⟨MatchKind.m4.encode distance length trailing ++ rest, out, state⟩ =
      if length ≤ 16777479 ∧ ¬M4Refused distance length trailing then
        (copyBack capacity distance length trailing ⟨rest, out, state⟩).map .again
      else none := by
  obtain ⟨hmin, hmax, hthree⟩ := hfit
  rw [MatchKind.encode]
  generalize hbase : 16 + (distance - 16384) / 16384 * 8 = base
  obtain ⟨low, extra, hbytes, hlow, hextended⟩ := lengthBytes_spec base hthree (show 7 ≤ 31 by omega)
  have hfield : (distance - 16384) % 16384 * 4 + trailing < 65536 := by omega
  obtain ⟨opcode, first, second, more, hpeek, htest⟩ := m4_peek base rest hfield hthree
  rw [hbytes, cons_append] at hpeek
  injection hpeek with hopcode hpeek
  have hbits := m4_opcode_bits (base + low) (by omega) (by omega)
  have hrefused : (le16 first second &&& 0xfffc = 0xfffc ∧ base + low &&& 0xf8 = 0x18) ↔
      M4Refused distance length trailing := by
    rw [le16_and_eq_iff, hbits.1, htest, M4Refused]
    omega
  have hlast : extendedLength (first :: second :: more) (low + 2) 2 7 =
      if length ≤ 16777479 then
        some (length, le16Bytes ((distance - 16384) % 16384 * 4 + trailing) ++ rest)
      else none := by
    rw [← hpeek, hextended, show 7 + 16777472 = 16777479 by omega]
  rw [hbytes, cons_append, cons_append, append_assoc, hpeek]
  simp only [lzoInstruction, toNat_byte (show base + low < 256 by omega), hrefused, hbits.2,
    byte_and_seven, byte_and_three, show (base + low) % 8 = low by omega, hlast,
    if_neg (show ¬base + low < 16 by omega), if_neg (show ¬64 ≤ base + low by omega),
    if_neg (show ¬32 ≤ base + low by omega)]
  by_cases hr : M4Refused distance length trailing
  · rw [if_pos hr, if_neg fun h => h.2 hr]
  · by_cases hl : length ≤ 16777479
    · rw [if_neg hr, if_pos hl, if_pos ⟨hl, hr⟩, bind_eq_bind, bind_some]
      exact lzoFar_le16Bytes (by omega) ht (by omega) (by omega)
    · rw [if_neg hr, if_neg hl, if_neg fun h => hl h.1, bind_eq_bind, bind_none]

theorem lzoInstruction_literals {run : List UInt8} (hrun : 4 ≤ run.length) :
    lzoInstruction capacity ⟨(Instruction.literals run).encode ++ rest, out, 0⟩ =
      if run.length ≤ 16777488 then
        (copyRun capacity run.length ⟨run ++ rest, out, 0⟩).map .again
      else none := by
  by_cases hshort : run.length ≤ 18
  · have hopcode := toNat_byte (show run.length - 3 < 256 by omega)
    simp only [Instruction.encode, if_pos hshort, cons_append, nil_append, lzoInstruction,
      hopcode, if_pos (show run.length - 3 < 16 by omega), if_true, extendedLength,
      if_neg (show run.length - 3 ≠ 0 by omega), bind_eq_bind, bind_some,
      Nat.sub_add_cancel (show 3 ≤ run.length by omega),
      if_pos (show run.length ≤ 16777488 by omega)]
  have hlength : 0 + 15 + (run.length - 18) + 3 = run.length := by omega
  simp only [Instruction.encode, if_neg hshort, cons_append, append_assoc,
    lzoInstruction, UInt8.toNat_zero, zero_lt_succ, if_true, extendedLength,
    extendLength_extension (show 1 ≤ run.length - 18 by omega) (Nat.zero_le 2)
      (show 15 ≤ 31 by omega)]
  by_cases hlong : run.length ≤ 16777488
  · rw [if_pos hlong, if_pos (by omega), bind_eq_bind, bind_some, hlength]
  · rw [if_neg hlong, if_neg (by omega), bind_eq_bind, bind_none]

theorem lzoInstruction_terminator :
    lzoInstruction capacity ⟨Stream.terminator, out, state⟩ = some (.done 3 ⟨[], out, state⟩) := by
  simp [lzoInstruction, Stream.terminator, extendedLength, lzoFar, le16]

end Instructions

section Runs

variable {capacity state : Nat} {out rest : List UInt8}

/-- The source does with this instruction what the format says, after this output. -/
def Followed (out : List UInt8) : Instruction → Prop
  | .literals run => run.length ≤ 16777488
  | .copy .m1 _ _ _ => True
  | .copy .m1Far distance length _ =>
    distance + 14336 ≤ out.length ∧
      copyMatch out (distance + 14336) length = copyMatch out distance length
  | .copy .m2 _ _ _ => True
  | .copy .m3 _ length _ => length ≤ 16777503
  | .copy .m4 distance length trail =>
    length ≤ 16777479 ∧ ¬M4Refused distance length trail.length

/-- All these instructions are followed, each after the output of the ones before it. -/
def AllFollowed : (out : List UInt8) → List Instruction → Prop
  | _, [] => True
  | out, i :: rest => Followed out i ∧ AllFollowed (i.expand out) rest

theorem length_expand_copy (kind : MatchKind) (distance length : Nat) (trail : List UInt8) :
    ((Instruction.copy kind distance length trail).expand out).length =
      out.length + length + trail.length := by
  simp [Instruction.expand]

/-- A pass over an instruction that is followed. -/
theorem lzoInstruction_of_followed (hfit : i.Fits state out.length) (hfollowed : Followed out i)
    (hcapacity : (i.expand out).length ≤ capacity) (rest : List UInt8) :
    lzoInstruction capacity ⟨i.encode ++ rest, out, state⟩ =
      some (.again ⟨rest, i.expand out, i.next⟩) := by
  cases i with
  | literals run =>
    obtain ⟨rfl, hrun⟩ := hfit
    have hroom : out.length + run.length ≤ capacity := by simpa [Instruction.expand] using hcapacity
    simp only [lzoInstruction_literals hrun, if_pos (show run.length ≤ 16777488 from hfollowed),
      copyRun_append hroom, map_some, Instruction.expand, Instruction.next]
  | copy kind distance length trail =>
    obtain ⟨hkind, hdistance, htrail⟩ := hfit
    rw [length_expand_copy] at hcapacity
    rw [Instruction.encode, append_assoc]
    cases kind with
    | m1 =>
      rw [lzoInstruction_m1 hkind htrail, copyBack_append hdistance hcapacity]
      rfl
    | m1Far =>
      rw [lzoInstruction_m1Far hkind htrail, copyBack_append hfollowed.1 hcapacity, hfollowed.2]
      rfl
    | m2 =>
      rw [lzoInstruction_m2 hkind htrail, copyBack_append hdistance hcapacity]
      rfl
    | m3 =>
      rw [lzoInstruction_m3 hkind htrail, if_pos (show length ≤ 16777503 from hfollowed),
        copyBack_append hdistance hcapacity]
      rfl
    | m4 =>
      have hlength : length ≤ 16777479 ∧ ¬M4Refused distance length trail.length := hfollowed
      rw [lzoInstruction_m4 hkind htrail, if_pos hlength, copyBack_append hdistance hcapacity]
      rfl

/-- A pass over an instruction that is not followed fails, or writes something else. -/
theorem lzoInstruction_of_not_followed (hfit : i.Fits state out.length) (hnot : ¬Followed out i)
    (hcapacity : (i.expand out).length ≤ capacity) (rest : List UInt8) :
    lzoInstruction capacity ⟨i.encode ++ rest, out, state⟩ = none ∨
      ∃ s, lzoInstruction capacity ⟨i.encode ++ rest, out, state⟩ = some (.again s) ∧
        s.output.length = (i.expand out).length ∧ s.output ≠ i.expand out := by
  cases i with
  | literals run =>
    obtain ⟨rfl, hrun⟩ := hfit
    rw [lzoInstruction_literals hrun, if_neg (show ¬run.length ≤ 16777488 from hnot)]
    exact .inl rfl
  | copy kind distance length trail =>
    obtain ⟨hkind, hdistance, htrail⟩ := hfit
    rw [length_expand_copy] at hcapacity
    rw [Instruction.encode, append_assoc]
    cases kind with
    | m1 => exact absurd trivial hnot
    | m1Far =>
      rw [lzoInstruction_m1Far hkind htrail]
      by_cases hfar : distance + 14336 ≤ out.length
      · refine .inr ⟨_, by rw [copyBack_append hfar hcapacity]; rfl, ?_, ?_⟩
        · simp [Instruction.expand]
        · intro heq
          exact hnot ⟨hfar, append_cancel_right heq⟩
      · rw [copyBack_of_lt (by omega)]
        exact .inl rfl
    | m2 => exact absurd trivial hnot
    | m3 =>
      rw [lzoInstruction_m3 hkind htrail, if_neg (show ¬length ≤ 16777503 from hnot)]
      exact .inl rfl
    | m4 =>
      have hlength : ¬(length ≤ 16777479 ∧ ¬M4Refused distance length trail.length) := hnot
      rw [lzoInstruction_m4 hkind htrail, if_neg hlength]
      exact .inl rfl

theorem isPrefix_expand (i : Instruction) : out <+: i.expand out := by
  cases i with
  | literals run => exact prefix_append out run
  | copy kind distance length trail =>
    exact (isPrefix_copyMatch distance length out).trans (prefix_append _ trail)

theorem isPrefix_foldl_expand (body : List Instruction) :
    out <+: body.foldl Instruction.expand out := by
  induction body generalizing out with
  | nil => exact prefix_refl out
  | cons i body ih => exact (isPrefix_expand i).trans ih

/-- The loop on the instructions of a stream. By induction on them: behind an instruction that is
followed the loop stands where the format says, and behind one that is not it can no longer end with
the output described, because output once written stays. -/
theorem lzoLoop_eq_iff {body : List Instruction} {fuel : Nat} (hvalid : Valid state out body)
    (hcapacity : (body.foldl Instruction.expand out).length ≤ capacity)
    (hfuel : (body.flatMap Instruction.encode ++ Stream.terminator).length < fuel) :
    lzoLoop capacity fuel ⟨body.flatMap Instruction.encode ++ Stream.terminator, out, state⟩ =
        some (body.foldl Instruction.expand out) ↔
      AllFollowed out body := by
  induction body generalizing out state fuel with
  | nil =>
    obtain ⟨fuel, rfl⟩ := Nat.exists_eq_add_of_lt hfuel
    simp [lzoLoop, lzoInstruction_terminator, AllFollowed]
  | cons i body ih =>
    obtain ⟨hfit, hvalid⟩ := hvalid
    obtain ⟨fuel, rfl⟩ := Nat.exists_eq_add_of_lt hfuel
    have hroom : (i.expand out).length ≤ capacity :=
      (isPrefix_foldl_expand body).length_le.trans hcapacity
    rw [flatMap_cons, append_assoc, foldl_cons, AllFollowed, lzoLoop]
    by_cases hfollowed : Followed out i
    · have hnext := lzoInstruction_of_followed hfit hfollowed hroom
        (body.flatMap Instruction.encode ++ Stream.terminator)
      have hread := (lzoInstruction_onward hnext).2
      simp only [LzoNext.state, length_append] at hread
      simp only [hnext, hfollowed, true_and]
      apply ih hvalid hcapacity
      simp only [length_append]
      omega
    simp only [hfollowed, false_and, iff_false]
    rcases lzoInstruction_of_not_followed hfit hfollowed hroom
      (body.flatMap Instruction.encode ++ Stream.terminator)
      with hnone | ⟨s, hagain, hlength, hother⟩
    · simp [hnone]
    · intro hresult
      simp only [hagain] at hresult
      exact hother ((prefix_of_prefix_length_le (lzoLoop_isPrefix hresult)
        (isPrefix_foldl_expand body) hlength.le).eq_of_length hlength)

end Runs

/-- A first byte of 21 or more: the initial literals are copied, and the loop starts behind them. -/
theorem lzoStart_initial {initial : List UInt8} {capacity : Nat} (hfour : 4 ≤ initial.length)
    (hmax : initial.length ≤ 238) (hcapacity : initial.length ≤ capacity) :
    lzoStart capacity (UInt8.ofNat (17 + initial.length)) (initial ++ rest) =
      some ⟨rest, initial, 4⟩ := by
  have hcopy : copyRun capacity initial.length ⟨initial ++ rest, [], 0⟩ =
      some ⟨rest, initial, 4⟩ := copyRun_append (by simpa using hcapacity)
  simp only [lzoStart, toNat_byte (show 17 + initial.length < 256 by omega), Nat.add_sub_cancel_left,
    if_pos (show 17 < 17 + initial.length by omega), if_neg (show ¬initial.length < 4 by omega), hcopy]

/-- A stream with four or more initial literals comes out as described exactly when the source
follows each of its instructions. -/
theorem btrfsLzo1xDecompress_eq_expand_iff (stream : Stream) (capacity : Nat)
    (hfour : 4 ≤ stream.initial.length) (hcapacity : stream.expand.length ≤ capacity) :
    btrfsLzo1xDecompress stream.encode capacity = some stream.expand ↔
      AllFollowed stream.initial stream.body := by
  have hroom : stream.initial.length ≤ capacity :=
    (isPrefix_foldl_expand stream.body).length_le.trans hcapacity
  have hne : stream.initial ≠ [] := ne_nil_of_length_pos (by omega)
  have hsize : ¬((UInt8.ofNat (17 + stream.initial.length) :: (stream.initial ++
      (stream.body.flatMap Instruction.encode ++ Stream.terminator))).length < 3 ∨
      capacity = 0) := by
    simp only [length_cons, length_append]
    omega
  have hvalid := stream.valid
  rw [initialState, if_neg (by omega)] at hvalid
  simp only [Stream.encode, if_neg hne, cons_append, btrfsLzo1xDecompress, if_neg hsize,
    lzoStart_initial hfour stream.initial_le hroom, bind_some]
  exact lzoLoop_eq_iff hvalid hcapacity (lt_succ_self _)


/-- Four initial literals and a match that overlaps itself. -/
def overlapStream : Stream where
  initial := [1, 2, 3, 4]
  body := [.copy .m2 2 3 [9]]
  initial_le := by decide
  valid := ⟨by decide, trivial⟩

theorem overlapStream_decompressed :
    4 ≤ overlapStream.initial.length ∧ overlapStream.expand.length ≤ 8 ∧
      btrfsLzo1xDecompress overlapStream.encode 8 = some [1, 2, 3, 4, 3, 4, 3, 9] :=
  ⟨by decide, by decide,
    (btrfsLzo1xDecompress_eq_expand_iff overlapStream 8 (by decide) (by decide)).mpr
      ⟨trivial, trivial⟩⟩

/-- Initial literals `A` and nothing else. -/
def initialStream (count : Nat) (h : count ≤ 238) : Stream where
  initial := List.replicate count 65
  body := []
  initial_le := by simpa using h
  valid := trivial

/-- `12 41 11 00 00` describes the one byte `A`. -/
theorem one_initial_literal_refused :
    (initialStream 1 (by decide)).encode = [0x12, 0x41, 0x11, 0x00, 0x00] ∧
      (initialStream 1 (by decide)).expand.length ≤ 1 ∧
      btrfsLzo1xDecompress (initialStream 1 (by decide)).encode 1 ≠
        some (initialStream 1 (by decide)).expand := by
  decide

end KernelBoot.Btrfs
