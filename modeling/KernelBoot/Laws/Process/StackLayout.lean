import KernelBoot.Process.UserStack

/-!
# The layout of the initial user stack

What a program is to find at its stack pointer, and that the writes of `process_prepare_user_stack` lay
it out. The writes are followed one after the other: each goes below all earlier ones, so what stands in
the stack keeps standing.
-/

namespace KernelBoot.Process

open Lib Lib.Attempt Mm List

variable {source : List UInt8} {cursor i lower lowest top value : Nat}
  {environment strings : List (List UInt8)}
variable {memory'' : Memory} {bytes : List UInt8} {addresses values : List Nat}
  {arguments : List (List UInt8)}

/-! ## The memory of the stack -/

section Memory

variable (stack : UserStack) (memory : Memory)

/-- The byte a program sees at a stack address. -/
def stackByte (address : Nat) : UInt8 :=
  UInt8.ofBitVec ((memory (stack.frame ((address - stack.base) / 0x1000))).bytes
    ((address - stack.base) % 0x1000))

/-- The 64-bit word a program sees at a stack address. -/
def stackWord (address : Nat) : Nat :=
  leNat ((List.range 8).map fun i => stackByte stack memory (address + i))

/-- These bytes stand at an address. -/
def Stands (address : Nat) (bytes : List UInt8) : Prop :=
  ∀ i byte, bytes[i]? = some byte → stackByte stack memory (address + i) = byte

/-- A string with its terminator stands at an address. -/
def StringAt (address : Nat) (string : List UInt8) : Prop := Stands stack memory address (string ++ [0])

end Memory

variable {stack : UserStack} {memory memory' : Memory} {address : Nat}

/-- The page of a stack address, by its number. -/
theorem page_ne {offset other : Nat} (ho : offset < 0x8000) (hother : other < 0x8000)
    (h : offset / 0x1000 ≠ other / 0x1000) :
    stack.frame (offset / 0x1000) ≠ stack.frame (other / 0x1000) := by
  intro hsame
  have hfin := congrArg Fin.val (stack.distinct hsame)
  rw [Fin.val_ofNat, Fin.val_ofNat, Nat.mod_eq_of_lt (by omega), Nat.mod_eq_of_lt (by omega)] at hfin
  exact h hfin

/-- One chunk, which ends in the page it begins in. -/
theorem stackByte_writeFrame {count va : Nat} (hbase : stack.base ≤ address)
    (hcount : (address - stack.base) % 0x1000 + count ≤ 0x1000) (htop : address < stack.top)
    (hva : stack.base ≤ va) (hvatop : va < stack.top) :
    stackByte stack (writeFrame memory (stack.frame ((address - stack.base) / 0x1000))
      ((address - stack.base) % 0x1000) count (bufferOf source)) va =
      if address ≤ va ∧ va < address + count then source.getD (va - address) 0
      else stackByte stack memory va := by
  unfold UserStack.top userStackPages at *
  rw [stackByte]
  have hlt : (va - stack.base) % 0x1000 < 4096 := Nat.mod_lt _ (by decide)
  by_cases hpage : (va - stack.base) / 0x1000 = (address - stack.base) / 0x1000
  · rw [hpage, writeFrame_bytes hlt]
    by_cases hin : address ≤ va ∧ va < address + count
    · rw [if_pos hin, Bytes.splice_of_mem (by omega), bufferOf]
      have hindex : (va - stack.base) % 0x1000 - (address - stack.base) % 0x1000 = va - address := by
        omega
      rw [hindex]
    · rw [if_neg hin, Bytes.splice_of_not_mem (by omega), stackByte, hpage]
  · rw [writeFrame_other (page_ne (by omega) (by omega) hpage), if_neg (by omega), stackByte]

/-- The copy loop writes the source at the address, and nothing else. -/
theorem stackByte_stackCopy {va : Nat} (hbase : stack.base ≤ address)
    (htop : address + source.length ≤ stack.top) (hva : stack.base ≤ va) (hvatop : va < stack.top) :
    stackByte stack (stackCopy stack address source memory) va =
      if address ≤ va ∧ va < address + source.length then source.getD (va - address) 0
      else stackByte stack memory va := by
  induction address, source, memory using stackCopy.induct stack with
  | case1 address source memory hempty =>
    rw [stackCopy, dif_pos hempty, if_neg (by omega)]
  | case2 address source memory hne offset count ih =>
    have hcount : count = min (0x1000 - offset % 0x1000) source.length := rfl
    have hoffset : offset = address - stack.base := rfl
    have hmod : offset % 0x1000 < 0x1000 := Nat.mod_lt _ (by decide)
    rw [length_drop] at ih
    rw [stackCopy, dif_neg hne]
    refine (ih (by omega) (by omega)).trans ?_
    rw [stackByte_writeFrame hbase (by omega) (by omega) hva hvatop]
    by_cases hlater : address + count ≤ va ∧ va < address + count + (source.length - count)
    · rw [if_pos hlater, if_pos (by omega), getD_eq_getElem?_getD, getD_eq_getElem?_getD,
        getElem?_drop]
      have hindex : count + (va - (address + count)) = va - address := by omega
      rw [hindex]
    · rw [if_neg hlater]
      by_cases hnow : address ≤ va ∧ va < address + count
      · rw [if_pos hnow, if_pos (by omega)]
      · rw [if_neg hnow, if_neg (by omega)]

/-- Memory is as it was from an address on. -/
def SameFrom (stack : UserStack) (memory memory' : Memory) (address : Nat) : Prop :=
  ∀ va, address ≤ va → va < stack.top → stackByte stack memory' va = stackByte stack memory va

theorem SameFrom.refl : SameFrom stack memory memory address := fun _ _ _ => rfl

theorem SameFrom.trans (h : SameFrom stack memory memory' address)
    (h' : SameFrom stack memory' memory'' lower) (hle : lower ≤ address) :
    SameFrom stack memory memory'' address := by
  intro va hva htop
  rw [h' va (by omega) htop, h va hva htop]

theorem Stands.mono (h : Stands stack memory address bytes)
    (hsame : SameFrom stack memory memory' lower) (hle : lower ≤ address)
    (htop : address + bytes.length ≤ stack.top) : Stands stack memory' address bytes := by
  intro i byte hbyte
  have hi : i < bytes.length := (List.getElem?_eq_some_iff.mp hbyte).1
  rw [hsame _ (by omega) (by omega), h i byte hbyte]

/-- A write that succeeds has the bytes stand where they should, and keeps what is above. -/
theorem write_spec {u : Unit}
    (h : processUserStackWrite stack address source memory = (some u, memory')) :
    stack.base ≤ address ∧ address + source.length ≤ stack.top ∧
      Stands stack memory' address source ∧
      SameFrom stack memory memory' (address + source.length) := by
  obtain ⟨_, s, hcheck, hchange⟩ := bind_eq_some_iff.mp h
  by_cases hin : stack.base ≤ address ∧ address ≤ stack.top ∧ source.length ≤ stack.top - address
  · rw [check_of_true hin] at hcheck
    cases hcheck
    cases hchange
    obtain ⟨hbase, htop, hlength⟩ := hin
    refine ⟨hbase, by omega, fun i byte hbyte => ?_, fun va hva hvatop => ?_⟩
    · have hi : i < source.length := (List.getElem?_eq_some_iff.mp hbyte).1
      rw [stackByte_stackCopy hbase (by omega) (by omega) (by omega), if_pos (by omega),
        Nat.add_sub_cancel_left, getD_eq_getElem?_getD, hbyte, Option.getD_some]
    · rw [stackByte_stackCopy hbase (by omega) (by omega) hvatop, if_neg (by omega)]
  · rw [check_of_false hin] at hcheck
    cases hcheck

/-! ## Strings below a cursor -/

def totalLength (strings : List (List UInt8)) : Nat := (strings.map List.length).sum

/-- Where strings go that are packed below an address, in order. -/
def addressesBelow (top : Nat) : List (List UInt8) → List Nat
  | [] => []
  | string :: rest => (top - totalLength (string :: rest)) :: addressesBelow top rest

theorem totalLength_cons (string : List UInt8) (rest : List (List UInt8)) :
    totalLength (string :: rest) = string.length + totalLength rest := by
  rw [totalLength, map_cons, sum_cons, totalLength]

theorem totalLength_append (strings others : List (List UInt8)) :
    totalLength (strings ++ others) = totalLength strings + totalLength others := by
  rw [totalLength, map_append, sum_append, totalLength, totalLength]

theorem totalLength_singleton (string : List UInt8) : totalLength [string] = string.length := by
  rw [totalLength_cons]
  rfl

theorem addressesBelow_le : ∀ a ∈ addressesBelow top strings, a ≤ top := by
  induction strings with
  | nil => exact forall_mem_nil _
  | cons string rest ih => exact forall_mem_cons.mpr ⟨Nat.sub_le _ _, ih⟩

theorem length_addressesBelow (top : Nat) (strings : List (List UInt8)) :
    (addressesBelow top strings).length = strings.length := by
  induction strings with
  | nil => rfl
  | cons string rest ih => rw [addressesBelow, length_cons, ih, length_cons]

theorem addressesBelow_append (top : Nat) (strings others : List (List UInt8)) :
    addressesBelow top (strings ++ others) =
      addressesBelow (top - totalLength others) strings ++ addressesBelow top others := by
  induction strings with
  | nil => rfl
  | cons string rest ih =>
    have hsum : totalLength (string :: (rest ++ others)) =
        totalLength others + totalLength (string :: rest) := by
      rw [totalLength_cons, totalLength_cons, totalLength_append]
      omega
    rw [cons_append, addressesBelow, ih, addressesBelow, cons_append, hsum, Nat.sub_sub]

/-- Strings were placed below `cursor`, down to `lowest`. -/
structure Placed (stack : UserStack) (memory memory' : Memory) (cursor lowest : Nat)
    (strings : List (List UInt8)) : Prop where
  sum : lowest + totalLength strings = cursor
  base : stack.base ≤ lowest
  stands : List.Forall₂ (Stands stack memory') (addressesBelow cursor strings) strings
  same : SameFrom stack memory memory' cursor

/-- Strings that stand below an address keep standing when nothing from some lower address on changes. -/
theorem stands_below (hsum : lowest + totalLength strings = cursor) (htop : cursor ≤ stack.top)
    (h : List.Forall₂ (Stands stack memory) (addressesBelow cursor strings) strings)
    (hsame : SameFrom stack memory memory' lower) (hle : lower ≤ lowest) :
    List.Forall₂ (Stands stack memory') (addressesBelow cursor strings) strings := by
  induction strings generalizing lowest with
  | nil => exact .nil
  | cons string rest ih =>
    have haddress : cursor - totalLength (string :: rest) = lowest := by omega
    rw [totalLength_cons, ← Nat.add_assoc] at hsum
    obtain _ | ⟨hstands, hrest⟩ := h
    rw [haddress] at hstands
    refine .cons ?_ (ih hsum hrest (by omega))
    rw [haddress]
    exact hstands.mono hsame hle (by omega)

/-- Strings placed below others that were placed before. -/
theorem Placed.append {middle : Nat} {others : List (List UInt8)}
    (h : Placed stack memory memory' cursor middle others)
    (h' : Placed stack memory' memory'' middle lowest strings) (htop : cursor ≤ stack.top) :
    Placed stack memory memory'' cursor lowest (strings ++ others) := by
  have hmiddle := h.sum
  have hlowest := h'.sum
  have hbelow : cursor - totalLength others = middle := by omega
  refine ⟨by rw [totalLength_append]; omega, h'.base, ?_, h.same.trans h'.same (by omega)⟩
  rw [addressesBelow_append, hbelow]
  exact rel_append h'.stands (stands_below h.sum htop h.stands h'.same (Nat.le_refl _))

theorem placed_write {u : Unit}
    (h : processUserStackWrite stack (cursor - source.length) source memory = (some u, memory')) :
    Placed stack memory memory' cursor (cursor - source.length) [source] := by
  obtain ⟨hbase, htop, hstands, hsame⟩ := write_spec h
  have huser := stack.user.1
  -- the lowest page is far above address 0, so the subtraction did not go under it
  have hle : cursor - source.length + source.length = cursor := by omega
  rw [hle] at hsame
  refine ⟨by rw [totalLength_singleton]; exact hle, hbase, .cons ?_ .nil, hsame⟩
  rw [totalLength_singleton]
  exact hstands

theorem placeStrings_spec {addresses' : List Nat} (hbase : stack.base ≤ cursor)
    (htop : cursor ≤ stack.top)
    (h : placeStrings stack strings cursor addresses memory = (some (lowest, addresses'), memory')) :
    Placed stack memory memory' cursor lowest strings.reverse ∧
      addresses' = addressesBelow cursor strings.reverse ++ addresses := by
  induction strings generalizing cursor addresses memory with
  | nil =>
    cases h
    exact ⟨⟨rfl, hbase, .nil, .refl⟩, rfl⟩
  | cons string rest ih =>
    obtain ⟨_, memory₁, hwrite, hrest⟩ := bind_eq_some_iff.mp h
    have hplaced := placed_write hwrite
    have hsum := hplaced.sum
    rw [totalLength_singleton] at hsum
    obtain ⟨hplaced', haddresses⟩ := ih hplaced.base (by omega) hrest
    rw [reverse_cons]
    refine ⟨hplaced.append hplaced' htop, ?_⟩
    rw [haddresses, addressesBelow_append, totalLength_singleton, append_assoc]
    rfl

/-- A region of the stack: where it begins and how long it is. -/
abbrev Region := Nat × Nat

def Region.Inside (stack : UserStack) (region : Region) : Prop :=
  stack.base ≤ region.1 ∧ region.1 + region.2 ≤ stack.top

def Region.Before (region other : Region) : Prop := region.1 + region.2 ≤ other.1

/-- The regions of strings packed below an address. -/
def regionsBelow (top : Nat) (strings : List (List UInt8)) : List Region :=
  (addressesBelow top strings).zip (strings.map List.length)

theorem regionsBelow_append (top : Nat) (strings others : List (List UInt8)) :
    regionsBelow top (strings ++ others) =
      regionsBelow (top - totalLength others) strings ++ regionsBelow top others := by
  rw [regionsBelow, addressesBelow_append, map_append, zip_append, regionsBelow, regionsBelow]
  rw [length_addressesBelow, length_map]

theorem regionsBelow_cons (top : Nat) (string : List UInt8) (rest : List (List UInt8)) :
    regionsBelow top (string :: rest) =
      (top - totalLength (string :: rest), string.length) :: regionsBelow top rest := rfl

/-- Packed strings lie between the lowest address and the highest, in order. -/
theorem regionsBelow_spec (h : lowest + totalLength strings = top) :
    (∀ region ∈ regionsBelow top strings, lowest ≤ region.1 ∧ region.1 + region.2 ≤ top) ∧
      (regionsBelow top strings).Pairwise Region.Before := by
  induction strings generalizing lowest with
  | nil => exact ⟨forall_mem_nil _, .nil⟩
  | cons string rest ih =>
    have hfirst : top - totalLength (string :: rest) = lowest := by omega
    rw [totalLength_cons, ← Nat.add_assoc] at h
    obtain ⟨hinside, hpairwise⟩ := ih h
    rw [regionsBelow_cons, hfirst]
    refine ⟨forall_mem_cons.mpr ⟨⟨Nat.le_refl _, ?_⟩, fun region hregion => ?_⟩,
      .cons (fun region hregion => ?_) hpairwise⟩
    · simp only
      omega
    · have := hinside region hregion
      omega
    · exact (hinside region hregion).1

/-! ## The vector -/

theorem stands_window (h : Stands stack memory address bytes) {n : Nat}
    (hlength : i + n ≤ bytes.length) :
    (List.range n).map (fun j => stackByte stack memory (address + i + j)) =
      (bytes.drop i).take n := by
  apply ext_getElem?
  intro j
  by_cases hj : j < n
  · have hin : i + j < bytes.length := by omega
    rw [getElem?_map, getElem?_range hj, Option.map_some, getElem?_take_of_lt hj,
      getElem?_drop, getElem?_eq_getElem hin, Nat.add_assoc,
      h _ _ (getElem?_eq_getElem hin)]
  · rw [getElem?_eq_none (by rw [length_map, length_range]; omega),
      getElem?_eq_none (by rw [length_take]; omega)]

theorem flatMap_leBytes_window (h : values[i]? = some value) :
    ((values.flatMap (leBytes 8)).drop (8 * i)).take 8 = leBytes 8 value := by
  induction values generalizing i with
  | nil => cases h
  | cons head rest ih =>
    rw [flatMap_cons]
    cases i with
    | zero =>
      cases h
      rw [Nat.mul_zero, drop_zero, take_left' (length_leBytes 8 value)]
    | succ i =>
      have hdrop : 8 * (i + 1) = (leBytes 8 head).length + 8 * i := by
        rw [length_leBytes]
        omega
      rw [hdrop, drop_append, drop_of_length_le (Nat.le_add_right _ _), nil_append,
        Nat.add_sub_cancel_left]
      exact ih h

theorem length_flatMap_leBytes (values : List Nat) :
    (values.flatMap (leBytes 8)).length = 8 * values.length := by
  simp [length_flatMap, length_leBytes, Nat.mul_comm]

theorem stackWord_of_stands (h : Stands stack memory address (values.flatMap (leBytes 8)))
    (hvalue : values[i]? = some value) (hlt : value < 2 ^ 64) :
    stackWord stack memory (address + 8 * i) = value := by
  have hi : i < values.length := (List.getElem?_eq_some_iff.mp hvalue).1
  rw [stackWord, stands_window h (by rw [length_flatMap_leBytes]; omega),
    flatMap_leBytes_window hvalue, leNat_leBytes]
  exact Nat.mod_eq_of_lt hlt

/-! ## The whole stack -/

/-- The regions of an initial stack: the vector, the environment and the arguments. -/
def stackRegions (pointer : Nat) (arguments environment : List (List UInt8)) (argv envp : List Nat) :
    List Region :=
  (pointer, 8 * (3 + arguments.length + environment.length)) ::
    (envp.zip (environment.map fun string => string.length + 1) ++
      argv.zip (arguments.map fun string => string.length + 1))

/-- What a program is to find at its stack pointer: the argument count, the pointers `argv`, a null, the
pointers `envp` and a null, with the strings where the pointers say. -/
structure InitialStack (stack : UserStack) (memory : Memory) (pointer : Nat)
    (arguments environment : List (List UInt8)) (argv envp : List Nat) : Prop where
  aligned : pointer % 16 = 0
  vector : ∀ i value, (arguments.length :: (argv ++ 0 :: (envp ++ [0])))[i]? = some value →
    stackWord stack memory (pointer + 8 * i) = value
  argumentStrings : List.Forall₂ (StringAt stack memory) argv arguments
  environmentStrings : List.Forall₂ (StringAt stack memory) envp environment
  inside : ∀ region ∈ stackRegions pointer arguments environment argv envp, region.Inside stack
  disjoint : (stackRegions pointer arguments environment argv envp).Pairwise Region.Before

theorem forall₂_stands_iff : List.Forall₂ (Stands stack memory) addresses (strings.map (· ++ [0])) ↔
      List.Forall₂ (StringAt stack memory) addresses strings :=
  forall₂_map_right_iff

/-- The vector for strings that come with their terminators. -/
def stackVector (arguments environment : List (List UInt8)) (top : Nat) : List Nat :=
  arguments.length :: (addressesBelow top arguments ++ 0 ::
    (addressesBelow (top - totalLength arguments) environment ++ [0]))

theorem length_stackVector (arguments environment : List (List UInt8)) (top : Nat) :
    (stackVector arguments environment top).length = 3 + arguments.length + environment.length := by
  simp only [stackVector, length_cons, length_append, length_addressesBelow, length_nil]
  omega

theorem stackVector_le (h : value ∈ stackVector arguments environment top) :
    value = arguments.length ∨ value ≤ top := by
  simp only [stackVector, mem_cons, mem_append, not_mem_nil, or_false] at h
  rcases h with rfl | h | rfl | h | rfl
  · exact .inl rfl
  · exact .inr (addressesBelow_le _ h)
  · exact .inr (Nat.zero_le _)
  · exact .inr (Nat.le_trans (addressesBelow_le _ h) (Nat.sub_le _ _))
  · exact .inr (Nat.zero_le _)

/-- The writes of `buildUserStack`: the strings, packed from the top, and the vector below them. -/
theorem buildUserStack_writes {path : List UInt8} {tokens : List (List UInt8)} {pointer : Nat}
    (h : buildUserStack stack path tokens environment memory = (some pointer, memory')) :
    ∃ lowest memory₁, Placed stack memory memory₁ stack.top lowest (environment ++ path :: tokens) ∧
      pointer = (lowest - (3 + (path :: tokens).length + environment.length) * 8) / 16 * 16 ∧
      processUserStackWrite stack pointer
        ((stackVector (path :: tokens) environment stack.top).flatMap (leBytes 8)) memory₁ =
        (some (), memory') := by
  obtain ⟨⟨cursor, addresses⟩, memory₁, htokens, h⟩ := bind_eq_some_iff.mp h
  obtain ⟨_, memory₂, hpath, h⟩ := bind_eq_some_iff.mp h
  obtain ⟨⟨lowest, envp⟩, memory₃, henvironment, h⟩ := bind_eq_some_iff.mp h
  obtain ⟨_, memory₄, hvector, h⟩ := bind_eq_some_iff.mp h
  cases h
  have htop : stack.base ≤ stack.top := Nat.le_add_right _ _
  obtain ⟨hplaced, rfl⟩ := placeStrings_spec htop (Nat.le_refl _) htokens
  rw [reverse_reverse] at hplaced
  have hargv := hplaced.append (placed_write hpath) (Nat.le_refl _)
  rw [singleton_append] at hargv
  have hsum := hargv.sum
  obtain ⟨henv, rfl⟩ := placeStrings_spec hargv.base (by omega) henvironment
  rw [reverse_reverse] at henv
  have hcount : 3 + (path :: tokens).length = 4 + tokens.length := by
    rw [length_cons]
    omega
  have hpathAddress : cursor - path.length = stack.top - totalLength (path :: tokens) := by omega
  have hvalues : stackVector (path :: tokens) environment stack.top =
      [1 + tokens.length, cursor - path.length] ++
      (addressesBelow stack.top tokens.reverse.reverse ++ []) ++ [0] ++
      (addressesBelow (cursor - path.length) environment.reverse.reverse ++ []) ++ [0] := by
    rw [stackVector, addressesBelow, hpathAddress, length_cons, Nat.add_comm 1]
    simp only [reverse_reverse, append_nil, append_assoc, cons_append,
      nil_append]
  rw [hcount, hvalues]
  exact ⟨lowest, memory₃, hargv.append henv (Nat.le_refl _), rfl, hvector⟩

/-- Strings with their terminators packed below the top, and the vector that points to them. -/
theorem initialStack_of_writes {memory₁ : Memory} {pointer : Nat}
    (hplaced : Placed stack memory memory₁ stack.top lowest
      (environment.map (· ++ [0]) ++ arguments.map (· ++ [0])))
    (hpointer : pointer = (lowest - (3 + arguments.length + environment.length) * 8) / 16 * 16)
    (hvector : processUserStackWrite stack pointer ((stackVector (arguments.map (· ++ [0]))
      (environment.map (· ++ [0])) stack.top).flatMap (leBytes 8)) memory₁ = (some (), memory')) :
    ∃ argv envp, InitialStack stack memory' pointer arguments environment argv envp := by
  obtain ⟨hbase, hend, hstands, hsame⟩ := write_spec hvector
  have huser := stack.user
  have hsum := hplaced.sum
  have hlowest := hplaced.base
  have hlength : ((stackVector (arguments.map (· ++ [0])) (environment.map (· ++ [0]))
      stack.top).flatMap (leBytes 8)).length = 8 * (3 + arguments.length + environment.length) := by
    rw [length_flatMap_leBytes, length_stackVector, length_map, length_map]
  rw [hlength] at hend hsame
  have hbelow : pointer + 8 * (3 + arguments.length + environment.length) ≤ lowest := by omega
  -- the strings were there before the vector was written below them
  have hstrings := stands_below hsum (Nat.le_refl _) hplaced.stands hsame hbelow
  obtain ⟨hregions, hordered⟩ := regionsBelow_spec hsum
  have hstack : stack.top = stack.base + 0x8000 := rfl
  set argv := addressesBelow stack.top (arguments.map (· ++ [0])) with hargv
  set envp := addressesBelow (stack.top - totalLength (arguments.map (· ++ [0])))
    (environment.map (· ++ [0])) with henvp
  have hsplit : addressesBelow stack.top (environment.map (· ++ [0]) ++ arguments.map (· ++ [0])) =
      envp ++ argv := addressesBelow_append _ _ _
  have hshape : stackRegions pointer arguments environment argv envp =
      (pointer, 8 * (3 + arguments.length + environment.length)) ::
        regionsBelow stack.top (environment.map (· ++ [0]) ++ arguments.map (· ++ [0])) := by
    rw [stackRegions, regionsBelow_append, regionsBelow, regionsBelow, map_map, map_map]
    simp only [Function.comp_def, length_append, length_singleton, hargv, henvp]
  rw [hsplit] at hstrings
  have henvLength : envp.length = (environment.map (· ++ [0])).length := length_addressesBelow _ _
  have htake := forall₂_take_append _ _ _ hstrings
  have hdrop := forall₂_drop_append _ _ _ hstrings
  rw [take_left' henvLength] at htake
  rw [drop_left' henvLength] at hdrop
  refine ⟨argv, envp, ⟨?_, ?_, forall₂_stands_iff.mp hdrop, forall₂_stands_iff.mp htake, ?_, ?_⟩⟩
  · rw [hpointer]
    exact Nat.mul_mod_left _ _
  · intro i value hvalue
    have hvector : (stackVector (arguments.map (· ++ [0])) (environment.map (· ++ [0]))
        stack.top)[i]? = some value := by
      rw [stackVector, length_map]
      exact hvalue
    refine stackWord_of_stands hstands hvector ?_
    have hbound : stack.base < 2 ^ 48 - userStackPages * 0x1000 := huser.2
    rcases stackVector_le (mem_of_getElem? hvector) with rfl | hle
    · rw [length_map]
      omega
    · omega
  · rw [hshape]
    refine forall_mem_cons.mpr ⟨⟨hbase, ?_⟩, fun region hregion => ?_⟩
    · exact hend
    · have := hregions region hregion
      exact ⟨by omega, by omega⟩
  · rw [hshape]
    refine .cons (fun region hregion => ?_) hordered
    exact Nat.le_trans hbelow (hregions region hregion).1

end KernelBoot.Process
