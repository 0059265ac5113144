import KernelBoot.Laws.Network.ReassemblyRuns

/-!
# Reassembly in any order

The fragments of a payload that was split, in whatever order they arrive and whatever arrives of at most
three other datagrams between them, give the payload back: the answer to the last of them
(`answer_of_split`). The invariant is that the fragments so far stand in one slot, and that every
datagram on its way has a slot of its own (`Assembling`).
-/

namespace KernelBoot.Network

open Lib List

variable {entry : ReassemblyEntry} {f : Fragment} {i : Nat}

variable {table : ReassemblyTable} {t : Tracked} {fragment : Fragment}

section Split

/-- The fragments of a payload that was split, in the order they arrive in. -/
structure IsSplit (datagram : Datagram) (payload : List UInt8) (fragments : List Fragment) : Prop where
  datagram : ∀ f ∈ fragments, f.datagram = datagram
  nonempty : ∀ f ∈ fragments, f.payload ≠ []
  bytes : ∀ f ∈ fragments, f.payload = (payload.drop f.offset).take f.payload.length
  inside : ∀ f ∈ fragments, f.stop ≤ payload.length
  apart : fragments.Pairwise Fragment.Apart
  covered : ∀ p < payload.length, ∃ f ∈ fragments, f.Covers p
  last : ∀ f ∈ fragments, (f.more = false ↔ f.stop = payload.length)
  eight : ∀ f ∈ fragments, f.more = true → f.payload.length &&& 7 = 0
  capacity : ∀ f ∈ fragments, payload.length ≤ f.capacity

/-- The timeout of a call is not over for what another one stored. -/
def InTime (earlier later : Fragment) : Prop :=
  ¬(later.timeout ≠ 0 ∧ earlier.now ≤ later.now ∧ later.timeout ≤ later.now - earlier.now)

instance (earlier later : Fragment) : Decidable (InTime earlier later) :=
  inferInstanceAs (Decidable (¬_))

/-- The length and the first fragment, as far as the fragments say. -/
structure Grown (n : Nat) (mine : List Fragment) (entry : ReassemblyEntry) : Prop where
  total : entry.totalLength = if ∃ f ∈ mine, f.more = false then n else 0
  first : entry.firstFragment = true ↔ ∃ f ∈ mine, f.offset = 0

variable {n : Nat} {mine : List Fragment} {datagram : Datagram}

theorem grown_openEntry (h : entry.valid = false) : Grown n [] (openEntry datagram entry) := by
  rw [openEntry, if_neg (by simp [h])]
  exact ⟨by simp, by simp⟩

theorem Grown.total_cases (h : Grown n mine entry) : entry.totalLength = 0 ∨ entry.totalLength = n := by
  rw [h.total]
  exact (ite_eq_or_eq _ _ _).symm

theorem Grown.store (h : Grown n mine entry) (hlast : f.more = false → f.stop = n) :
    Grown n (mine ++ [f]) (store f entry) where
  total := by
    rw [store_totalLength]
    cases hmore : f.more with
    | true =>
      rw [if_pos rfl, h.total]
      simp [or_and_right, exists_or, hmore]
    | false => rw [if_neg Bool.false_ne_true, hlast hmore, if_pos ⟨f, by simp, hmore⟩]
  first := by
    have hfirst : (Network.store f entry).firstFragment = (decide (f.offset = 0) || entry.firstFragment) :=
      rfl
    rw [hfirst, Bool.or_eq_true, decide_eq_true_eq, h.first]
    simp only [mem_append, mem_singleton, or_and_right, exists_or, exists_eq_left]
    exact or_comm

/-- A datagram on its way: its fragments so far stand in one slot, and every datagram in use has one of
its own. -/
structure Assembling (datagram : Datagram) (others : List Datagram) (n : Nat) (t : Tracked)
    (mine : List Fragment) : Prop where
  holds : EachSlot Holds t
  keys : ∀ i < reassemblySlots, (t.table.entries i).valid = true →
    (t.table.entries i).datagram ∈ datagram :: others
  distinct : ∀ i < reassemblySlots, ∀ j < reassemblySlots, (t.table.entries i).valid = true →
    (t.table.entries j).valid = true → (t.table.entries i).datagram = (t.table.entries j).datagram →
      i = j
  own : ∀ i < reassemblySlots, (t.table.entries i).valid = true →
    (t.table.entries i).datagram = datagram →
      t.log i = mine ∧ Grown n mine (t.table.entries i) ∧
        ∃ g ∈ mine, (t.table.entries i).lastSeen = g.now
  present : mine ≠ [] → ∃ i < reassemblySlots, (t.table.entries i).valid = true ∧
    (t.table.entries i).datagram = datagram

variable {others : List Datagram}

theorem assembling_freshTrack (hinit : Initialized table) :
    Assembling datagram others n (freshTrack table) [] where
  holds := eachSlot_freshTrack hinit
  keys i hi hvalid := Bool.noConfusion ((hinit i hi).symm.trans hvalid)
  distinct i hi _ _ hvalid := Bool.noConfusion ((hinit i hi).symm.trans hvalid)
  own i hi hvalid := Bool.noConfusion ((hinit i hi).symm.trans hvalid)
  present h := absurd rfl h

section

variable (h : Assembling datagram others n t mine)

include h

/-- With no more datagrams than slots, one that has no slot finds a free one. -/
theorem Assembling.slotFor (hothers : others.length ≤ 3)
    (hkey : fragment.datagram ∈ datagram :: others) :
    let expired := reassemblyExpire fragment.now fragment.timeout t.table
    sameDatagram (expired.entries (t.table.slotFor fragment)) fragment.datagram ∨
      (expired.entries (t.table.slotFor fragment)).valid = false ∧
        ∀ j < reassemblySlots, ¬sameDatagram (expired.entries j) fragment.datagram := by
  intro expired
  rcases (selectSlot_cases expired fragment.datagram).2 with hsame | ⟨hnone, hfree | hfull⟩
  · exact .inl hsame
  · exact .inr ⟨hfree, hnone⟩
  · -- four slots in use, with four datagrams other than the fragment's among at most three
    have hsame : ∀ i < reassemblySlots, expired.entries i = t.table.entries i :=
      fun i hi => expire_entries_of_valid (hfull i hi)
    have hvalid : ∀ i < reassemblySlots, (t.table.entries i).valid = true :=
      fun i hi => hsame i hi ▸ hfull i hi
    have hmaps : ∀ i ∈ Finset.range reassemblySlots, (t.table.entries i).datagram ∈
        (datagram :: others).toFinset.erase fragment.datagram := by
      intro i hi
      have hlt := Finset.mem_range.mp hi
      rw [Finset.mem_erase, mem_toFinset]
      refine ⟨fun heq => hnone i hlt ⟨hfull i hlt, ?_⟩, h.keys i hlt (hvalid i hlt)⟩
      rw [hsame i hlt]
      exact heq
    have hcard := Finset.card_le_card_of_injOn _ hmaps fun i hi j hj =>
      h.distinct i (Finset.mem_range.mp hi) j (Finset.mem_range.mp hj)
        (hvalid i (Finset.mem_range.mp hi)) (hvalid j (Finset.mem_range.mp hj))
    rw [Finset.card_range, Finset.card_erase_of_mem (mem_toFinset.mpr hkey)] at hcard
    have hlength : (datagram :: others).toFinset.card ≤ others.length + 1 :=
      (datagram :: others).toFinset_card_le
    have hslots : reassemblySlots = 4 := rfl
    omega

theorem Assembling.entryFor_datagram
    (hothers : others.length ≤ 3) (hkey : fragment.datagram ∈ datagram :: others) :
    (t.table.entryFor fragment).datagram = fragment.datagram := by
  rw [ReassemblyTable.entryFor]
  rcases h.slotFor hothers hkey with hsame | ⟨hfree, -⟩
  · rw [openEntry_of_valid hsame.1]
    exact hsame.2
  · rw [openEntry, if_neg (by simp [hfree])]

/-- The slot of the datagram survives the timeouts. -/
theorem Assembling.unexpired (htime : ∀ g ∈ mine, InTime g fragment) (hi : i < reassemblySlots)
    (hvalid : (t.table.entries i).valid = true) (hown : (t.table.entries i).datagram = datagram) :
    (reassemblyExpire fragment.now fragment.timeout t.table).entries i = t.table.entries i := by
  obtain ⟨-, -, g, hg, hseen⟩ := h.own i hi hvalid hown
  apply if_neg
  rintro ⟨-, hover⟩
  rw [hseen] at hover
  exact htime g hg hover

/-- Slots in use keep to one each. -/
theorem Assembling.distinct_step (hok : fragment.ok)
    (hothers : others.length ≤ 3) (hkey : fragment.datagram ∈ datagram :: others) {j : Nat}
    (hi : i < reassemblySlots) (hj : j < reassemblySlots)
    (hvi : ((trackStep t (.add fragment)).table.entries i).valid = true)
    (hvj : ((trackStep t (.add fragment)).table.entries j).valid = true)
    (heq : ((trackStep t (.add fragment)).table.entries i).datagram =
      ((trackStep t (.add fragment)).table.entries j).datagram) : i = j := by
  have hnew := h.entryFor_datagram hothers hkey
  -- a slot that stays cannot be the datagram's, beside the one that was chosen for it
  have hother : ∀ k < reassemblySlots, k ≠ t.table.slotFor fragment →
      ((reassemblyExpire fragment.now fragment.timeout t.table).entries k).valid = true →
      (t.table.entries k).datagram ≠ fragment.datagram := by
    intro k hk hne hvalid hsame
    have hunchanged := expire_entries_of_valid hvalid
    rcases h.slotFor hothers hkey with hslot | ⟨-, hnone⟩
    · have hslotSame := expire_entries_of_valid hslot.1
      refine hne (h.distinct k hk _ (slotFor_lt t.table fragment) (hunchanged ▸ hvalid)
        (hslotSame ▸ hslot.1) ?_)
      rw [hsame, ← hslot.2, hslotSame]
    · exact hnone k hk ⟨hvalid, hunchanged ▸ hsame⟩
  rcases trackStep_add_used hok hvi with ⟨hsi, -, -, hei, -⟩ | ⟨hni, hxi, hei, -⟩
  · rcases trackStep_add_used hok hvj with ⟨hsj, -⟩ | ⟨hnj, hxj, hej, -⟩
    · rw [hsi, hsj]
    · rw [hei, hej] at heq
      exact absurd (heq.symm.trans hnew) (hother j hj hnj hxj)
  · rcases trackStep_add_used hok hvj with ⟨-, -, -, hej, -⟩ | ⟨-, -, hej, -⟩
    · rw [hei, hej] at heq
      exact absurd (heq.trans hnew) (hother i hi hni hxi)
    · rw [hei] at hvi heq
      rw [hej] at hvj heq
      exact h.distinct i hi j hj hvi hvj heq

theorem Assembling.keys_step (hok : fragment.ok)
    (hothers : others.length ≤ 3) (hkey : fragment.datagram ∈ datagram :: others)
    (hi : i < reassemblySlots)
    (hvalid : ((trackStep t (.add fragment)).table.entries i).valid = true) :
    ((trackStep t (.add fragment)).table.entries i).datagram ∈ datagram :: others := by
  rcases trackStep_add_used hok hvalid with ⟨-, -, -, hentry, -⟩ | ⟨-, -, hentry, -⟩
  · rw [hentry]
    exact (h.entryFor_datagram hothers hkey).symm ▸ hkey
  · rw [hentry] at hvalid ⊢
    exact h.keys i hi hvalid

end

theorem eachSlot_holds_step {call : ReassemblyCall} (h : EachSlot Holds t) :
    EachSlot Holds (trackStep t call) := eachSlot_holds h [call]

section

variable (h : Assembling datagram others n t mine) (hothers : others.length ≤ 3)

include h hothers

/-- A fragment of another datagram leaves this one alone. -/
theorem Assembling.step_other
    (hkey : fragment.datagram ∈ datagram :: others) (hne : fragment.datagram ≠ datagram)
    (htime : ∀ g ∈ mine, InTime g fragment) :
    Assembling datagram others n (trackStep t (.add fragment)) mine := by
  by_cases hok : fragment.ok
  · have hnew := h.entryFor_datagram hothers hkey
    refine ⟨eachSlot_holds_step h.holds, fun i hi => h.keys_step hok hothers hkey hi,
      fun i hi j hj => h.distinct_step hok hothers hkey hi hj, fun i hi hvalid hown => ?_,
      fun hmine => ?_⟩
    · rcases trackStep_add_used hok hvalid with ⟨-, -, -, hentry, -⟩ | ⟨-, -, hentry, hlog⟩
      · rw [hentry] at hown
        exact absurd (hnew.symm.trans hown) hne
      · rw [hentry] at hvalid hown ⊢
        rw [hlog]
        exact h.own i hi hvalid hown
    · obtain ⟨i, hi, hvalid, hown⟩ := h.present hmine
      have hunexpired := h.unexpired htime hi hvalid hown
      have hslot : i ≠ t.table.slotFor fragment := by
        rintro rfl
        rcases h.slotFor hothers hkey with hsame | ⟨hfree, -⟩
        · rw [hunexpired] at hsame
          exact hne (hsame.2.symm.trans hown)
        · rw [hunexpired] at hfree
          exact Bool.noConfusion (hfree.symm.trans hvalid)
      have hentry : (trackStep t (.add fragment)).table.entries i = t.table.entries i := by
        rw [trackStep_table, reassemblyStep_add_entries t.table hok, if_neg hslot, hunexpired]
      exact ⟨i, hi, by rw [hentry]; exact hvalid, by rw [hentry]; exact hown⟩
  · have htable := trackStep_add_of_not_ok (t := t) hok
    have hlog : ∀ i, ((trackStep t (.add fragment)).table.entries i).valid = true →
        (trackStep t (.add fragment)).log i = t.log i := by
      intro i hvalid
      rw [trackStep_log_of_valid hvalid, Tracked.nextLog, if_neg fun hboth => hok hboth.1]
    refine ⟨eachSlot_holds_step h.holds, ?_, ?_, ?_, ?_⟩
    · rw [htable]
      exact h.keys
    · rw [htable]
      exact h.distinct
    · intro i hi hvalid hown
      rw [hlog i hvalid]
      rw [htable] at hvalid hown ⊢
      exact h.own i hi hvalid hown
    · rw [htable]
      exact h.present

/-- The entry that a fragment of the datagram is given has the fragments before it. -/
theorem Assembling.own_entry
    (hown : fragment.datagram = datagram) (htime : ∀ g ∈ mine, InTime g fragment) :
    t.current fragment = mine ∧ Grown n mine (t.table.entryFor fragment) := by
  have hslotlt := slotFor_lt t.table fragment
  have hkey : fragment.datagram ∈ datagram :: others := hown ▸ mem_cons_self
  rw [Tracked.current, Tracked.logAt, ReassemblyTable.entryFor]
  rcases h.slotFor hothers hkey with hsame | ⟨hfree, hnone⟩
  · have hunchanged := expire_entries_of_valid hsame.1
    rw [if_pos hsame.1, openEntry_of_valid hsame.1, hunchanged]
    rw [hunchanged] at hsame
    obtain ⟨hlog, hgrown, -⟩ := h.own _ hslotlt hsame.1 (hsame.2.trans hown)
    exact ⟨hlog, hgrown⟩
  · have hmine : mine = [] := by
      by_contra hne
      obtain ⟨i, hi, hvalid, hd⟩ := h.present hne
      refine hnone i hi ?_
      rw [h.unexpired htime hi hvalid hd]
      exact ⟨hvalid, hd.trans hown.symm⟩
    subst hmine
    rw [if_neg (by simp [hfree])]
    exact ⟨rfl, grown_openEntry hfree⟩

/-- A fragment of the datagram is stored beside the others, as long as some are missing. -/
theorem Assembling.step_own (hok : fragment.ok) (hown : fragment.datagram = datagram)
    (htime : ∀ g ∈ mine, InTime g fragment)
    (hstored : addToEntry fragment (t.table.entryFor fragment) =
      (none, store fragment (t.table.entryFor fragment)))
    (hlast : fragment.more = false → fragment.stop = n) :
    Assembling datagram others n (trackStep t (.add fragment)) (mine ++ [fragment]) := by
  have hkey : fragment.datagram ∈ datagram :: others := hown ▸ mem_cons_self
  have hnew := h.entryFor_datagram hothers hkey
  obtain ⟨hcurrent, hgrown⟩ := h.own_entry hothers hown htime
  have hentry : (trackStep t (.add fragment)).table.entries (t.table.slotFor fragment) =
      store fragment (t.table.entryFor fragment) := by
    rw [trackStep_table, reassemblyStep_add_entries t.table hok, if_pos rfl, hstored]
  have hvalid : ((trackStep t (.add fragment)).table.entries (t.table.slotFor fragment)).valid =
      true := by
    rw [hentry]
    exact entryFor_valid t.table fragment
  refine ⟨eachSlot_holds_step h.holds, fun i hi => h.keys_step hok hothers hkey hi,
    fun i hi j hj => h.distinct_step hok hothers hkey hi hj, fun i hi hvi hdi => ?_,
    fun _ => ⟨_, slotFor_lt t.table fragment, hvalid, ?_⟩⟩
  · have hslot : i = t.table.slotFor fragment := by
      apply h.distinct_step hok hothers hkey hi (slotFor_lt t.table fragment) hvi hvalid
      rw [hdi, hentry]
      exact (hnew.trans hown).symm
    subst hslot
    rcases trackStep_add_used hok hvi with ⟨-, -, -, -, hlog⟩ | ⟨hne, -⟩
    · rw [hlog, hentry, hcurrent]
      exact ⟨rfl, hgrown.store hlast, fragment, by simp, rfl⟩
    · exact absurd rfl hne
  · rw [hentry]
    exact hnew.trans hown

end

variable {payload : List UInt8} {fragments : List Fragment}

section

variable (h : IsSplit datagram payload fragments)

include h

theorem IsSplit.sum_eq :
    (fragments.map fun f => f.payload.length).sum = payload.length := by
  have hrange : Lib.covered Fragment.offset (fun f => f.payload.length) fragments =
      Finset.range payload.length := by
    ext p
    rw [mem_covered, Finset.mem_range]
    constructor
    · rintro ⟨f, hf, hcovers⟩
      exact Nat.lt_of_lt_of_le hcovers.2 (h.inside f hf)
    · exact h.covered p
  rw [← card_covered h.apart, hrange, Finset.card_range]

theorem IsSplit.ok (hlength : payload.length ≤ reassemblyMaxPayload) (hf : f ∈ fragments) : f.ok := by
  have hinside : f.offset + f.payload.length ≤ payload.length := h.inside f hf
  have hpos : f.payload.length ≠ 0 := fun hzero => h.nonempty f hf (length_eq_zero_iff.mp hzero)
  refine ⟨hpos, by omega, by omega, ?_⟩
  rintro ⟨hmore, hbits⟩
  exact hbits (h.eight f hf hmore)

theorem IsSplit.byteAt (hf : f ∈ fragments) {p : Nat}
    (hp : f.Covers p) : payload[p]? = some (f.byteAt p) := by
  have hlow : f.offset ≤ p := hp.1
  have hhigh : p < f.offset + f.payload.length := hp.2
  have hlt : p - f.offset < f.payload.length := by omega
  have hget : f.payload[p - f.offset]? = payload[p]? := by
    conv_lhs => rw [h.bytes f hf]
    rw [getElem?_take, if_pos hlt, getElem?_drop, Nat.add_sub_cancel' hlow]
  rw [← hget, Fragment.byteAt, getD_eq_getElem?_getD, getElem?_eq_getElem hlt,
    Option.getD_some]

end

/-- What the fragments so far make of a fragment of the same datagram: it is never refused, and it
completes the datagram if none is missing. -/
theorem IsSplit.addToEntry {rest : List Fragment}
    (h : IsSplit datagram payload (mine ++ fragment :: rest)) (hpos : payload.length ≠ 0)
    (hlength : payload.length ≤ reassemblyMaxPayload) (hholds : Holds entry mine)
    (hgrown : Grown payload.length mine entry) :
    if rest = [] then (Network.addToEntry fragment entry).1 = some payload
    else Network.addToEntry fragment entry = (none, store fragment entry) := by
  have hmem : fragment ∈ mine ++ fragment :: rest := by simp
  have hstop := h.inside fragment hmem
  have hlast := h.last fragment hmem
  have htotal := hgrown.total_cases
  have hclash : ¬lengthClash fragment entry := by
    rintro (⟨hne, hlt⟩ | ⟨hmore, hne, hclash⟩)
    · omega
    · have := hlast.mp hmore
      omega
  have hoverlap : ¬overlaps fragment entry := by
    rw [not_overlaps_iff]
    intro p hp
    rw [← Bool.not_eq_true, hholds.bits]
    rintro ⟨g, hg, hcovers⟩
    exact (pairwise_append.mp h.apart).2.2 g hg fragment mem_cons_self p ⟨hcovers, hp⟩
  have hstored := hholds.store (h.ok hlength hmem) hoverlap
  have hgrown' := hgrown.store (f := fragment) hlast.mp
  have hsum := h.sum_eq
  rw [map_append, map_cons, sum_append, sum_cons] at hsum
  have hreceived : (store fragment entry).received =
      (mine.map fun f => f.payload.length).sum + fragment.payload.length := by
    rw [hstored.received, map_append, sum_append]
    rfl
  rw [Network.addToEntry, if_neg (not_or.mpr ⟨hclash, hoverlap⟩)]
  by_cases hrest : rest = []
  · subst hrest
    have hall : ∀ p < payload.length, ∃ f ∈ mine ++ [fragment], f.Covers p := h.covered
    obtain ⟨g, hg, hcovers⟩ := hall 0 (by omega)
    obtain ⟨l, hl, hcoversLast⟩ := hall (payload.length - 1) (by omega)
    have hlstop : l.stop = payload.length := by
      have hinside := h.inside l hl
      have hlow : payload.length - 1 < l.offset + l.payload.length := hcoversLast.2
      have hdef : l.stop = l.offset + l.payload.length := rfl
      omega
    have htotal' : (store fragment entry).totalLength = payload.length := by
      rw [hgrown'.total, if_pos ⟨l, hl, (h.last l hl).mpr hlstop⟩]
    have hcomplete : complete (store fragment entry) fragment.capacity := by
      refine ⟨hgrown'.first.mpr ⟨g, hg, Nat.le_zero.mp hcovers.1⟩, ?_, ?_, ?_⟩
      · rw [htotal']
        exact hpos
      · rw [htotal', hreceived]
        simpa using hsum
      · rw [htotal']
        exact h.capacity fragment hmem
    rw [if_pos rfl, if_pos hcomplete]
    apply congrArg some
    apply ext_getElem?
    intro p
    rw [assembled, htotal']
    rcases Nat.lt_or_ge p payload.length with hp | hp
    · obtain ⟨f, hf, hcovers⟩ := hall p hp
      rw [getElem?_map, getElem?_range hp, Option.map_some, hstored.bytes f hf p hcovers,
        h.byteAt hf hcovers]
    · rw [getElem?_eq_none (by simpa using hp), getElem?_eq_none hp]
  · rw [if_neg hrest]
    obtain ⟨g, hg⟩ := exists_mem_of_ne_nil rest hrest
    have hgpos : g.payload.length ≠ 0 := fun hzero =>
      h.nonempty g (by simp [hg]) (length_eq_zero_iff.mp hzero)
    have hgle : g.payload.length ≤ (rest.map fun f => f.payload.length).sum :=
      le_sum_of_mem (mem_map_of_mem hg)
    have htotal' := hgrown'.total_cases
    rw [if_neg]
    rintro ⟨-, hne, heq, -⟩
    omega

/-- The fragments of a datagram among others. -/
def ofDatagram (datagram : Datagram) (arrivals : List Fragment) : List Fragment :=
  arrivals.filter fun f => f.datagram = datagram

theorem ofDatagram_append (before after : List Fragment) :
    ofDatagram datagram (before ++ after) = ofDatagram datagram before ++ ofDatagram datagram after :=
  filter_append ..

theorem ofDatagram_cons_self (h : f.datagram = datagram) (after : List Fragment) :
    ofDatagram datagram (f :: after) = f :: ofDatagram datagram after :=
  filter_cons_of_pos (decide_eq_true h)

/-- Fragments of one datagram, in any order and between those of at most three others. -/
structure Arrivals (datagram : Datagram) (payload : List UInt8) (others : List Datagram)
    (arrivals : List Fragment) : Prop where
  split : IsSplit datagram payload (ofDatagram datagram arrivals)
  few : others.length ≤ 3
  known : ∀ f ∈ arrivals, f.datagram ∈ datagram :: others
  inTime : arrivals.Pairwise fun f g => f.datagram = datagram → InTime f g

variable {arrivals : List Fragment}

theorem Arrivals.inTime_before {before after : List Fragment}
    (h : Arrivals datagram payload others (before ++ f :: after)) :
    ∀ g ∈ ofDatagram datagram before, InTime g f := by
  intro g hg
  obtain ⟨hmem, hown⟩ := mem_filter.mp hg
  exact (pairwise_append.mp h.inTime).2.2 g hmem f mem_cons_self (of_decide_eq_true hown)

/-- As long as a fragment is missing, those that arrived stand in one slot. -/
theorem assembling_run (hinit : Initialized table) (hpos : payload.length ≠ 0)
    (hlength : payload.length ≤ reassemblyMaxPayload) (before : List Fragment) :
    ∀ after, Arrivals datagram payload others (before ++ after) → ofDatagram datagram after ≠ [] →
      Assembling datagram others payload.length
        (run trackStep (freshTrack table) (before.map .add)) (ofDatagram datagram before) := by
  induction before using List.reverseRecOn with
  | nil => exact fun _ _ _ => assembling_freshTrack hinit
  | append_singleton before f ih =>
    intro after harrivals hmissing
    rw [append_assoc] at harrivals
    have hkey := harrivals.known f (by simp)
    have htime := harrivals.inTime_before
    rw [map_append, run_append, ofDatagram_append]
    by_cases hown : f.datagram = datagram
    · have hstate := ih (f :: after) harrivals (by rw [ofDatagram_cons_self hown]; simp)
      have hsplit := harrivals.split
      rw [ofDatagram_append, singleton_append, ofDatagram_cons_self hown] at hsplit
      have hfmem : f ∈ ofDatagram datagram before ++ f :: ofDatagram datagram after := by simp
      obtain ⟨hcurrent, hgrown⟩ := hstate.own_entry harrivals.few hown htime
      have hholds := hstate.holds.entryFor (fun d _ hfree => holds_openEntry d hfree) f
      rw [hcurrent] at hholds
      have hstored := hsplit.addToEntry hpos hlength hholds hgrown
      rw [if_neg hmissing] at hstored
      rw [ofDatagram_cons_self hown]
      exact hstate.step_own harrivals.few (hsplit.ok hlength hfmem) hown htime hstored
        (hsplit.last f hfmem).mp
    · have hnone : ofDatagram datagram [f] = [] := filter_cons_of_neg (by simpa using hown)
      have hstate := ih (f :: after) harrivals (by
        rw [← singleton_append, ofDatagram_append, hnone]
        exact hmissing)
      rw [hnone, append_nil]
      exact hstate.step_other harrivals.few hkey hown htime

end Split

end KernelBoot.Network
