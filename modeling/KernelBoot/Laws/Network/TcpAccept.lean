import KernelBoot.Laws.Network.TcpEndpoint
import KernelBoot.Lib.Run

/-!
# What a listener hands out

A run on the table is watched for the slots that a peer's `SYN` took and for the handles that
`tcp_endpoint_accept` returned. An open connection that was not returned yet should be returned, once,
and a slot whose connection was closed before that should be free again. `tcp_endpoint_accept` looks
for connections whose handshake is not complete and keeps no note of what it returned, and a closed
connection keeps its slot.
-/

namespace KernelBoot.Network

open Lib TcpTable

/-- A run watched for the slots that peers took, and for those that were handed out. -/
structure AcceptRun where
  table : TcpTable
  child : Nat → Bool
  returned : Nat → Bool

/-- The handle a call hands out. -/
def acceptedBy (table : TcpTable) : TcpTableCall → Option Nat
  | .accept listener => tcpEndpointAccept listener table
  | _ => none

def acceptStep (s : AcceptRun) (call : TcpTableCall) : AcceptRun where
  table := tcpTableStep s.table call
  child i := ((tcpTableStep s.table call).endpoints i).valid &&
    if (s.table.endpoints i).valid then s.child i else call.delivers
  returned i := ((tcpTableStep s.table call).endpoints i).valid && (s.table.endpoints i).valid &&
    (s.returned i || decide (acceptedBy s.table call = some (i + 1)))

/-- A connection that a `SYN` opened and that was not handed out. -/
structure Pending (s : AcceptRun) (i : Nat) : Prop where
  valid : (s.table.endpoints i).valid = true
  child : s.child i = true
  not_returned : s.returned i = false

/-- It is one of a port, and open. -/
structure Waiting (s : AcceptRun) (port : UInt16) (i : Nat) : Prop extends Pending s i where
  slot : i < tcpEndpointCapacity
  port : (s.table.endpoints i).connection.localPort = port
  isOpen : (s.table.endpoints i).connection.state ≠ .closed

/-- The listener that a handle names. -/
def Listens (s : AcceptRun) (listener i : Nat) : Prop :=
  s.table.slotFor listener = some i ∧ (s.table.endpoints i).connection.state = .listen

/-- A listener hands out a connection that waits, and fails only when none does. -/
def HandsOut (s : AcceptRun) : TcpTableCall → Prop
  | .accept listener => ∀ parent, Listens s listener parent →
    match tcpEndpointAccept listener s.table with
    | some handle => ∃ i, handle = i + 1 ∧ Waiting s (s.table.endpoints parent).connection.localPort i
    | none => ∀ i, ¬Waiting s (s.table.endpoints parent).connection.localPort i
  | _ => True

/-- No slot is held by a closed connection that nobody was handed. -/
def NoneLost (s : AcceptRun) : Prop :=
  ∀ i, Pending s i → (s.table.endpoints i).connection.state ≠ .closed

/-- The segment closes the connection. -/
def Closes (segment : TcpSegment) (c : TcpConnection) : Prop :=
  flagged segment.flags tcpFlagRst ∨ c.state = .lastAck ∧ acknowledgesAll segment c

/-- A listener is asked while the handshakes of all the connections that wait are incomplete and those of
the connections that were handed out are complete, and no connection that waits is reset or closed. -/
def AcceptsInTime (s : AcceptRun) : TcpTableCall → Prop
  | .accept listener => ∀ parent, Listens s listener parent → ∀ i,
    (Waiting s (s.table.endpoints parent).connection.localPort i →
      (s.table.endpoints i).connection.state = .synReceived) ∧
    (s.returned i = true → (s.table.endpoints i).connection.localPort =
        (s.table.endpoints parent).connection.localPort →
      (s.table.endpoints i).connection.state ≠ .synReceived)
  | .deliver destination source segment => ∀ i,
    selectEndpoint destination source segment s.table = some i →
      (Pending s i ∨ (s.table.endpoints i).connection.state = .listen) →
        ¬Closes segment (s.table.endpoints i).connection
  | _ => True

/-- Only a `SYN` from a peer leads to a connection whose handshake is incomplete. -/
def ChildrenKnown (s : AcceptRun) : Prop :=
  ∀ i, (s.table.endpoints i).valid = true → (s.table.endpoints i).connection.state = .synReceived →
    i < tcpEndpointCapacity ∧ s.child i = true

section Slots

variable {table : TcpTable} {i : Nat} {call : TcpTableCall}

theorem received_states {segment : TcpSegment} {result : Option TcpResult} {c c' : TcpConnection}
    (h : Received segment c result c') (hlisten : ¬(c.state = .listen ∧ flagged segment.flags tcpFlagSyn)) :
    (c'.state = .synReceived → c.state = .synReceived) ∧
      (c'.state = .closed → c.state = .closed ∨ Closes segment c) := by
  cases h with
  | refused | repeated | outOfOrder => exact ⟨id, .inl⟩
  | reset _ hreset => exact ⟨nofun, fun _ => .inr (.inl hreset)⟩
  | opened _ hstate hsyn => exact absurd ⟨hstate, hsyn⟩ hlisten
  | closed _ hstate hall => exact ⟨nofun, fun _ => .inr (.inr ⟨hstate, hall⟩)⟩
  | answered | completed | halfClosed | ended => exact ⟨nofun, nofun⟩
  | accepted haccepts =>
    have hcarries : (acceptSegment segment c).state.carries := acceptSegment_carries haccepts.carries
    rcases hcarries with h | h
    all_goals
      rw [h]
      exact ⟨nofun, nofun⟩

/-- What a call that delivers nothing does to the state of a connection in a slot in use. -/
theorem other_used (hcall : call.delivers = false) (hvalid : (table.endpoints i).valid = true) :
    (((tcpTableStep table call).endpoints i).connection.state = .synReceived →
        (table.endpoints i).connection.state = .synReceived) ∧
      (((tcpTableStep table call).endpoints i).connection.state = .closed →
        (table.endpoints i).connection.state = .closed) := by
  have htouched := touched_used hvalid hcall
  generalize (tcpTableStep table call).endpoints i = endpoint' at htouched ⊢
  cases htouched with
  | same | unbound | redated | popped => exact ⟨id, id⟩
  | built handle payload flags capacity =>
    by_cases hadmitted : Admitted flags payload capacity (table.endpoints i).connection
    · rw [tcpConnectionBuild_of_admitted hadmitted]
      exact ⟨fun h => closing_eq h nofun nofun, fun h => closing_eq h nofun nofun⟩
    · rw [tcpConnectionBuild_of_not_admitted hadmitted]
      exact ⟨id, id⟩

/-- What a call that delivers nothing puts into a free slot. -/
theorem other_free (hcall : call.delivers = false) (hfree : (table.endpoints i).valid = false)
    (hvalid : ((tcpTableStep table call).endpoints i).valid = true) :
    ((tcpTableStep table call).endpoints i).connection.state ≠ .synReceived := by
  have htouched : call.takes = false → False := by
    intro htakes
    have htouched := touched table i htakes
    generalize (tcpTableStep table call).endpoints i = endpoint' at htouched hvalid
    cases htouched with
    | same | built | redated | popped => exact nomatch hfree.symm.trans hvalid
    | unbound => exact nomatch hvalid
  cases call with
  | deliver => exact nomatch hcall
  | listen localAddress localPort window =>
    have hstate := ((listen_takes table localAddress localPort window).fresh hfree hvalid).2
    exact fun h => nomatch hstate.symm.trans h
  | connect localAddress localPort remoteAddress remotePort sequence window capacity =>
    have hstate := ((connect_takes table localAddress localPort remoteAddress remotePort sequence window
      capacity).fresh hfree hvalid).2.2.1
    exact fun h => nomatch hstate.symm.trans h
  | unbind | accept | sendSegment | retransmitDue | retransmitNext | receive => exact (htouched rfl).elim

end Slots

section Steps

variable {s : AcceptRun} {call : TcpTableCall}

/-- What holds in every state of a run. -/
structure AcceptOk (s : AcceptRun) : Prop where
  known : ChildrenKnown s
  none_lost : NoneLost s

/-- What a listener hands out is the first connection of its port whose handshake is incomplete. -/
theorem accept_eq {listener parent : Nat} (h : Listens s listener parent) :
    tcpEndpointAccept listener s.table =
      (s.table.first fun i endpoint => endpoint.valid && decide (i ≠ parent ∧
        endpoint.connection.localPort = (s.table.endpoints parent).connection.localPort ∧
        endpoint.connection.state = .synReceived)).map (· + 1) := by
  rw [tcpEndpointAccept, h.1]
  exact if_neg (not_not.mpr h.2)

theorem handsOut_of_inTime (hok : AcceptOk s) (h : AcceptsInTime s call) : HandsOut s call := by
  cases call with
  | accept listener =>
    intro parent hlistens
    have hinTime := h parent hlistens
    split
    · next handle hhandle =>
      rw [accept_eq hlistens] at hhandle
      obtain ⟨i, hfirst, rfl⟩ := Option.map_eq_some_iff.mp hhandle
      obtain ⟨hslot, hfound⟩ := found_of_first hfirst
      rw [Bool.and_eq_true, decide_eq_true_eq] at hfound
      obtain ⟨hvalid, -, hport, hstate⟩ := hfound
      have hreturned : s.returned i = false := by
        by_contra hreturned
        exact (hinTime i).2 (Bool.not_eq_false _ |>.mp hreturned) hport hstate
      refine ⟨i, rfl, ⟨⟨hvalid, (hok.known i hvalid hstate).2, hreturned⟩, hslot, hport, ?_⟩⟩
      exact fun hclosed => nomatch hstate.symm.trans hclosed
    · next hnone =>
      intro i hwaiting
      rw [accept_eq hlistens] at hnone
      have hstate := (hinTime i).1 hwaiting
      have hparent : i ≠ parent := by
        rintro rfl
        exact nomatch hstate.symm.trans hlistens.2
      have hfound := not_found_of_first (Option.map_eq_none_iff.mp hnone) hwaiting.slot
      rw [hwaiting.valid, Bool.true_and, decide_eq_false_iff_not] at hfound
      exact hfound ⟨hparent, hwaiting.port, hstate⟩
  | listen | connect | unbind | deliver | sendSegment | retransmitDue | retransmitNext | receive =>
    exact trivial

/-- A listener that hands out nothing has nothing to hand out. -/
theorem none_waits {listener parent : Nat} (h : HandsOut s (.accept listener))
    (hlistens : Listens s listener parent) (hnone : tcpEndpointAccept listener s.table = none) (i : Nat) :
    ¬Waiting s (s.table.endpoints parent).connection.localPort i := by
  have hnone' := h parent hlistens
  rw [hnone] at hnone'
  exact hnone' i

theorem childrenKnown_step (hok : AcceptOk s) : ChildrenKnown (acceptStep s call) := by
  intro i hvalid hstate
  change ((tcpTableStep s.table call).endpoints i).valid = true at hvalid
  change ((tcpTableStep s.table call).endpoints i).connection.state = .synReceived at hstate
  have hchild : (acceptStep s call).child i =
      (((tcpTableStep s.table call).endpoints i).valid &&
        if (s.table.endpoints i).valid then s.child i else call.delivers) := rfl
  rw [hchild, hvalid, Bool.true_and]
  by_cases hused : (s.table.endpoints i).valid = true
  · rw [if_pos hused]
    refine hok.known i hused ?_
    by_cases hdelivers : call.delivers = false
    · exact (other_used hdelivers hused).1 hstate
    · obtain ⟨destination, source, segment, rfl⟩ := TcpTableCall.eq_deliver hdelivers
      rw [tcpTableStep] at hstate
      rcases deliver_used hused with h | ⟨-, hlisten, h⟩
      · exact h ▸ hstate
      · rw [h, hearSegment_connection] at hstate
        exact (received_states (received _ _) hlisten).1 hstate
  · have hfree : (s.table.endpoints i).valid = false := Bool.not_eq_true _ |>.mp hused
    rw [if_neg hused]
    by_cases hdelivers : call.delivers = false
    · exact absurd hstate (other_free hdelivers hfree hvalid)
    · obtain ⟨destination, source, segment, rfl⟩ := TcpTableCall.eq_deliver hdelivers
      exact ⟨(deliver_taken hfree hvalid).1, rfl⟩

/-- A connection that is not handed out after a call was not handed out before, or is new. -/
theorem pending_step {i : Nat} (h : Pending (acceptStep s call) i) :
    Pending s i ∨ (s.table.endpoints i).valid = false ∧ call.delivers = true := by
  obtain ⟨hvalid, hchild, hreturned⟩ := h
  change ((tcpTableStep s.table call).endpoints i).valid = true at hvalid
  change (((tcpTableStep s.table call).endpoints i).valid &&
    if (s.table.endpoints i).valid then s.child i else call.delivers) = true at hchild
  change (((tcpTableStep s.table call).endpoints i).valid && (s.table.endpoints i).valid &&
    (s.returned i || decide (acceptedBy s.table call = some (i + 1)))) = false at hreturned
  rw [hvalid, Bool.true_and] at hchild hreturned
  by_cases hused : (s.table.endpoints i).valid = true
  · rw [if_pos hused] at hchild
    rw [hused, Bool.true_and, Bool.or_eq_false_iff] at hreturned
    exact .inl ⟨hused, hchild, hreturned.1⟩
  · rw [if_neg hused] at hchild
    exact .inr ⟨Bool.not_eq_true _ |>.mp hused, hchild⟩

theorem noneLost_step (hok : AcceptOk s) (h : AcceptsInTime s call) : NoneLost (acceptStep s call) := by
  intro i hpending hclosed
  have hvalid := hpending.valid
  change ((tcpTableStep s.table call).endpoints i).valid = true at hvalid
  change ((tcpTableStep s.table call).endpoints i).connection.state = .closed at hclosed
  rcases pending_step hpending with hbefore | ⟨hfree, hdelivers⟩
  · by_cases hdelivers : call.delivers = false
    · exact hok.none_lost i hbefore ((other_used hdelivers hbefore.valid).2 hclosed)
    obtain ⟨destination, source, segment, rfl⟩ := TcpTableCall.eq_deliver hdelivers
    rw [tcpTableStep] at hclosed
    rcases deliver_used hbefore.valid with hsame | ⟨hselected, hlisten, hheard⟩
    · exact hok.none_lost i hbefore (hsame ▸ hclosed)
    · rw [hheard, hearSegment_connection] at hclosed
      rcases (received_states (received _ _) hlisten).2 hclosed with hstate | hcloses
      · exact hok.none_lost i hbefore hstate
      · exact h i hselected (.inl hbefore) hcloses
  · obtain ⟨destination, source, segment, rfl⟩ := TcpTableCall.eq_deliver (ne_of_eq_of_ne hdelivers (by decide))
    obtain ⟨-, -, ⟨j, hselected, hlisten, -⟩, hstate⟩ := deliver_taken hfree hvalid
    rw [Opened, if_neg fun hreset => h j hselected (.inr hlisten) (.inl hreset)] at hstate
    exact TcpState.noConfusion (hstate.1.symm.trans hclosed)

theorem acceptOk_step (hok : AcceptOk s) (h : AcceptsInTime s call) : AcceptOk (acceptStep s call) :=
  ⟨childrenKnown_step hok, noneLost_step hok h⟩

end Steps

section Runs

/-- A table that was just initialized. -/
def acceptStart (table : TcpTable) : AcceptRun where
  table := tcpEndpointTableInitialize table
  child _ := false
  returned _ := false

theorem acceptOk_start (table : TcpTable) : AcceptOk (acceptStart table) where
  known _ hvalid := nomatch hvalid
  none_lost _ hpending := nomatch hpending.valid

/-- In every run whose calls come in time, listeners hand out what waits, once, and nothing that was not
handed out is closed and keeps its slot. -/
theorem handsOut_run (table : TcpTable) {calls : List TcpTableCall}
    (h : Each acceptStep AcceptsInTime (acceptStart table) calls) :
    Each acceptStep HandsOut (acceptStart table) calls ∧
      Always acceptStep NoneLost (acceptStart table) calls :=
  ⟨each_of_keeps (I := AcceptOk) (fun _ _ hok hc => handsOut_of_inTime hok hc) (fun _ _ hok hc => acceptOk_step hok hc)
    (acceptOk_start table) h,
    always_of_keeps (fun _ hok => hok.none_lost) (fun _ _ hok hc => acceptOk_step hok hc)
      (acceptOk_start table) h⟩

/-- A table of eight slots that were never used. -/
def unusedTable : TcpTable where
  endpoints _ :=
    { valid := false
      localAddress := Vector.replicate 4 0
      remoteAddress := Vector.replicate 4 0
      connection := tcpConnectionInitialize 0 0
      queue := fun _ => ⟨Vector.replicate 4 0, []⟩
      head := 0
      tail := 0
      count := 0
      dropped := 0 }

/-- A segment from a peer to port 80 of the host. -/
def arrives (sequence acknowledgment : Sequence) (flags : UInt8) : TcpTableCall :=
  .deliver (sampleHost 2) (sampleHost 1)
    { sourcePort := 1000, destinationPort := 80, sequence, acknowledgment, flags, window := 500, payload := [] }

/-- A listener on port 80 is asked as soon as a peer's `SYN` has arrived. -/
def askedAtOnce : List TcpTableCall :=
  [.listen (sampleHost 2) 80 500, arrives 40 0 tcpFlagSyn, .accept 1]

theorem handsOut_run_sample :
    Each acceptStep HandsOut (acceptStart unusedTable) askedAtOnce ∧
      Always acceptStep NoneLost (acceptStart unusedTable) askedAtOnce := by
  refine handsOut_run unusedTable ⟨trivial, fun i hselected _ => ?_, fun parent hlistens i => ⟨?_, ?_⟩, trivial⟩
  · have hlistener : selectEndpoint (sampleHost 2) (sampleHost 1)
        { sourcePort := 1000, destinationPort := 80, sequence := 40, acknowledgment := 0, flags := tcpFlagSyn,
          window := 500, payload := [] }
        (acceptStep (acceptStart unusedTable) (.listen (sampleHost 2) 80 500)).table = some 0 := by
      decide +kernel
    obtain rfl := Option.some.inj (hselected.symm.trans hlistener)
    rintro (hreset | ⟨hstate, -⟩)
    · exact absurd hreset (by decide)
    · exact absurd hstate (by decide +kernel)
  · intro hwaiting
    have hchildren : ∀ i, i < tcpEndpointCapacity →
        (run acceptStep (acceptStart unusedTable) [.listen (sampleHost 2) 80 500,
          arrives 40 0 tcpFlagSyn]).child i = true →
        ((run acceptStep (acceptStart unusedTable) [.listen (sampleHost 2) 80 500,
          arrives 40 0 tcpFlagSyn]).table.endpoints i).connection.state = .synReceived := by
      decide +kernel
    exact hchildren i hwaiting.slot hwaiting.child
  · have hnone : (run acceptStep (acceptStart unusedTable) [.listen (sampleHost 2) 80 500,
        arrives 40 0 tcpFlagSyn]).returned i = false := by
      simp [acceptStep, acceptStart, acceptedBy, arrives]
    exact fun h => nomatch hnone.symm.trans h

/-- A peer's `SYN` arrives at a listener on port 80, and the peer completes its handshake. -/
def shakesHands : List TcpTableCall :=
  [.listen (sampleHost 2) 80 500, arrives 40 0 tcpFlagSyn, arrives 41 1 tcpFlagAck]

/-- The connection is established and waits, and the listener hands out nothing. -/
theorem established_not_handed_out :
    ¬(Each acceptStep HandsOut (acceptStart unusedTable) (shakesHands ++ [.accept 1]) ∧
      Always acceptStep NoneLost (acceptStart unusedTable) (shakesHands ++ [.accept 1])) := by
  rintro ⟨h, -⟩
  have hasked : HandsOut (run acceptStep (acceptStart unusedTable) shakesHands) (.accept 1) :=
    ((each_append _ _ _).mp h).2.1
  have hlistens : Listens (run acceptStep (acceptStart unusedTable) shakesHands) 1 0 :=
    ⟨by decide +kernel, by decide +kernel⟩
  have hnothing : tcpEndpointAccept 1 (run acceptStep (acceptStart unusedTable) shakesHands).table = none := by
    decide +kernel
  refine none_waits hasked hlistens hnothing 1 ⟨⟨?_, ?_, ?_⟩, by decide, ?_, ?_⟩
  · decide +kernel
  · decide +kernel
  · decide +kernel
  · decide +kernel
  · decide +kernel

end Runs

end KernelBoot.Network
