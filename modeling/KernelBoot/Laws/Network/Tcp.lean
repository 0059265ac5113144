import KernelBoot.Network.Tcp
import KernelBoot.Laws.Network.TcpSegment

/-!
# What a call does to a connection

`Received` lists what `tcp_connection_receive` can do, one case for each way it returns, so that an
invariant is checked once for each. `Admitted` is what `tcp_connection_build` asks for before it sends.
-/

namespace KernelBoot.Network

open Lib

variable {state : TcpState} {segment : TcpSegment} {c' : TcpConnection}
variable {c : TcpConnection} {result : Option TcpResult}

section Flags

variable {flags other mask : UInt8} {payload : List UInt8}

theorem flagged_or : flagged (flags ||| other) mask ↔ flagged flags mask ∨ flagged other mask := by
  have hdistrib : (flags ||| other) &&& mask = flags &&& mask ||| other &&& mask := by
    apply UInt8.toBitVec_inj.mp
    ext i
    simp [Bool.and_or_distrib_right]
  rw [flagged, flagged, flagged, hdistrib, Ne, UInt8.or_eq_zero_iff, not_and_or]

/-- Flags that have nothing in common with the mask do not matter. -/
theorem flagged_or_of_disjoint (h : ¬flagged other mask) :
    flagged (flags ||| other) mask ↔ flagged flags mask := by
  rw [flagged_or, or_iff_left h]

/-- A flag of a smaller mask is one of the larger. -/
theorem flagged_mono (h : other &&& mask = other) (hflagged : flagged flags other) : flagged flags mask := by
  intro hzero
  apply hflagged
  rw [← h, UInt8.and_comm other, ← UInt8.and_assoc, hzero, UInt8.zero_and]

theorem flagged_buildFlags (hack : ¬flagged tcpFlagAck mask) (hpush : ¬flagged (tcpFlagAck ||| tcpFlagPsh) mask) :
    flagged (buildFlags flags payload) mask ↔ flagged flags mask := by
  rw [buildFlags]
  split_ifs
  all_goals simp only [flagged_or_of_disjoint hack, flagged_or_of_disjoint hpush]

theorem flagged_buildFlags_fin : flagged (buildFlags flags payload) tcpFlagFin ↔ flagged flags tcpFlagFin :=
  flagged_buildFlags (by decide) (by decide)

theorem not_synFin_of_not_syn (h : ¬flagged flags tcpFlagSyn) : ¬synFin flags := by
  intro hboth
  apply h
  have hsyn : flags &&& tcpFlagSyn = (flags &&& (tcpFlagSyn ||| tcpFlagFin)) &&& tcpFlagSyn := by
    rw [UInt8.and_assoc]
    rfl
  rw [flagged, hsyn, hboth]
  decide

end Flags

section Receive

theorem TcpState.carries.ne_listen (h : state.carries) : state ≠ .listen := by
  rcases h with rfl | rfl
  · nofun
  · nofun

theorem not_carries_of_eq (h : state ≠ .established) (h' : state ≠ .closeWait) :
    ¬state.carries := by
  rintro (hstate | hstate)
  · exact h hstate
  · exact h' hstate

theorem TcpState.carries.ne_idle (h : state.carries) : state ≠ .synSent ∧ state ≠ .closed := by
  rcases h with rfl | rfl
  · exact ⟨nofun, nofun⟩
  · exact ⟨nofun, nofun⟩

/-- A `SYN` reaches a listening connection. -/
def OpensPassively (segment : TcpSegment) (connection : TcpConnection) : Prop :=
  addressed segment connection ∧ ¬flagged segment.flags tcpFlagRst ∧ connection.state = .listen ∧
    flagged segment.flags tcpFlagSyn

/-- The segment is for the connection and does not reset it. -/
structure Heard (segment : TcpSegment) (connection : TcpConnection) : Prop where
  addressed : addressed segment connection
  no_reset : ¬flagged segment.flags tcpFlagRst

/-- The segment is taken by a connection that takes data. -/
structure Accepts (segment : TcpSegment) (connection : TcpConnection) : Prop extends
    Heard segment connection where
  carries : connection.state.carries
  ack : flagged segment.flags tcpFlagAck
  lower : connection.sendUnacknowledged ≤ segment.acknowledgment
  upper : segment.acknowledgment ≤ connection.sendNext
  in_order : segment.sequence = connection.receiveNext

/-- The segment ends the stream of a peer that was already told that nothing more is sent. -/
structure Ends (segment : TcpSegment) (connection : TcpConnection) : Prop extends
    Heard segment connection where
  state : connection.state = .finWait2
  fin : flagged segment.flags tcpFlagFin
  in_order : segment.sequence = connection.receiveNext

/-- What `tcp_connection_receive` can answer, and the connection it leaves. -/
inductive Received (segment : TcpSegment) (c : TcpConnection) : Option TcpResult → TcpConnection → Prop
  | refused (h : ¬OpensPassively segment c) : Received segment c none c
  | reset (haddressed : addressed segment c) (hreset : flagged segment.flags tcpFlagRst) :
    Received segment c (some { responseFlags := tcpFlagRst }) { c with state := .closed }
  | opened (heard : Heard segment c) (hstate : c.state = .listen) (hsyn : flagged segment.flags tcpFlagSyn) :
    Received segment c
      (some
        { responseFlags := tcpFlagSyn ||| tcpFlagAck
          responseAcknowledgment := segment.sequence + 1 })
      { c with
        remotePort := segment.sourcePort
        receiveNext := segment.sequence + 1
        sendNext := 1
        sendUnacknowledged := 0
        peerWindow := segment.window
        state := .synReceived }
  | answered (heard : Heard segment c) (hstate : c.state = .synSent)
      (hflags : segment.flags &&& (tcpFlagSyn ||| tcpFlagAck) = tcpFlagSyn ||| tcpFlagAck)
      (hacknowledgment : segment.acknowledgment = c.sendNext)
      (horder : c.sendUnacknowledged ≤ segment.acknowledgment) :
    Received segment c
      (some
        { responseFlags := tcpFlagAck
          responseSequence := c.sendNext
          responseAcknowledgment := segment.sequence + 1 })
      { c with
        sendUnacknowledged := c.sendNext
        peerWindow := segment.window
        retransmissionPending := false
        receiveNext := segment.sequence + 1
        state := .established }
  | repeated (heard : Heard segment c) (hstate : c.state = .synReceived)
      (hsyn : flagged segment.flags tcpFlagSyn) (hsequence : segment.sequence + 1 = c.receiveNext) :
    Received segment c
      (some
        { responseFlags := tcpFlagSyn ||| tcpFlagAck
          responseSequence := c.sendUnacknowledged
          responseAcknowledgment := c.receiveNext })
      c
  | completed (heard : Heard segment c) (hstate : c.state = .synReceived)
      (hall : acknowledgesAll segment c) :
    Received segment c (some {})
      { c with
        sendUnacknowledged := c.sendNext
        peerWindow := segment.window
        retransmissionPending := false
        state := .established }
  | halfClosed (heard : Heard segment c) (hstate : c.state = .finWait1) (hall : acknowledgesAll segment c) :
    Received segment c (some {})
      { c with
        sendUnacknowledged := c.sendNext
        peerWindow := segment.window
        retransmissionPending := false
        state := .finWait2 }
  | ended (hends : Ends segment c) :
    Received segment c
      (some
        { responseFlags := tcpFlagAck
          responseSequence := c.sendNext
          responseAcknowledgment := c.receiveNext + 1 })
      { c with receiveNext := c.receiveNext + 1, state := .timeWait }
  | closed (heard : Heard segment c) (hstate : c.state = .lastAck) (hall : acknowledgesAll segment c) :
    Received segment c (some {}) { c with sendUnacknowledged := c.sendNext, state := .closed }
  | outOfOrder (heard : Heard segment c) (hstate : c.state.carries)
      (hsequence : segment.sequence ≠ c.receiveNext) : Received segment c (some (acknowledge c)) c
  | accepted (haccepts : Accepts segment c) :
    Received segment c
      (some { acknowledge (acceptSegment segment c) with acceptedPayload := segment.payload.length })
      (acceptSegment segment c)

private def Answers (segment : TcpSegment) (c : TcpConnection) (p : Option TcpResult × TcpConnection) : Prop :=
  Received segment c p.1 p.2

private theorem answers_ite {segment : TcpSegment} {c : TcpConnection} {p : Prop} [Decidable p]
    {a b : Option TcpResult × TcpConnection} (hpos : p → Answers segment c a)
    (hneg : ¬p → Answers segment c b) : Answers segment c (if p then a else b) :=
  iteInduction hpos hneg

theorem received (segment : TcpSegment) (c : TcpConnection) :
    Received segment c (tcpConnectionReceive segment c).1 (tcpConnectionReceive segment c).2 := by
  refine answers_ite (fun haddressed => ?_) fun haddressed => ?_
  · exact .refused fun h => haddressed h.1
  have haddressed := not_not.mp haddressed
  refine answers_ite (.reset haddressed) fun hreset => ?_
  have heard : Heard segment c := ⟨haddressed, hreset⟩
  refine answers_ite (fun h => .opened heard h.1 h.2) fun hlisten => ?_
  have hpassive : ¬OpensPassively segment c := fun h => hlisten h.2.2
  refine answers_ite (fun hsent => ?_) fun _ => ?_
  · refine answers_ite (fun _ => .refused hpassive) fun horder => ?_
    exact .answered heard hsent.1 hsent.2.1 hsent.2.2 (BitVec.not_lt.mp horder)
  refine answers_ite (fun h => .repeated heard h.1 h.2.1 h.2.2) fun _ => ?_
  refine answers_ite (fun h => .completed heard h.1 h.2) fun _ => ?_
  refine answers_ite (fun h => .halfClosed heard h.1 h.2) fun _ => ?_
  refine answers_ite (fun h => .ended ⟨heard, h.1, h.2.1, h.2.2⟩) fun _ => ?_
  refine answers_ite (fun h => .closed heard h.1 h.2) fun _ => ?_
  refine answers_ite (fun _ => .refused hpassive) fun hcarries => ?_
  have hcarries := not_not.mp hcarries
  refine answers_ite (fun _ => .refused hpassive) fun hrange => ?_
  refine answers_ite (.outOfOrder heard hcarries) fun hsequence => ?_
  simp only [not_or, not_not, BitVec.not_lt] at hrange hsequence
  exact .accepted ⟨heard, hcarries, hrange.1, hrange.2.1, hrange.2.2, hsequence⟩

theorem receive_of_reset (haddressed : addressed segment c)
    (hreset : flagged segment.flags tcpFlagRst) : tcpConnectionReceive segment c =
      (some { responseFlags := tcpFlagRst }, { c with state := .closed }) := by
  rw [tcpConnectionReceive, if_neg (not_not.mpr haddressed), if_pos hreset]

theorem receive_of_opens (h : OpensPassively segment c) : tcpConnectionReceive segment c =
      (some
        { responseFlags := tcpFlagSyn ||| tcpFlagAck
          responseAcknowledgment := segment.sequence + 1 },
        { c with
          remotePort := segment.sourcePort
          receiveNext := segment.sequence + 1
          sendNext := 1
          sendUnacknowledged := 0
          peerWindow := segment.window
          state := .synReceived }) := by
  rw [tcpConnectionReceive, if_neg (not_not.mpr h.1), if_neg h.2.1, if_pos h.2.2]

theorem receive_of_accepts (h : Accepts segment c) : tcpConnectionReceive segment c =
      (some { acknowledge (acceptSegment segment c) with acceptedPayload := segment.payload.length },
        acceptSegment segment c) := by
  have hrange : ¬(¬flagged segment.flags tcpFlagAck ∨ segment.acknowledgment < c.sendUnacknowledged ∨
      c.sendNext < segment.acknowledgment) := by
    simp only [not_or, not_not, BitVec.not_lt]
    exact ⟨h.ack, h.lower, h.upper⟩
  rw [tcpConnectionReceive, if_neg (not_not.mpr h.addressed), if_neg h.no_reset]
  rcases h.carries with hstate | hstate
  · simp only [hstate, reduceCtorEq, false_and, if_false]
    rw [if_neg (by decide), if_neg hrange, if_neg (not_not.mpr h.in_order)]
  · simp only [hstate, reduceCtorEq, false_and, if_false]
    rw [if_neg (by decide), if_neg hrange, if_neg (not_not.mpr h.in_order)]

theorem receive_of_ends (h : Ends segment c) : tcpConnectionReceive segment c =
      (some
        { responseFlags := tcpFlagAck
          responseSequence := c.sendNext
          responseAcknowledgment := c.receiveNext + 1 },
        { c with receiveNext := c.receiveNext + 1, state := .timeWait }) := by
  rw [tcpConnectionReceive, if_neg (not_not.mpr h.addressed), if_neg h.no_reset]
  simp only [h.state, reduceCtorEq, false_and, if_false]
  rw [if_pos ⟨trivial, h.fin, h.in_order⟩]
  rfl

theorem acceptSegment_carries (hstate : c.state.carries) :
    (acceptSegment segment c).state.carries := by
  change (if flagged segment.flags tcpFlagFin then TcpState.closeWait else c.state).carries
  split_ifs
  · exact .inr rfl
  · exact hstate

/-- A connection that does not listen keeps its peer, its buffer and the buffer's end. -/
theorem received_kept (hstate : c.state ≠ .listen) (h : Received segment c result c') :
    c'.remotePort = c.remotePort ∧ c'.state ≠ .listen ∧
      c'.retransmissionSequenceEnd = c.retransmissionSequenceEnd ∧
      c'.retransmissionSegment = c.retransmissionSegment := by
  cases h with
  | opened _ hlisten => exact absurd hlisten hstate
  | accepted =>
    refine ⟨rfl, ?_, rfl, rfl⟩
    change (if flagged segment.flags tcpFlagFin then TcpState.closeWait else c.state) ≠ .listen
    split_ifs
    · nofun
    · exact hstate
  | refused | repeated | outOfOrder => exact ⟨rfl, hstate, rfl, rfl⟩
  | reset | answered | completed | halfClosed | ended | closed => exact ⟨rfl, nofun, rfl, rfl⟩

theorem received_synSent (h : Received segment c result c') (hstate : c'.state = .synSent) :
    c.state = .synSent := by
  cases h with
  | refused | repeated | outOfOrder => exact hstate
  | accepted haccepts => exact absurd hstate (acceptSegment_carries haccepts.carries).ne_idle.1
  | reset | opened | answered | completed | halfClosed | ended | closed => exact nomatch hstate

/-- What is answered acknowledges what was received, if anything. -/
theorem received_response {result : TcpResult} (h : Received segment c (some result) c')
    (hack : flagged result.responseFlags tcpFlagAck) :
    result.responseAcknowledgment = c'.receiveNext := by
  cases h with
  | opened | answered | repeated | ended | outOfOrder | accepted => rfl
  | reset => exact absurd hack (by decide)
  | completed | halfClosed | closed => exact absurd hack (by decide)

theorem received_payload {result : TcpResult} (h : Received segment c (some result) c')
    (haccepts : ¬Accepts segment c) : result.acceptedPayload = 0 := by
  cases h with
  | accepted h => exact absurd h haccepts
  | reset | opened | answered | repeated | completed | halfClosed | ended | closed | outOfOrder => rfl

end Receive

section Build

/-- What `tcp_connection_build` asks for. -/
structure Admitted (flags : UInt8) (payload : List UInt8) (capacity : Nat) (c : TcpConnection) : Prop where
  carries : c.state.carries
  no_syn : ¬flagged flags (tcpFlagSyn ||| tcpFlagRst)
  window : sequenceSpace flags payload + (c.sendNext - c.sendUnacknowledged).toNat ≤ c.peerWindow.toNat
  ports : c.localPort ≠ 0 ∧ c.remotePort ≠ 0
  short : tcpHeaderSize + payload.length ≤ tcpRetransmitMaxSize
  room : tcpHeaderSize + payload.length ≤ capacity

/-- The segment that goes out. -/
def builtSegment (flags : UInt8) (payload : List UInt8) (c : TcpConnection) : TcpSegment where
  sourcePort := c.localPort
  destinationPort := c.remotePort
  sequence := c.sendNext
  acknowledgment := c.receiveNext
  flags := buildFlags flags payload
  window := c.window
  payload := payload

/-- The connection after a segment went out. -/
def built (source destination : Address) (flags : UInt8) (payload : List UInt8) (c : TcpConnection) :
    TcpConnection :=
  { c with
    sendNext := c.sendNext + BitVec.ofNat 32 (sequenceSpace flags payload)
    retransmissionSegment := packetOf (builtSegment flags payload c) source destination
    retransmissionRetries := 0
    retransmissionLastTick := 0
    retransmissionPending := true
    retransmissionSequenceEnd := c.sendNext + BitVec.ofNat 32 (sequenceSpace flags payload)
    state := closing flags c.state }

variable {source destination : Address} {flags : UInt8} {payload : List UInt8} {capacity : Nat}
  {c : TcpConnection}

theorem sequenceSpace_buildFlags :
    sequenceSpace (buildFlags flags payload) payload = sequenceSpace flags payload := by
  simp only [sequenceSpace, flagged_buildFlags_fin]

theorem closing_buildFlags (state : TcpState) : closing (buildFlags flags payload) state = closing flags state := by
  simp only [closing, flagged_buildFlags_fin]

/-- The end of a stream leads to two states only. -/
theorem closing_eq {after : TcpState} (h : closing flags state = after) (hlast : after ≠ .lastAck)
    (hwait : after ≠ .finWait1) : state = after := by
  rw [closing] at h
  split_ifs at h
  · exact absurd h.symm hlast
  · exact absurd h.symm hwait
  · exact h

theorem closing_ne_listen (h : state ≠ .listen) : closing flags state ≠ .listen :=
  fun hlisten => h (closing_eq hlisten nofun nofun)

theorem Admitted.buildable (h : Admitted flags payload capacity c) :
    Buildable capacity c.localPort c.remotePort (buildFlags flags payload) payload where
  sourcePort_ne := h.ports.1
  destinationPort_ne := h.ports.2
  not_synFin := by
    refine not_synFin_of_not_syn fun hsyn => h.no_syn ?_
    rw [flagged_buildFlags (by decide) (by decide)] at hsyn
    exact flagged_mono (by decide) hsyn
  fits := h.short.trans (by decide)
  room := h.room

theorem tcpConnectionBuild_of_admitted (h : Admitted flags payload capacity c) :
    tcpConnectionBuild source destination flags payload capacity c =
      (some (packetOf (builtSegment flags payload c) source destination),
        built source destination flags payload c) := by
  generalize hbuilt : packetOf (builtSegment flags payload c) source destination = packet
  have hpacket : tcpSegmentBuild capacity source destination c.localPort c.remotePort c.sendNext
      c.receiveNext (buildFlags flags payload) c.window payload = some packet :=
    tcpSegmentBuild_eq_some_iff.mpr ⟨h.buildable, hbuilt.symm⟩
  have hwindow := h.window
  have hshort := h.short
  have hlength : packet.length = tcpHeaderSize + payload.length := hbuilt ▸ length_packetOf _
  rw [tcpConnectionBuild, if_neg]
  dsimp only
  rw [sequenceSpace_buildFlags, if_neg, hpacket]
  · have hrecord : ¬(packet.length = 0 ∨ tcpRetransmitMaxSize < packet.length) := by
      rw [hlength]
      simp only [tcpHeaderSize, tcpRetransmitMaxSize] at hshort ⊢
      omega
    simp only [tcpConnectionRecordSegment, if_neg hrecord, closing_buildFlags, built, hbuilt]
  · omega
  · simp only [not_or, not_not]
    exact ⟨h.carries, h.no_syn, by simp only [tcpRetransmitMaxSize, tcpHeaderSize] at *; omega⟩

theorem tcpConnectionBuild_of_not_admitted (h : ¬Admitted flags payload capacity c) :
    tcpConnectionBuild source destination flags payload capacity c = (none, c) := by
  rw [tcpConnectionBuild]
  refine ite_eq_left_iff.mpr fun hchecks => ?_
  dsimp only
  rw [sequenceSpace_buildFlags]
  refine ite_eq_left_iff.mpr fun hwindow => ?_
  have hfails : tcpSegmentBuild capacity source destination c.localPort c.remotePort c.sendNext
      c.receiveNext (buildFlags flags payload) c.window payload = none := by
    rw [Option.eq_none_iff_forall_ne_some]
    intro packet hpacket
    obtain ⟨hbuildable, -⟩ := tcpSegmentBuild_eq_some_iff.mp hpacket
    simp only [not_or, not_not] at hchecks
    refine h ⟨hchecks.1, hchecks.2.1, by omega, ⟨hbuildable.sourcePort_ne, hbuildable.destinationPort_ne⟩,
      ?_, hbuildable.room⟩
    have hlength := hchecks.2.2
    simp only [tcpRetransmitMaxSize, tcpHeaderSize] at hlength ⊢
    omega
  rw [hfails]

end Build

/-- The address of a host in the samples. -/
def sampleHost (last : UInt8) : Address := #v[10, 0, 0, last]

section Reset

/-- The states in which both ends know where the other's numbers start. -/
def TcpState.synchronized : TcpState → Bool
  | .synReceived | .established | .finWait1 | .finWait2 | .closeWait | .lastAck => true
  | _ => false

/-- A reset outside the window or, before the peer has answered, one that does not acknowledge the
`SYN`. RFC 793 has it ignored. -/
def BlindReset (segment : TcpSegment) (c : TcpConnection) : Prop :=
  flagged segment.flags tcpFlagRst ∧
    (c.state.synchronized = true ∧ c.window.toNat ≤ (segment.sequence - c.receiveNext).toNat ∨
      c.state = .synSent ∧ segment.acknowledgment ≠ c.sendNext)

instance : Decidable (BlindReset segment c) := inferInstanceAs (Decidable (_ ∧ _))

/-- A blind reset changes the state, unless it is for another port. -/
theorem blindReset_ignored_iff (h : BlindReset segment c) :
    (tcpConnectionReceive segment c).2.state = c.state ↔ ¬addressed segment c := by
  have hopen : c.state ≠ .closed := by
    intro hclosed
    rcases h.2 with ⟨hstate, -⟩ | ⟨hstate, -⟩
    all_goals
      rw [hclosed] at hstate
      cases hstate
  rw [tcpConnectionReceive]
  by_cases haddressed : addressed segment c
  · rw [if_neg (not_not.mpr haddressed), if_pos h.1]
    exact iff_of_false hopen.symm (not_not.mpr haddressed)
  · rw [if_pos haddressed]
    exact iff_of_true rfl haddressed

/-- A connection with a window of 100 that waits for number 5. -/
def sampleOpen : TcpConnection where
  state := .established
  receiveNext := 5
  window := 100
  peerWindow := 100
  localPort := 80
  remotePort := 9000

/-- A reset with number 4 from a port. -/
def sampleReset (port : UInt16) : TcpSegment where
  sourcePort := port
  destinationPort := 80
  sequence := 4
  acknowledgment := 0
  flags := tcpFlagRst
  window := 0
  payload := []

theorem blindReset_ignored_sample : BlindReset (sampleReset 9001) sampleOpen ∧
    (tcpConnectionReceive (sampleReset 9001) sampleOpen).2.state = .established := by
  have hblind : BlindReset (sampleReset 9001) sampleOpen := by decide
  exact ⟨hblind, (blindReset_ignored_iff hblind).mpr (by decide)⟩

/-- The reset comes in before the window, in a connection and while one is opened. -/
theorem blindReset_closes :
    (BlindReset (sampleReset 9000) sampleOpen ∧
      (tcpConnectionReceive (sampleReset 9000) sampleOpen).2.state = .closed) ∧
    BlindReset (sampleReset 9000) { sampleOpen with state := .synSent, sendNext := 1 } ∧
      (tcpConnectionReceive (sampleReset 9000)
        { sampleOpen with state := .synSent, sendNext := 1 }).2.state = .closed := by
  decide

end Reset

end KernelBoot.Network
