import KernelBoot.Network.TcpSegment

/-!
# TCP connections (`kernel/drivers/network/tcp.c`)

One end of a connection: its state, its sequence numbers and one buffer for the segment that may have
to be sent again. Sequence numbers are compared as plain 32-bit numbers where the source compares them
so. A call that fails answers `none`; it may have changed the connection nevertheless, so every call
returns the connection.
-/

namespace KernelBoot.Network

open Lib

/-- `TCP_RETRANSMIT_MAX_SIZE`. -/
def tcpRetransmitMaxSize : Nat := 1500

/-- `TCP_RETRANSMIT_MAX_RETRIES`. -/
def tcpRetransmitMaxRetries : Nat := 3

/-- `tcp_connection_state_t`. -/
inductive TcpState
  | closed | listen | synSent | synReceived | established | finWait1 | finWait2 | closeWait | lastAck
  | timeWait
  deriving DecidableEq

/-- `tcp_connection_t`; the buffer holds its first `retransmission_length` bytes. -/
structure TcpConnection where
  state : TcpState := .closed
  sendUnacknowledged : Sequence := 0
  sendNext : Sequence := 0
  receiveNext : Sequence := 0
  window : UInt16
  peerWindow : UInt16
  localPort : UInt16
  remotePort : UInt16 := 0
  retransmissionPending : Bool := false
  retransmissionRetries : Nat := 0
  retransmissionSequenceEnd : Sequence := 0
  retransmissionLastTick : Nat := 0
  retransmissionSegment : List UInt8 := []
  deriving DecidableEq

/-- `tcp_connection_result_t`. -/
structure TcpResult where
  endpointHandle : Nat := 0
  responseFlags : UInt8 := 0
  responseSequence : Sequence := 0
  responseAcknowledgment : Sequence := 0
  acceptedPayload : Nat := 0
  deriving DecidableEq

/-- `tcp_connection_initialize`. -/
def tcpConnectionInitialize (localPort window : UInt16) : TcpConnection :=
  { window, peerWindow := window, localPort }

/-- `tcp_connection_listen`. -/
def tcpConnectionListen (connection : TcpConnection) : Option Unit × TcpConnection :=
  if connection.localPort = 0 ∨ connection.state ≠ .closed then (none, connection)
  else (some (), { connection with state := .listen })

/-- `tcp_connection_open`. -/
def tcpConnectionOpen (sequence : Sequence) (remotePort : UInt16) (connection : TcpConnection) :
    Option Unit × TcpConnection :=
  if connection.localPort = 0 ∨ remotePort = 0 ∨ connection.state ≠ .closed then (none, connection)
  else
    (some (), { connection with
      remotePort, sendNext := sequence + 1, sendUnacknowledged := sequence, state := .synSent })

/-- The segment is for this connection. -/
def addressed (segment : TcpSegment) (connection : TcpConnection) : Prop :=
  segment.destinationPort = connection.localPort ∧
    (connection.remotePort ≠ 0 → segment.sourcePort = connection.remotePort)

instance (segment : TcpSegment) (connection : TcpConnection) : Decidable (addressed segment connection) :=
  inferInstanceAs (Decidable (_ ∧ _))

/-- The segment acknowledges everything that was sent. -/
def acknowledgesAll (segment : TcpSegment) (connection : TcpConnection) : Prop :=
  flagged segment.flags tcpFlagAck ∧ segment.acknowledgment = connection.sendNext

instance (segment : TcpSegment) (connection : TcpConnection) :
    Decidable (acknowledgesAll segment connection) := inferInstanceAs (Decidable (_ ∧ _))

/-- The states in which `tcp_connection_receive` takes data and `tcp_connection_build` sends it. -/
def TcpState.carries (state : TcpState) : Prop := state = .established ∨ state = .closeWait

instance (state : TcpState) : Decidable state.carries := inferInstanceAs (Decidable (_ ∨ _))

/-- An acknowledgment with nothing else in it. -/
def acknowledge (connection : TcpConnection) : TcpResult where
  responseFlags := tcpFlagAck
  responseSequence := connection.sendNext
  responseAcknowledgment := connection.receiveNext

/-- One if the segment ends the stream. -/
def TcpSegment.finLength (segment : TcpSegment) : Nat := if flagged segment.flags tcpFlagFin then 1 else 0

/-- The end of `tcp_connection_receive`: a segment in order, in a state that takes data. -/
def acceptSegment (segment : TcpSegment) (connection : TcpConnection) : TcpConnection :=
  { connection with
    sendUnacknowledged := segment.acknowledgment
    peerWindow := segment.window
    retransmissionPending :=
      connection.retransmissionPending &&
        decide (segment.acknowledgment < connection.retransmissionSequenceEnd)
    receiveNext :=
      connection.receiveNext + BitVec.ofNat 32 (segment.payload.length + segment.finLength)
    state := if flagged segment.flags tcpFlagFin then .closeWait else connection.state }

/-- `tcp_connection_receive`. -/
def tcpConnectionReceive (segment : TcpSegment) (connection : TcpConnection) :
    Option TcpResult × TcpConnection :=
  if ¬addressed segment connection then (none, connection)
  else if flagged segment.flags tcpFlagRst then
    (some { responseFlags := tcpFlagRst }, { connection with state := .closed })
  else if connection.state = .listen ∧ flagged segment.flags tcpFlagSyn then
    (some
      { responseFlags := tcpFlagSyn ||| tcpFlagAck
        responseAcknowledgment := segment.sequence + 1 },
      { connection with
        remotePort := segment.sourcePort
        receiveNext := segment.sequence + 1
        sendNext := 1
        sendUnacknowledged := 0
        peerWindow := segment.window
        state := .synReceived })
  else if connection.state = .synSent ∧
      segment.flags &&& (tcpFlagSyn ||| tcpFlagAck) = tcpFlagSyn ||| tcpFlagAck ∧
      segment.acknowledgment = connection.sendNext then
    if segment.acknowledgment < connection.sendUnacknowledged then (none, connection)
    else
      let connection : TcpConnection :=
        { connection with
          sendUnacknowledged := connection.sendNext
          peerWindow := segment.window
          retransmissionPending := false
          receiveNext := segment.sequence + 1
          state := .established }
      (some (acknowledge connection), connection)
  else if connection.state = .synReceived ∧ flagged segment.flags tcpFlagSyn ∧
      segment.sequence + 1 = connection.receiveNext then
    (some
      { responseFlags := tcpFlagSyn ||| tcpFlagAck
        responseSequence := connection.sendUnacknowledged
        responseAcknowledgment := connection.receiveNext },
      connection)
  else if connection.state = .synReceived ∧ acknowledgesAll segment connection then
    (some {},
      { connection with
        sendUnacknowledged := connection.sendNext
        peerWindow := segment.window
        retransmissionPending := false
        state := .established })
  else if connection.state = .finWait1 ∧ acknowledgesAll segment connection then
    (some {},
      { connection with
        sendUnacknowledged := connection.sendNext
        peerWindow := segment.window
        retransmissionPending := false
        state := .finWait2 })
  else if connection.state = .finWait2 ∧ flagged segment.flags tcpFlagFin ∧
      segment.sequence = connection.receiveNext then
    let connection : TcpConnection :=
      { connection with receiveNext := connection.receiveNext + 1, state := .timeWait }
    (some (acknowledge connection), connection)
  else if connection.state = .lastAck ∧ acknowledgesAll segment connection then
    (some {}, { connection with sendUnacknowledged := connection.sendNext, state := .closed })
  else if ¬connection.state.carries then (none, connection)
  else if ¬flagged segment.flags tcpFlagAck ∨ segment.acknowledgment < connection.sendUnacknowledged ∨
      connection.sendNext < segment.acknowledgment then (none, connection)
  else if segment.sequence ≠ connection.receiveNext then (some (acknowledge connection), connection)
  else
    (some { acknowledge (acceptSegment segment connection) with acceptedPayload := segment.payload.length },
      acceptSegment segment connection)

/-- `tcp_connection_record_segment`. -/
def tcpConnectionRecordSegment (segment : List UInt8) (connection : TcpConnection) :
    Option Unit × TcpConnection :=
  if segment.length = 0 ∨ tcpRetransmitMaxSize < segment.length then (none, connection)
  else
    (some (), { connection with
      retransmissionSegment := segment
      retransmissionRetries := 0
      retransmissionLastTick := 0
      retransmissionPending := true })

/-- The flags that go out: data is acknowledged and pushed, an end acknowledges too. -/
def buildFlags (flags : UInt8) (payload : List UInt8) : UInt8 :=
  let flags := if payload.length ≠ 0 then flags ||| (tcpFlagAck ||| tcpFlagPsh) else flags
  if flagged flags tcpFlagFin then flags ||| tcpFlagAck else flags

/-- The sequence numbers that a segment takes up. -/
def sequenceSpace (flags : UInt8) (payload : List UInt8) : Nat :=
  payload.length + if flagged flags tcpFlagFin then 1 else 0

/-- The state after an end was sent. -/
def closing (flags : UInt8) (state : TcpState) : TcpState :=
  if flagged flags tcpFlagFin then if state = .closeWait then .lastAck else .finWait1 else state

/-- `tcp_connection_build`. -/
def tcpConnectionBuild (source destination : Address) (flags : UInt8) (payload : List UInt8)
    (capacity : Nat) (connection : TcpConnection) : Option (List UInt8) × TcpConnection :=
  if ¬connection.state.carries ∨ flagged flags (tcpFlagSyn ||| tcpFlagRst) ∨
      tcpRetransmitMaxSize - tcpHeaderSize < payload.length then (none, connection)
  else
    let flags := buildFlags flags payload
    let space := sequenceSpace flags payload
    let outstanding := connection.sendNext - connection.sendUnacknowledged
    if connection.peerWindow.toNat < space ∨ connection.peerWindow.toNat - space < outstanding.toNat then
      (none, connection)
    else
      match tcpSegmentBuild capacity source destination connection.localPort connection.remotePort
          connection.sendNext connection.receiveNext flags connection.window payload with
      | none => (none, connection)
      | some packet =>
        let sent : TcpConnection :=
          { connection with sendNext := connection.sendNext + BitVec.ofNat 32 space }
        match tcpConnectionRecordSegment packet sent with
        | (none, failed) => (none, failed)
        | (some (), recorded) =>
          (some packet, { recorded with
            retransmissionSequenceEnd := recorded.sendNext, state := closing flags recorded.state })

/-- `tcp_connection_retransmit_due`. -/
def tcpConnectionRetransmitDue (now timeout capacity : Nat) (connection : TcpConnection) :
    Option (List UInt8) × TcpConnection :=
  if timeout = 0 ∨ connection.retransmissionPending = false ∨
      capacity < connection.retransmissionSegment.length ∨
      tcpRetransmitMaxRetries ≤ connection.retransmissionRetries ∨
      now < connection.retransmissionLastTick ∨ now - connection.retransmissionLastTick < timeout then
    (none, connection)
  else
    (some connection.retransmissionSegment, { connection with
      retransmissionLastTick := now
      retransmissionRetries := connection.retransmissionRetries + 1 })

/-- The calls made on a connection once it is opened. -/
inductive TcpCall
  | receive (segment : TcpSegment)
  | build (source destination : Address) (flags : UInt8) (payload : List UInt8) (capacity : Nat)
  | retransmitDue (now timeout capacity : Nat)

/-- What a call answers: the caller's response, or the packet to send. -/
inductive TcpAnswer
  | failed
  | done
  | response (result : TcpResult)
  | packet (bytes : List UInt8)
  deriving DecidableEq

/-- The answer of a call that produces a packet. -/
def packetAnswer : Option (List UInt8) → TcpAnswer
  | none => .failed
  | some bytes => .packet bytes

/-- The answer of `tcp_connection_receive`. -/
def responseAnswer : Option TcpResult → TcpAnswer
  | none => .failed
  | some result => .response result

def tcpCall (connection : TcpConnection) : TcpCall → TcpAnswer × TcpConnection
  | .receive segment =>
    (tcpConnectionReceive segment connection).map responseAnswer id
  | .build source destination flags payload capacity =>
    (tcpConnectionBuild source destination flags payload capacity connection).map packetAnswer id
  | .retransmitDue now timeout capacity =>
    (tcpConnectionRetransmitDue now timeout capacity connection).map packetAnswer id

/-- The connection after a call. -/
def tcpStep (connection : TcpConnection) (call : TcpCall) : TcpConnection := (tcpCall connection call).2

end KernelBoot.Network
