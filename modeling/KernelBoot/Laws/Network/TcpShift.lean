import KernelBoot.Laws.Network.Tcp
import KernelBoot.Lib.Run

/-!
# Sequence numbers are only compared with each other

Adding a constant to the initial sequence number and to every acknowledgment that is received should
only add it to what the connection sends. The decisions compare sequence numbers as plain numbers, so
this holds as long as neither run wraps around between what is acknowledged and what was sent.
-/

namespace KernelBoot.Network

open Lib

variable {c' : TcpConnection} {sequenceEnd : Sequence} {stored : List UInt8}
variable {c : TcpConnection} {high : Sequence} (segment : TcpSegment)

/-- The calls that an active connection sees; what is recorded is a packet as `tcp_segment_build`
writes it. -/
inductive ActiveCall
  | open (sequence : Sequence) (remotePort : UInt16)
  | record (source destination : Address) (segment : TcpSegment)
  | call (call : TcpCall)

/-- The answer of a call that only succeeds or fails. -/
def doneAnswer : Option Unit → TcpAnswer
  | none => .failed
  | some () => .done

def activeCall (c : TcpConnection) : ActiveCall → TcpAnswer × TcpConnection
  | .open sequence remotePort => (tcpConnectionOpen sequence remotePort c).map doneAnswer id
  | .record source destination segment =>
    (tcpConnectionRecordSegment (packetOf segment source destination) c).map doneAnswer id
  | .call call => tcpCall c call

def activeStep (c : TcpConnection) (call : ActiveCall) : TcpConnection := (activeCall c call).2

/-- The answers of a run. -/
def activeAnswers : TcpConnection → List ActiveCall → List TcpAnswer
  | _, [] => []
  | c, call :: calls => (activeCall c call).1 :: activeAnswers (activeStep c call) calls

section Shift

variable (k : Sequence)

/-- The segment with its own sequence number moved. -/
def TcpSegment.shiftSequence (segment : TcpSegment) : TcpSegment :=
  { segment with sequence := segment.sequence + k }

/-- The segment with the number it acknowledges moved. -/
def TcpSegment.shiftAcknowledgment (segment : TcpSegment) : TcpSegment :=
  { segment with acknowledgment := segment.acknowledgment + k }

/-- The same call in the run whose local sequence numbers are moved. -/
def ActiveCall.shift : ActiveCall → ActiveCall
  | .open sequence remotePort => .open (sequence + k) remotePort
  | .record source destination segment => .record source destination (segment.shiftSequence k)
  | .call (.receive segment) => .call (.receive (segment.shiftAcknowledgment k))
  | .call (.build source destination flags payload capacity) =>
    .call (.build source destination flags payload capacity)
  | .call (.retransmitDue now timeout capacity) => .call (.retransmitDue now timeout capacity)

/-- The same packet with the sequence number moved, or no packet at all. -/
inductive ShiftedPacket : List UInt8 → List UInt8 → Prop
  | none : ShiftedPacket [] []
  | packet (source destination : Address) (segment : TcpSegment) :
    ShiftedPacket (packetOf segment source destination)
      (packetOf (segment.shiftSequence k) source destination)

/-- The same response; one that acknowledges has its sequence number moved, the others have none. -/
def TcpResult.shift (result : TcpResult) : TcpResult :=
  if flagged result.responseFlags tcpFlagAck then
    { result with responseSequence := result.responseSequence + k }
  else result

/-- The same answer, with the local sequence numbers in it moved. -/
inductive ShiftedAnswer : TcpAnswer → TcpAnswer → Prop
  | failed : ShiftedAnswer .failed .failed
  | done : ShiftedAnswer .done .done
  | response (result : TcpResult) : ShiftedAnswer (.response result) (.response (result.shift k))
  | packet {bytes bytes' : List UInt8} (h : ShiftedPacket k bytes bytes') :
    ShiftedAnswer (.packet bytes) (.packet bytes')

/-- The connection with what it sent and what is acknowledged moved. -/
def TcpConnection.shift (sequenceEnd : Sequence) (segment : List UInt8) (c : TcpConnection) :
    TcpConnection :=
  { c with
    sendUnacknowledged := c.sendUnacknowledged + k
    sendNext := c.sendNext + k
    retransmissionSequenceEnd := sequenceEnd
    retransmissionSegment := segment }

/-- The end of the stored segment is moved, unless no segment was built yet. -/
def ShiftedEnd (sequenceEnd sequenceEnd' : Sequence) : Prop :=
  sequenceEnd' = sequenceEnd + k ∨ sequenceEnd = 0 ∧ sequenceEnd' = 0

/-- Two connections in the same state, with the local sequence numbers moved once there are any. -/
inductive ShiftedConnection (c : TcpConnection) : TcpConnection → Prop
  | fresh (segment : List UInt8) (hport : c.remotePort = 0) (hstate : c.state = .closed)
      (hend : c.retransmissionSequenceEnd = 0) (hsegment : ShiftedPacket k c.retransmissionSegment segment) :
    ShiftedConnection c { c with retransmissionSegment := segment }
  | opened (sequenceEnd : Sequence) (segment : List UInt8) (hport : c.remotePort ≠ 0)
      (hstate : c.state ≠ .listen) (hend : ShiftedEnd k c.retransmissionSequenceEnd sequenceEnd)
      (hsegment : ShiftedPacket k c.retransmissionSegment segment) :
    ShiftedConnection c (c.shift k sequenceEnd segment)

end Shift

/-- As plain numbers, what is acknowledged is not past what was sent, and the end of a segment that is
pending lies between. -/
def Unwrapped (c : TcpConnection) : Prop :=
  c.sendUnacknowledged ≤ c.sendNext ∧
    (c.state.carries → c.retransmissionPending = true →
      c.sendUnacknowledged ≤ c.retransmissionSequenceEnd ∧ c.retransmissionSequenceEnd ≤ c.sendNext)

instance (c : TcpConnection) : Decidable (Unwrapped c) := inferInstanceAs (Decidable (_ ∧ _))

/-- No wrap-around when a segment arrives. -/
def ReceivesUnwrapped (c : TcpConnection) : ActiveCall → Prop
  | .call (.receive _) => Unwrapped c
  | _ => True

section Steps

variable {k : Sequence} {c : TcpConnection}

theorem ShiftedPacket.length_eq {bytes bytes' : List UInt8} (h : ShiftedPacket k bytes bytes') :
    bytes'.length = bytes.length := by
  cases h with
  | none => rfl
  | packet source destination segment => rw [length_packetOf, length_packetOf, TcpSegment.shiftSequence]

/-- Two decisions that agree lead to related ends when both ways out are related. -/
theorem ite_related {α β : Type*} {R : α → β → Prop} {p q : Prop} [Decidable p] [Decidable q] {a a' : α}
    {b b' : β} (h : p ↔ q) (hpos : p → R a b) (hneg : ¬p → R a' b') :
    R (if p then a else a') (if q then b else b') := by
  by_cases hp : p
  · rw [if_pos hp, if_pos (h.mp hp)]
    exact hpos hp
  · rw [if_neg hp, if_neg (fun hq => hp (h.mpr hq))]
    exact hneg hp

/-- What the moved connection answers, and where it goes. -/
private def Follows (k sequenceEnd : Sequence) (segment : List UInt8)
    (p q : Option TcpResult × TcpConnection) : Prop :=
  q = (p.1.map (TcpResult.shift k), p.2.shift k sequenceEnd segment)

private theorem follows_some {result result' : TcpResult} (hresult : result' = result.shift k)
    (hc : c' = c.shift k sequenceEnd stored) :
    Follows k sequenceEnd stored (some result, c) (some result', c') := by
  rw [hresult, hc]
  rfl

private theorem follows_ite {p q : Prop} [Decidable p] [Decidable q]
    {a a' b b' : Option TcpResult × TcpConnection} (h : p ↔ q) (hpos : p → Follows k sequenceEnd stored a b)
    (hneg : ¬p → Follows k sequenceEnd stored a' b') :
    Follows k sequenceEnd stored (if p then a else a') (if q then b else b') :=
  ite_related (R := Follows k sequenceEnd stored) h hpos hneg

theorem acknowledge_payload_shift (hnext : c'.sendNext = c.sendNext + k)
    (hreceive : c'.receiveNext = c.receiveNext) (size : Nat) :
    { acknowledge c' with acceptedPayload := size } =
      TcpResult.shift k { acknowledge c with acceptedPayload := size } := by
  have hack : flagged (acknowledge c).responseFlags tcpFlagAck := by
    change flagged tcpFlagAck tcpFlagAck
    decide
  rw [TcpResult.shift, if_pos hack, acknowledge, hnext, hreceive]
  rfl

theorem acknowledge_shift (hnext : c'.sendNext = c.sendNext + k)
    (hreceive : c'.receiveNext = c.receiveNext) : acknowledge c' = (acknowledge c).shift k :=
  acknowledge_payload_shift hnext hreceive 0

/-- Between bounds that do not wrap around, in one run and in the other, order survives the shift. -/
theorem shift_le_iff {low a b : Sequence} (hlow : low ≤ high) (hlow' : low + k ≤ high + k)
    (ha : low ≤ a ∧ a ≤ high) (hb : low ≤ b ∧ b ≤ high) : a + k ≤ b + k ↔ a ≤ b := by
  bv_omega

/-- The segments whose acknowledgment is in range. -/
theorem shift_range_iff {low a : Sequence} (hlow : low ≤ high) (hlow' : low + k ≤ high + k) :
    (a + k < low + k ∨ high + k < a + k) ↔ (a < low ∨ high < a) := by
  bv_omega

theorem acceptSegment_shift {segment : TcpSegment} (hpending : c.retransmissionPending = true →
      (segment.acknowledgment + k < sequenceEnd ↔ segment.acknowledgment < c.retransmissionSequenceEnd)) :
    acceptSegment (segment.shiftAcknowledgment k) (c.shift k sequenceEnd stored) =
      (acceptSegment segment c).shift k sequenceEnd stored := by
  have hflag : (c.retransmissionPending && decide (segment.acknowledgment + k < sequenceEnd)) =
      (c.retransmissionPending && decide (segment.acknowledgment < c.retransmissionSequenceEnd)) := by
    cases hp : c.retransmissionPending with
    | false => rfl
    | true => rw [decide_eq_decide.mpr (hpending hp)]
  exact congrArg (fun pending =>
    { (acceptSegment segment c).shift k sequenceEnd stored with retransmissionPending := pending }) hflag

theorem receive_shift (hstate : c.state ≠ .listen)
    (hend : ShiftedEnd k c.retransmissionSequenceEnd sequenceEnd) (hordered : Unwrapped c)
    (hordered' : Unwrapped (c.shift k sequenceEnd stored)) :
    tcpConnectionReceive (segment.shiftAcknowledgment k) (c.shift k sequenceEnd stored) =
      ((tcpConnectionReceive segment c).1.map (TcpResult.shift k),
        (tcpConnectionReceive segment c).2.shift k sequenceEnd stored) := by
  have hall : acknowledgesAll segment c ↔
      acknowledgesAll (segment.shiftAcknowledgment k) (c.shift k sequenceEnd stored) :=
    and_congr_right fun _ => (add_left_inj k).symm
  obtain ⟨hlow, hpending⟩ := hordered
  obtain ⟨hlow', hpending'⟩ := hordered'
  change c.sendUnacknowledged + k ≤ c.sendNext + k at hlow'
  refine follows_ite Iff.rfl (fun _ => rfl) fun _ => ?_
  refine follows_ite Iff.rfl (fun _ => rfl) fun _ => ?_
  refine follows_ite Iff.rfl (fun h => absurd h.1 hstate) fun _ => ?_
  refine follows_ite ?_ (fun h => ?_) fun _ => ?_
  · exact and_congr_right fun _ => and_congr_right fun _ => (add_left_inj k).symm
  · -- what is acknowledged is all that was sent, which is not below what was acknowledged before
    have hacknowledgment := h.2.2
    refine follows_ite ?_ (fun _ => rfl) fun _ => ?_
    · change segment.acknowledgment < c.sendUnacknowledged ↔
        segment.acknowledgment + k < c.sendUnacknowledged + k
      rw [hacknowledgment]
      bv_omega
    · exact follows_some (acknowledge_shift rfl rfl) rfl
  refine follows_ite Iff.rfl (fun _ => ?_) fun _ => ?_
  · have hack : flagged (tcpFlagSyn ||| tcpFlagAck) tcpFlagAck := by decide
    exact follows_some (if_pos hack).symm rfl
  refine follows_ite (and_congr_right fun _ => hall) (fun _ => rfl) fun _ => ?_
  refine follows_ite (and_congr_right fun _ => hall) (fun _ => rfl) fun _ => ?_
  refine follows_ite Iff.rfl (fun _ => ?_) fun _ => ?_
  · exact follows_some (acknowledge_shift rfl rfl) rfl
  refine follows_ite (and_congr_right fun _ => hall) (fun _ => rfl) fun _ => ?_
  refine follows_ite Iff.rfl (fun _ => rfl) fun hcarries => ?_
  refine follows_ite ?_ (fun _ => rfl) fun hrange => ?_
  · exact or_congr_right (shift_range_iff hlow hlow').symm
  refine follows_ite Iff.rfl (fun _ => ?_) fun _ => ?_
  · exact follows_some (acknowledge_shift rfl rfl) rfl
  simp only [not_or, not_not, BitVec.not_lt] at hcarries hrange
  have haccept : acceptSegment (segment.shiftAcknowledgment k) (c.shift k sequenceEnd stored) =
      (acceptSegment segment c).shift k sequenceEnd stored := by
    refine acceptSegment_shift fun hp => ?_
    have hbounds := hpending hcarries hp
    have hbounds' : c.sendUnacknowledged + k ≤ sequenceEnd ∧ sequenceEnd ≤ c.sendNext + k :=
      hpending' hcarries hp
    have hmoved : sequenceEnd = c.retransmissionSequenceEnd + k := by
      rcases hend with hmoved | ⟨hzero, hzero'⟩
      · exact hmoved
      · bv_omega
    rw [hmoved, ← BitVec.not_le, ← BitVec.not_le, not_iff_not]
    exact shift_le_iff hlow hlow' hbounds hrange.2
  refine follows_some ?_ haccept
  rw [haccept]
  have hnext : ((acceptSegment segment c).shift k sequenceEnd stored).sendNext =
      (acceptSegment segment c).sendNext + k := rfl
  exact acknowledge_payload_shift hnext rfl segment.payload.length

/-- A closed connection only hears a reset. -/
theorem receive_closed (hstate : c.state = .closed) : tcpConnectionReceive segment c =
      if addressed segment c ∧ flagged segment.flags tcpFlagRst then
        (some { responseFlags := tcpFlagRst }, c)
      else (none, c) := by
  have hreset : { c with state := .closed } = c := by rw [← hstate]
  rw [tcpConnectionReceive]
  by_cases haddressed : addressed segment c
  · by_cases hrst : flagged segment.flags tcpFlagRst
    · rw [if_neg (not_not.mpr haddressed), if_pos hrst, if_pos ⟨haddressed, hrst⟩, hreset]
    · have hquiet : ¬(addressed segment c ∧ flagged segment.flags tcpFlagRst) := fun h => hrst h.2
      rw [if_neg (not_not.mpr haddressed), if_neg hrst, if_neg hquiet]
      simp only [hstate, reduceCtorEq, false_and, if_false]
      rw [if_pos (by decide)]
  · have hquiet : ¬(addressed segment c ∧ flagged segment.flags tcpFlagRst) := fun h => haddressed h.1
    rw [if_pos haddressed, if_neg hquiet]

/-- The calls of one run and of the moved run have related answers and lead to related connections. -/
def StepShifted (k : Sequence) (p q : TcpAnswer × TcpConnection) : Prop :=
  ShiftedAnswer k p.1 q.1 ∧ ShiftedConnection k p.2 q.2

theorem shifted_response (result : Option TcpResult) :
    ShiftedAnswer k (responseAnswer result) (responseAnswer (result.map (TcpResult.shift k))) := by
  cases result with
  | none => exact .failed
  | some result => exact .response result

theorem ShiftedConnection.same (h : ShiftedConnection k c c') :
    c'.state = c.state ∧ c'.localPort = c.localPort ∧ c'.remotePort = c.remotePort ∧
      c'.retransmissionPending = c.retransmissionPending ∧
      c'.retransmissionRetries = c.retransmissionRetries ∧
      c'.retransmissionLastTick = c.retransmissionLastTick ∧
      ShiftedPacket k c.retransmissionSegment c'.retransmissionSegment := by
  cases h with
  | fresh segment _ _ _ hsegment | opened sequenceEnd segment _ _ _ hsegment =>
    exact ⟨rfl, rfl, rfl, rfl, rfl, rfl, hsegment⟩

theorem shifted_receive (h : ShiftedConnection k c c') (segment : TcpSegment)
    (hordered : Unwrapped c) (hordered' : Unwrapped c') :
    StepShifted k (tcpCall c (.receive segment)) (tcpCall c' (.receive (segment.shiftAcknowledgment k))) := by
  cases h with
  | fresh stored hport hstate hend hsegment =>
    have hfresh := ShiftedConnection.fresh stored hport hstate hend hsegment
    change StepShifted k ((tcpConnectionReceive segment c).map responseAnswer id)
      ((tcpConnectionReceive (segment.shiftAcknowledgment k)
        { c with retransmissionSegment := stored }).map responseAnswer id)
    have hstate' : { c with retransmissionSegment := stored }.state = .closed := hstate
    rw [receive_closed segment hstate, receive_closed _ hstate', apply_ite (Prod.map responseAnswer id),
      apply_ite (Prod.map responseAnswer id)]
    refine ite_related (R := StepShifted k) Iff.rfl (fun _ => ⟨?_, hfresh⟩) fun _ => ⟨.failed, hfresh⟩
    have hsame : TcpResult.shift k { responseFlags := tcpFlagRst } = { responseFlags := tcpFlagRst } :=
      if_neg (by decide)
    have hresponse : ShiftedAnswer k _ _ := .response { responseFlags := tcpFlagRst }
    rw [hsame] at hresponse
    exact hresponse
  | opened sequenceEnd stored hport hstate hend hsegment =>
    obtain ⟨hremote, hlisten, hsame, hbuffer⟩ := received_kept hstate (received segment c)
    change StepShifted k ((tcpConnectionReceive segment c).map responseAnswer id)
      ((tcpConnectionReceive (segment.shiftAcknowledgment k)
        (c.shift k sequenceEnd stored)).map responseAnswer id)
    rw [receive_shift segment hstate hend hordered hordered']
    refine ⟨shifted_response _, .opened sequenceEnd stored ?_ hlisten ?_ ?_⟩
    · exact hremote ▸ hport
    · exact hsame ▸ hend
    · exact hbuffer ▸ hsegment

theorem admitted_shift_iff {flags : UInt8} {payload : List UInt8} {capacity : Nat} :
    Admitted flags payload capacity (c.shift k sequenceEnd stored) ↔ Admitted flags payload capacity c := by
  have hsame : c.sendNext + k - (c.sendUnacknowledged + k) = c.sendNext - c.sendUnacknowledged :=
    add_sub_add_right_eq_sub _ _ _
  constructor
  · rintro ⟨hcarries, hsyn, hwindow, hports, hshort, hroom⟩
    exact ⟨hcarries, hsyn, hsame ▸ hwindow, hports, hshort, hroom⟩
  · rintro ⟨hcarries, hsyn, hwindow, hports, hshort, hroom⟩
    exact ⟨hcarries, hsyn, hsame.symm ▸ hwindow, hports, hshort, hroom⟩

section

variable (h : ShiftedConnection k c c')

include h

theorem shifted_build (source destination : Address) (flags : UInt8)
    (payload : List UInt8) (capacity : Nat) :
    StepShifted k (tcpCall c (.build source destination flags payload capacity))
      (tcpCall c' (.build source destination flags payload capacity)) := by
  have hunchanged : ¬Admitted flags payload capacity c → ¬Admitted flags payload capacity c' →
      StepShifted k (tcpCall c (.build source destination flags payload capacity))
        (tcpCall c' (.build source destination flags payload capacity)) := by
    intro hrefused hrefused'
    rw [tcpCall, tcpCall, tcpConnectionBuild_of_not_admitted hrefused,
      tcpConnectionBuild_of_not_admitted hrefused']
    exact ⟨.failed, h⟩
  cases h with
  | fresh stored hport hstate =>
    have hcarries : ¬c.state.carries := by
      rw [hstate]
      decide
    exact hunchanged (fun h => hcarries h.carries) fun h => hcarries h.carries
  | opened sequenceEnd stored hport hstate hend hsegment =>
    by_cases hadmitted : Admitted flags payload capacity c
    · rw [tcpCall, tcpCall, tcpConnectionBuild_of_admitted hadmitted,
        tcpConnectionBuild_of_admitted (admitted_shift_iff.mpr hadmitted)]
      have hpacket : ShiftedPacket k (packetOf (builtSegment flags payload c) source destination)
          (packetOf (builtSegment flags payload (c.shift k sequenceEnd stored)) source destination) :=
        .packet source destination (builtSegment flags payload c)
      have hnext : c.sendNext + k + BitVec.ofNat 32 (sequenceSpace flags payload) =
          c.sendNext + BitVec.ofNat 32 (sequenceSpace flags payload) + k := add_right_comm _ _ _
      have hbuilt : built source destination flags payload (c.shift k sequenceEnd stored) =
          (built source destination flags payload c).shift k
            (c.sendNext + BitVec.ofNat 32 (sequenceSpace flags payload) + k)
            (packetOf (builtSegment flags payload (c.shift k sequenceEnd stored)) source destination) := by
        rw [TcpConnection.shift, built, TcpConnection.shift, hnext]
        rfl
      refine ⟨.packet hpacket, ?_⟩
      change ShiftedConnection k (built source destination flags payload c)
        (built source destination flags payload (c.shift k sequenceEnd stored))
      rw [hbuilt]
      exact .opened _ _ hport (closing_ne_listen hstate) (.inl rfl) hpacket
    · exact hunchanged hadmitted fun h => hadmitted (admitted_shift_iff.mp h)

theorem shifted_retransmitDue (now timeout capacity : Nat) :
    StepShifted k (tcpCall c (.retransmitDue now timeout capacity))
      (tcpCall c' (.retransmitDue now timeout capacity)) := by
  obtain ⟨-, -, -, hpending, hretries, htick, hsegment⟩ := h.same
  rw [tcpCall, tcpCall, tcpConnectionRetransmitDue, tcpConnectionRetransmitDue,
    apply_ite (Prod.map packetAnswer id), apply_ite (Prod.map packetAnswer id)]
  refine ite_related (R := StepShifted k) ?_ (fun _ => ⟨.failed, h⟩) fun _ => ⟨.packet hsegment, ?_⟩
  · rw [hpending, hsegment.length_eq, hretries, htick]
  · cases h with
    | fresh stored hport hstate hend => exact .fresh stored hport hstate hend hsegment
    | opened sequenceEnd stored hport hstate hend => exact .opened sequenceEnd stored hport hstate hend hsegment

theorem shifted_open (sequence : Sequence) (remotePort : UInt16) :
    StepShifted k (activeCall c (.open sequence remotePort)) (activeCall c' (.open (sequence + k) remotePort)) := by
  obtain ⟨hstate, hlocal, -⟩ := h.same
  rw [activeCall, activeCall, tcpConnectionOpen, tcpConnectionOpen, apply_ite (Prod.map doneAnswer id),
    apply_ite (Prod.map doneAnswer id)]
  refine ite_related (R := StepShifted k) ?_ (fun _ => ⟨.failed, h⟩) fun hopen => ⟨.done, ?_⟩
  · rw [hstate, hlocal]
  · have hport : remotePort ≠ 0 := fun hzero => hopen (.inr (.inl hzero))
    have hnext : sequence + k + 1 = sequence + 1 + k := add_right_comm _ _ _
    rw [hnext]
    cases h with
    | fresh stored _ _ hend hsegment => exact .opened _ stored hport nofun (.inr ⟨hend, hend⟩) hsegment
    | opened sequenceEnd stored _ _ hend hsegment => exact .opened sequenceEnd stored hport nofun hend hsegment

theorem shifted_record (source destination : Address)
    (segment : TcpSegment) : StepShifted k (activeCall c (.record source destination segment))
      (activeCall c' (.record source destination (segment.shiftSequence k))) := by
  have hpacket : ShiftedPacket k (packetOf segment source destination)
      (packetOf (segment.shiftSequence k) source destination) := .packet source destination segment
  rw [activeCall, activeCall, tcpConnectionRecordSegment, tcpConnectionRecordSegment,
    apply_ite (Prod.map doneAnswer id), apply_ite (Prod.map doneAnswer id)]
  refine ite_related (R := StepShifted k) ?_ (fun _ => ⟨.failed, h⟩) fun _ => ⟨.done, ?_⟩
  · rw [hpacket.length_eq]
  · cases h with
    | fresh _ hport hstate hend => exact .fresh _ hport hstate hend hpacket
    | opened sequenceEnd _ hport hstate hend => exact .opened sequenceEnd _ hport hstate hend hpacket

theorem shifted_step (call : ActiveCall)
    (hordered : ReceivesUnwrapped c call) (hordered' : ReceivesUnwrapped c' (call.shift k)) :
    StepShifted k (activeCall c call) (activeCall c' (call.shift k)) := by
  cases call with
  | «open» sequence remotePort => exact shifted_open h sequence remotePort
  | record source destination segment => exact shifted_record h source destination segment
  | call call =>
    cases call with
    | receive segment => exact shifted_receive h segment hordered hordered'
    | build source destination flags payload capacity =>
      exact shifted_build h source destination flags payload capacity
    | retransmitDue now timeout capacity => exact shifted_retransmitDue h now timeout capacity

end

end Steps

section Runs

variable {k : Sequence}

theorem shifted_run (h : ShiftedConnection k c c') (calls : List ActiveCall)
    (hordered : Each activeStep ReceivesUnwrapped c calls)
    (hordered' : Each activeStep ReceivesUnwrapped c' (calls.map (ActiveCall.shift k))) :
    List.Forall₂ (ShiftedAnswer k) (activeAnswers c calls)
        (activeAnswers c' (calls.map (ActiveCall.shift k))) ∧
      ShiftedConnection k (run activeStep c calls) (run activeStep c' (calls.map (ActiveCall.shift k))) := by
  induction calls generalizing c c' with
  | nil => exact ⟨.nil, h⟩
  | cons call calls ih =>
    obtain ⟨hanswer, hnext⟩ := shifted_step h call hordered.1 hordered'.1
    obtain ⟨hanswers, hlast⟩ := ih hnext hordered.2 hordered'.2
    exact ⟨.cons hanswer hanswers, hlast⟩

/-- From a new connection on, when neither run wraps around while a segment arrives, the moved run
decides and answers as the other does, with the local sequence numbers moved. -/
theorem answers_shift (k : Sequence) (localPort window : UInt16) (calls : List ActiveCall)
    (hordered : Each activeStep ReceivesUnwrapped (tcpConnectionInitialize localPort window) calls)
    (hordered' : Each activeStep ReceivesUnwrapped (tcpConnectionInitialize localPort window)
      (calls.map (ActiveCall.shift k))) :
    List.Forall₂ (ShiftedAnswer k) (activeAnswers (tcpConnectionInitialize localPort window) calls)
        (activeAnswers (tcpConnectionInitialize localPort window) (calls.map (ActiveCall.shift k))) ∧
      ShiftedConnection k (run activeStep (tcpConnectionInitialize localPort window) calls)
        (run activeStep (tcpConnectionInitialize localPort window) (calls.map (ActiveCall.shift k))) :=
  shifted_run (.fresh [] rfl rfl rfl .none) calls hordered hordered'

/-- The answer of a peer to a `SYN` with a sequence number. -/
def synAckFor (sequence : Sequence) : TcpSegment where
  sourcePort := 80
  destinationPort := 1000
  sequence := 40
  acknowledgment := sequence + 1
  flags := tcpFlagSyn ||| tcpFlagAck
  window := 500
  payload := []

/-- A connection is opened, the peer answers, and a byte is sent. -/
def sampleCalls : List ActiveCall :=
  [.open 7 80, .call (.receive (synAckFor 7)), .call (.build (sampleHost 1) (sampleHost 2) 0 [65] 1500)]

theorem answers_shift_sample :
    List.Forall₂ (ShiftedAnswer 5) (activeAnswers (tcpConnectionInitialize 1000 500) sampleCalls)
        (activeAnswers (tcpConnectionInitialize 1000 500) (sampleCalls.map (ActiveCall.shift 5))) ∧
      ShiftedConnection 5 (run activeStep (tcpConnectionInitialize 1000 500) sampleCalls)
        (run activeStep (tcpConnectionInitialize 1000 500) (sampleCalls.map (ActiveCall.shift 5))) := by
  refine answers_shift 5 1000 500 sampleCalls ⟨trivial, ?_, trivial, trivial⟩ ⟨trivial, ?_, trivial, trivial⟩
  · change Unwrapped _
    decide +kernel
  · change Unwrapped _
    decide +kernel

/-- A connection opened at sequence number zero is established by its peer's answer; opened at the last
sequence number, it refuses the same answer, because the number after it is zero. -/
theorem wrapped_answer_refused :
    ¬(List.Forall₂ (ShiftedAnswer 0xffffffff)
        (activeAnswers (tcpConnectionInitialize 1000 500) [.open 0 80, .call (.receive (synAckFor 0))])
        (activeAnswers (tcpConnectionInitialize 1000 500)
          ([.open 0 80, .call (.receive (synAckFor 0))].map (ActiveCall.shift 0xffffffff))) ∧
      ShiftedConnection 0xffffffff
        (run activeStep (tcpConnectionInitialize 1000 500) [.open 0 80, .call (.receive (synAckFor 0))])
        (run activeStep (tcpConnectionInitialize 1000 500)
          ([.open 0 80, .call (.receive (synAckFor 0))].map (ActiveCall.shift 0xffffffff)))) := by
  rintro ⟨-, h⟩
  have hstate := h.same.1
  revert hstate
  decide +kernel

end Runs

end KernelBoot.Network
