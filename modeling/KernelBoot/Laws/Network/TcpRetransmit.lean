import KernelBoot.Laws.Network.Tcp
import KernelBoot.Lib.Run

/-!
# What can be sent again

A connection keeps one segment for retransmission. While something is unacknowledged, that segment
should carry the oldest such byte. Every segment that is built overwrites the buffer, so this holds as
long as nothing is built while an older segment is outstanding; and the answer to a `SYN` takes a
sequence number without being stored.
-/

namespace KernelBoot.Network

open Lib

variable {c' : TcpConnection} {result : Option TcpResult}

/-- The sequence numbers a segment takes up. -/
def TcpSegment.space (segment : TcpSegment) : Nat :=
  segment.payload.length + (if flagged segment.flags tcpFlagSyn then 1 else 0) + segment.finLength

/-- The stored segment parses, under some addresses, as this one. -/
def Stores (c : TcpConnection) (segment : TcpSegment) : Prop :=
  ∃ source destination, tcpSegmentParse c.retransmissionSegment source destination = some segment

/-- Whenever something is unacknowledged, a segment is pending that starts at or before the oldest
unacknowledged byte and carries it. -/
def CanRetransmit (c : TcpConnection) : Prop :=
  c.sendUnacknowledged ≠ c.sendNext →
    c.retransmissionPending = true ∧ ∃ segment, Stores c segment ∧
      (c.sendUnacknowledged - segment.sequence).toNat < segment.space

/-- A connection as `tcp_endpoint_listen` and `tcp_endpoint_connect` leave it. -/
inductive Started : TcpConnection → Prop
  | listening (localPort window : UInt16) :
    Started (tcpConnectionListen (tcpConnectionInitialize localPort window)).2
  | connecting {capacity : Nat} {source destination : Address} {localPort remotePort window : UInt16}
      {sequence : Sequence} {packet : List UInt8}
      (h : tcpSegmentBuild capacity source destination localPort remotePort sequence 0 tcpFlagSyn window [] =
        some packet) :
    Started (tcpConnectionRecordSegment packet
      (tcpConnectionOpen sequence remotePort (tcpConnectionInitialize localPort window)).2).2

/-- No `SYN` opens the connection, and nothing is sent while something is outstanding. -/
def KeepsStored (c : TcpConnection) : TcpCall → Prop
  | .receive segment => ¬OpensPassively segment c
  | .build _ _ flags payload capacity =>
    Admitted flags payload capacity c → c.sendUnacknowledged = c.sendNext
  | .retransmitDue _ _ _ => True

/-- What holds of the buffer whatever is called: a pending segment ends where the next one starts. -/
structure BufferOk (c : TcpConnection) : Prop where
  ends : c.retransmissionPending = true → ∃ segment, Stores c segment ∧
    segment.sequence + BitVec.ofNat 32 segment.space = c.sendNext ∧ segment.space < 2 ^ 16
  sequenceEnd : c.retransmissionPending = true → c.state.carries → c.retransmissionSequenceEnd = c.sendNext
  listen : c.state = .listen → c.retransmissionPending = false

/-- The addresses only decide whether a packet parses, not as what. -/
theorem Stores.unique {c : TcpConnection} {a b : TcpSegment} (ha : Stores c a) (hb : Stores c b) : a = b := by
  obtain ⟨source, destination, ha⟩ := ha
  obtain ⟨source', destination', hb⟩ := hb
  rw [tcpSegmentParse] at ha hb
  split_ifs at ha hb
  dsimp only at ha hb
  split_ifs at ha hb
  rw [← Option.some.inj ha, ← Option.some.inj hb]

section Built

variable {source destination : Address} {flags : UInt8} {payload : List UInt8} {capacity : Nat}
  {c : TcpConnection}

section

variable (h : Admitted flags payload capacity c)

include h

theorem stores_built :
    Stores (built source destination flags payload c) (builtSegment flags payload c) :=
  ⟨source, destination, tcpSegmentParse_packetOf h.buildable.sourcePort_ne h.buildable.destinationPort_ne
    h.buildable.not_synFin rfl⟩

theorem space_builtSegment :
    (builtSegment flags payload c).space = sequenceSpace flags payload := by
  have hsyn : ¬flagged (buildFlags flags payload) tcpFlagSyn := by
    rw [flagged_buildFlags (by decide) (by decide)]
    exact fun hflag => h.no_syn (flagged_mono (by decide) hflag)
  simp only [TcpSegment.space, TcpSegment.finLength, builtSegment, hsyn, flagged_buildFlags_fin,
    sequenceSpace, if_false, Nat.add_zero]

theorem Admitted.space_lt :
    sequenceSpace flags payload + (c.sendNext - c.sendUnacknowledged).toNat < 2 ^ 16 :=
  lt_of_le_of_lt h.window c.peerWindow.toNat_lt

theorem bufferOk_built :
    BufferOk (built source destination flags payload c) where
  ends _ := by
    have hspace := h.space_lt
    refine ⟨_, stores_built h, ?_, ?_⟩
    · rw [space_builtSegment h]
      rfl
    · rw [space_builtSegment h]
      omega
  sequenceEnd _ _ := rfl
  listen hlisten := absurd hlisten (closing_ne_listen h.carries.ne_listen)

/-- After a segment was built, the oldest unacknowledged byte can be sent again exactly when nothing was
outstanding before. -/
theorem canRetransmit_built :
    CanRetransmit (built source destination flags payload c) ↔ c.sendUnacknowledged = c.sendNext := by
  have hspace := h.space_lt
  constructor
  · intro hcan
    by_contra hne
    have hnext : (built source destination flags payload c).sendUnacknowledged ≠
        (built source destination flags payload c).sendNext := by
      change c.sendUnacknowledged ≠ c.sendNext + BitVec.ofNat 32 (sequenceSpace flags payload)
      bv_omega
    obtain ⟨-, segment, hstores, hcovers⟩ := hcan hnext
    rw [hstores.unique (stores_built h), space_builtSegment h] at hcovers
    change (c.sendUnacknowledged - c.sendNext).toNat < _ at hcovers
    bv_omega
  · intro heq hne
    refine ⟨rfl, _, stores_built h, ?_⟩
    rw [space_builtSegment h]
    change c.sendUnacknowledged ≠ c.sendNext + BitVec.ofNat 32 (sequenceSpace flags payload) at hne
    change (c.sendUnacknowledged - c.sendNext).toNat < _
    bv_omega

end

end Built

section Receive

variable {segment : TcpSegment} {c : TcpConnection}

/-- The buffer is not touched. -/
theorem BufferOk.of_same (h : BufferOk c)
    (hsegment : c'.retransmissionSegment = c.retransmissionSegment)
    (hnext : c'.sendNext = c.sendNext)
    (hend : c'.retransmissionSequenceEnd = c.retransmissionSequenceEnd)
    (hpending : c'.retransmissionPending = true → c.retransmissionPending = true)
    (hcarries : c'.retransmissionPending = true → c'.state.carries → c.state.carries)
    (hlisten : c'.state = .listen → c.state = .listen) : BufferOk c' where
  ends hp := by
    obtain ⟨stored, ⟨source, destination, hparse⟩, hends⟩ := h.ends (hpending hp)
    refine ⟨stored, ⟨source, destination, ?_⟩, ?_⟩
    · rw [hsegment, hparse]
    · rw [hnext]
      exact hends
  sequenceEnd hp hc := by
    rw [hend, hnext]
    exact h.sequenceEnd (hpending hp) (hcarries hp hc)
  listen hl := by
    have hnone := h.listen (hlisten hl)
    by_contra hp
    rw [Bool.not_eq_false] at hp
    rw [hpending hp] at hnone
    exact nomatch hnone

theorem bufferOk_received (h : BufferOk c) (hreceived : Received segment c result c') :
    BufferOk c' := by
  cases hreceived with
  | refused => exact h
  | reset | ended | closed =>
    exact h.of_same rfl rfl rfl id (fun _ hc => absurd hc (not_carries_of_eq nofun nofun)) nofun
  | opened heard hstate hsyn =>
    have hpending := h.listen hstate
    exact ⟨fun hp => absurd (hpending.symm.trans hp) nofun, fun hp => absurd (hpending.symm.trans hp) nofun,
      nofun⟩
  | answered | completed | halfClosed => exact h.of_same rfl rfl rfl nofun nofun nofun
  | repeated => exact h
  | outOfOrder => exact h
  | accepted haccepts =>
    exact h.of_same rfl rfl rfl (fun hp => (Bool.and_eq_true_iff.mp hp).1) (fun _ _ => haccepts.carries)
      fun hl => absurd hl (acceptSegment_carries haccepts.carries).ne_listen

/-- Nothing is outstanding. -/
theorem canRetransmit_of_eq (h : c.sendUnacknowledged = c.sendNext) : CanRetransmit c :=
  fun hne => absurd h hne

theorem canRetransmit_accepted (hok : BufferOk c) (hcan : CanRetransmit c) (haccepts : Accepts segment c) :
    CanRetransmit (acceptSegment segment c) := by
  intro hne
  have hlower := haccepts.lower
  have hupper := haccepts.upper
  change segment.acknowledgment ≠ c.sendNext at hne
  have hopen : c.sendUnacknowledged ≠ c.sendNext := by
    intro heq
    bv_omega
  obtain ⟨hpending, stored, hstores, hcovers⟩ := hcan hopen
  obtain ⟨stored', hstores', hends, hspace⟩ := hok.ends hpending
  rw [hstores'.unique hstores] at hends hspace
  refine ⟨?_, stored, hstores, ?_⟩
  · have hbefore : segment.acknowledgment < c.retransmissionSequenceEnd := by
      rw [hok.sequenceEnd hpending haccepts.carries]
      bv_omega
    exact Bool.and_eq_true_iff.mpr ⟨hpending, decide_eq_true hbefore⟩
  · change (segment.acknowledgment - stored.sequence).toNat < stored.space
    bv_omega

theorem canRetransmit_received (hok : BufferOk c) (hcan : CanRetransmit c)
    (hreceived : Received segment c result c') : CanRetransmit c' ↔ ¬OpensPassively segment c := by
  have notListen : c.state ≠ .listen → ¬OpensPassively segment c := fun hstate h => hstate h.2.2.1
  cases hreceived with
  | refused h => exact iff_of_true hcan h
  | reset haddressed hreset => exact iff_of_true hcan fun h => h.2.1 hreset
  | opened heard hstate hsyn =>
    refine iff_of_false (fun h => ?_) fun h => h ⟨heard.addressed, heard.no_reset, hstate, hsyn⟩
    have hpending := (h (by decide : (0 : Sequence) ≠ 1)).1
    exact nomatch (hok.listen hstate).symm.trans hpending
  | answered heard hstate =>
    exact iff_of_true (canRetransmit_of_eq rfl) (notListen (hstate ▸ nofun))
  | repeated heard hstate => exact iff_of_true hcan (notListen (hstate ▸ nofun))
  | completed heard hstate | halfClosed heard hstate | closed heard hstate =>
    exact iff_of_true (canRetransmit_of_eq rfl) (notListen (hstate ▸ nofun))
  | ended hends => exact iff_of_true hcan (notListen (hends.state ▸ nofun))
  | outOfOrder heard hstate => exact iff_of_true hcan (notListen hstate.ne_listen)
  | accepted haccepts =>
    exact iff_of_true (canRetransmit_accepted hok hcan haccepts) (notListen haccepts.carries.ne_listen)

end Receive

section Runs

variable {source destination : Address} {flags : UInt8} {payload : List UInt8} {capacity : Nat}
  {c : TcpConnection}

theorem tcpStep_of_admitted (h : Admitted flags payload capacity c) :
    tcpStep c (.build source destination flags payload capacity) = built source destination flags payload c :=
  congrArg Prod.snd (tcpConnectionBuild_of_admitted h)

theorem tcpStep_of_not_admitted (h : ¬Admitted flags payload capacity c) :
    tcpStep c (.build source destination flags payload capacity) = c :=
  congrArg Prod.snd (tcpConnectionBuild_of_not_admitted h)

/-- `tcp_connection_retransmit_due` counts and dates, and leaves the rest. -/
theorem tcpStep_retransmitDue (now timeout capacity : Nat) (c : TcpConnection) :
    ∃ tick retries, tcpStep c (.retransmitDue now timeout capacity) =
      { c with retransmissionLastTick := tick, retransmissionRetries := retries } := by
  change ∃ tick retries, (tcpConnectionRetransmitDue now timeout capacity c).2 =
    { c with retransmissionLastTick := tick, retransmissionRetries := retries }
  rw [tcpConnectionRetransmitDue]
  split_ifs
  · exact ⟨_, _, rfl⟩
  · exact ⟨_, _, rfl⟩

theorem bufferOk_step (c : TcpConnection) (call : TcpCall) (h : BufferOk c) : BufferOk (tcpStep c call) := by
  cases call with
  | receive segment => exact bufferOk_received h (received segment c)
  | build source destination flags payload capacity =>
    by_cases hadmitted : Admitted flags payload capacity c
    · rw [tcpStep_of_admitted hadmitted]
      exact bufferOk_built hadmitted
    · rw [tcpStep_of_not_admitted hadmitted]
      exact h
  | retransmitDue now timeout capacity =>
    obtain ⟨tick, retries, hstep⟩ := tcpStep_retransmitDue now timeout capacity c
    rw [hstep]
    exact h.of_same rfl rfl rfl id (fun _ hc => hc) id

theorem canRetransmit_step (c : TcpConnection) (call : TcpCall) (hok : BufferOk c) (hcan : CanRetransmit c) :
    CanRetransmit (tcpStep c call) ↔ KeepsStored c call := by
  cases call with
  | receive segment => exact canRetransmit_received hok hcan (received segment c)
  | build source destination flags payload capacity =>
    by_cases hadmitted : Admitted flags payload capacity c
    · rw [tcpStep_of_admitted hadmitted, canRetransmit_built hadmitted]
      exact ⟨fun h _ => h, fun h => h hadmitted⟩
    · rw [tcpStep_of_not_admitted hadmitted]
      exact iff_of_true hcan fun h => absurd h hadmitted
  | retransmitDue now timeout capacity =>
    obtain ⟨tick, retries, hstep⟩ := tcpStep_retransmitDue now timeout capacity c
    rw [hstep]
    exact iff_of_true hcan trivial

theorem space_syn {segment : TcpSegment} (hflags : segment.flags = tcpFlagSyn)
    (hpayload : segment.payload = []) : segment.space = 1 := by
  rw [TcpSegment.space, TcpSegment.finLength, hflags, hpayload]
  decide

/-- The connection that `tcp_endpoint_connect` leaves: the `SYN` is stored. -/
theorem ok_connecting {capacity : Nat} {localPort remotePort window : UInt16} {sequence : Sequence}
    {packet : List UInt8}
    (h : tcpSegmentBuild capacity source destination localPort remotePort sequence 0 tcpFlagSyn window [] =
      some packet) :
    BufferOk (tcpConnectionRecordSegment packet
        (tcpConnectionOpen sequence remotePort (tcpConnectionInitialize localPort window)).2).2 ∧
      CanRetransmit (tcpConnectionRecordSegment packet
        (tcpConnectionOpen sequence remotePort (tcpConnectionInitialize localPort window)).2).2 := by
  have hparse := tcpSegmentParse_tcpSegmentBuild h
  obtain ⟨hbuildable, hpacket⟩ := tcpSegmentBuild_eq_some_iff.mp h
  have hlength : packet.length = tcpHeaderSize := by
    rw [hpacket, length_packetOf]
    rfl
  have hopen : ¬((tcpConnectionInitialize localPort window).localPort = 0 ∨ remotePort = 0 ∨
      (tcpConnectionInitialize localPort window).state ≠ .closed) := by
    rintro (hport | hport | hstate)
    · exact hbuildable.sourcePort_ne hport
    · exact hbuildable.destinationPort_ne hport
    · exact hstate rfl
  have hrecord : ¬(packet.length = 0 ∨ tcpRetransmitMaxSize < packet.length) := by
    rw [hlength]
    decide
  have hidle : ¬TcpState.synSent.carries := by decide
  rw [tcpConnectionOpen, if_neg hopen, tcpConnectionRecordSegment, if_neg hrecord]
  refine ⟨⟨fun _ => ⟨_, ⟨source, destination, hparse⟩, ?_, ?_⟩, fun _ hc => absurd hc hidle,
    fun hlisten => TcpState.noConfusion hlisten⟩, fun _ => ⟨rfl, _, ⟨source, destination, hparse⟩, ?_⟩⟩
  · rw [space_syn rfl rfl]
    rfl
  · rw [space_syn rfl rfl]
    decide
  · rw [space_syn rfl rfl]
    change (sequence - sequence).toNat < 1
    rw [BitVec.sub_self]
    decide

theorem Started.ok {start : TcpConnection} (h : Started start) : BufferOk start ∧ CanRetransmit start := by
  cases h with
  | listening localPort window =>
    rw [tcpConnectionListen]
    split_ifs
    · exact ⟨⟨nofun, nofun, nofun⟩, canRetransmit_of_eq rfl⟩
    · exact ⟨⟨nofun, nofun, fun _ => rfl⟩, canRetransmit_of_eq rfl⟩
  | connecting hbuild => exact ok_connecting hbuild

/-- Something can be sent again in every state of a run exactly when each of its calls leaves the
buffer to the oldest segment. -/
theorem canRetransmit_iff {start : TcpConnection} (h : Started start) (calls : List TcpCall) :
    Always tcpStep CanRetransmit start calls ↔ Each tcpStep KeepsStored start calls :=
  always_iff_each (L := fun _ _ => True) (fun c call hok _ => bufferOk_step c call hok)
    (fun c call hok _ hcan => canRetransmit_step c call hok hcan) h.ok.1 h.ok.2
    (each_of_forall (fun _ _ => trivial) start calls)

end Runs

section Sample

/-- The `SYN` of a connection from port 1000 to port 80. -/
def sampleSyn : List UInt8 :=
  packetOf
    { sourcePort := 1000, destinationPort := 80, sequence := 7, acknowledgment := 0, flags := tcpFlagSyn,
      window := 500, payload := [] }
    (sampleHost 1) (sampleHost 2)

/-- The connection that sent it. -/
def sampleConnection : TcpConnection :=
  (tcpConnectionRecordSegment sampleSyn (tcpConnectionOpen 7 80 (tcpConnectionInitialize 1000 500)).2).2

/-- The peer's answer. -/
def sampleSynAck : TcpSegment where
  sourcePort := 80
  destinationPort := 1000
  sequence := 40
  acknowledgment := 8
  flags := tcpFlagSyn ||| tcpFlagAck
  window := 500
  payload := []

/-- A byte to send. -/
def sampleSend (byte : UInt8) : TcpCall := .build (sampleHost 1) (sampleHost 2) 0 [byte] 1500

theorem started_sampleConnection : Started sampleConnection :=
  have h : tcpSegmentBuild 1500 (sampleHost 1) (sampleHost 2) 1000 80 7 0 tcpFlagSyn 500 [] = some sampleSyn :=
    rfl
  .connecting h

theorem canRetransmit_iff_sample :
    Started sampleConnection ∧
      Always tcpStep CanRetransmit sampleConnection [.receive sampleSynAck, sampleSend 65] := by
  refine ⟨started_sampleConnection, (canRetransmit_iff started_sampleConnection _).mpr ⟨?_, ?_, trivial⟩⟩
  · exact fun h => nomatch h.2.2.1
  · exact fun _ => by decide +kernel

/-- Two bytes are sent before the first is acknowledged: what is stored is the second, and the first
cannot be sent again. -/
theorem first_segment_lost :
    ¬Always tcpStep CanRetransmit sampleConnection
      [.receive sampleSynAck, sampleSend 65, sampleSend 66] := by
  intro h
  obtain ⟨-, segment, hstores, hcovers⟩ := h.2.2.2 (by decide +kernel)
  have hlast : Stores (run tcpStep sampleConnection [.receive sampleSynAck, sampleSend 65, sampleSend 66])
      (builtSegment 0 [66] (run tcpStep sampleConnection [.receive sampleSynAck, sampleSend 65])) :=
    ⟨sampleHost 1, sampleHost 2, by decide +kernel⟩
  rw [hstores.unique hlast] at hcovers
  revert hcovers
  decide +kernel

end Sample

end KernelBoot.Network
