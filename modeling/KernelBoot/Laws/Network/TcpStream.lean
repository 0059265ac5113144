import KernelBoot.Laws.Network.TcpEndpoint
import KernelBoot.Lib.Run

/-!
# What is acknowledged is delivered

A run of calls on the table is watched at one slot: what `tcp_endpoint_receive` handed out, and what the
slot answered to the last segment. What was handed out and what is queued should be the beginning of the
peer's stream, and `receive_next` should be the sequence number behind it. The connection moves
`receive_next` before the endpoint looks for room in the queue, and an end that carries data is
acknowledged without its data once this side is done; without these two, it is so.
-/

namespace KernelBoot.Network

open Lib TcpTable List

variable {c' : TcpConnection} {call : TcpTableCall} {destination : Address}
variable {endpoint' : TcpEndpoint} {c : TcpConnection} {result : TcpResult} {segment : TcpSegment}

/-- The bytes that wait in an endpoint, oldest first. -/
def queued (endpoint : TcpEndpoint) : List UInt8 :=
  ((ringContents tcpEndpointQueueCapacity endpoint.queue endpoint.head endpoint.count).map
    StreamData.payload).flatten

/-- A run watched at one slot. -/
structure Watched where
  table : TcpTable
  handed : List UInt8
  response : Option TcpResult

/-- What a call hands out from slot `i`. -/
def handedBy (i : Nat) (table : TcpTable) : TcpTableCall → List UInt8
  | .receive handle capacity =>
    if handle = i + 1 then ((tcpEndpointReceive handle capacity table).1.map Prod.snd).getD [] else []
  | _ => []

/-- What slot `i` answers to a call. -/
def responseOf (i : Nat) (table : TcpTable) : TcpTableCall → Option TcpResult
  | .deliver destination source segment =>
    (tcpEndpointDeliver destination source segment table).1.filter fun result =>
      result.endpointHandle == i + 1
  | _ => none

def watchStep (i : Nat) (w : Watched) (call : TcpTableCall) : Watched where
  table := tcpTableStep w.table call
  handed := w.handed ++ handedBy i w.table call
  response := responseOf i w.table call

/-- What was handed out from slot `i` and what waits there. -/
def got (i : Nat) (w : Watched) : List UInt8 := w.handed ++ queued (w.table.endpoints i)

/-- `receive_next` is the sequence number behind the bytes of the stream, or behind the end that follows
the whole stream; before the peer has answered, it is not set. -/
inductive Covered (isn : Sequence) (stream bytes : List UInt8) (c : TcpConnection) : Prop
  | unanswered (hstate : c.state = .synSent ∨ c.state = .closed) (hzero : c.receiveNext = 0)
      (hbytes : bytes = [])
  | data (h : c.receiveNext = isn + 1 + BitVec.ofNat 32 bytes.length)
  | fin (hbytes : bytes = stream) (h : c.receiveNext = isn + 1 + BitVec.ofNat 32 (bytes.length + 1))

/-- The bytes of slot `i` begin the stream, what `receive_next` covers is among them, and what was
answered acknowledges no more. -/
structure DeliversAcknowledged (i : Nat) (isn : Sequence) (stream : List UInt8) (w : Watched) : Prop where
  begins : got i w <+: stream
  covered : Covered isn stream (got i w) (w.table.endpoints i).connection
  response : ∀ result ∈ w.response, flagged result.responseFlags tcpFlagAck →
    result.responseAcknowledgment = (w.table.endpoints i).connection.receiveNext

/-- A segment of a peer whose stream starts behind `isn`, at a time when `n` of its bytes were taken. What
the network still delivers is less than the whole sequence space away from that. -/
inductive FromPeer (isn : Sequence) (stream : List UInt8) (n : Nat) (segment : TcpSegment) : Prop
  | reset (h : flagged segment.flags tcpFlagRst)
  | syn (hsyn : flagged segment.flags tcpFlagSyn) (hsequence : segment.sequence = isn)
      (hfresh : n + 2 < 2 ^ 32)
  | data (position : Nat) (hsyn : ¬flagged segment.flags tcpFlagSyn)
      (hsequence : segment.sequence = isn + 1 + BitVec.ofNat 32 position)
      (hpayload : segment.payload <+: stream.drop position) (hstop : position ≤ stream.length + 1)
      (hfin : flagged segment.flags tcpFlagFin → position + segment.payload.length = stream.length)
      (hfresh : position + 1 < n + 2 ^ 32 ∧ n + 1 < position + 2 ^ 32)

/-- The slot stays in use, and what reaches it comes from its peer. -/
def FromPeerTo (i : Nat) (isn : Sequence) (stream : List UInt8) (w : Watched) : TcpTableCall → Prop
  | .unbind handle => handle ≠ i + 1
  | .deliver destination source segment =>
    selectEndpoint destination source segment w.table = some i →
      FromPeer isn stream (got i w).length segment
  | _ => True

/-- Data that is taken finds room in the queue, and an end that is taken without its data has none. -/
def HasRoom (i : Nat) (w : Watched) : TcpTableCall → Prop
  | .deliver destination source segment =>
    selectEndpoint destination source segment w.table = some i →
      segment.payload.length ≤ tcpEndpointPayloadMax →
      (Accepts segment (w.table.endpoints i).connection → segment.payload ≠ [] →
        (w.table.endpoints i).count < tcpEndpointQueueCapacity) ∧
      (Ends segment (w.table.endpoints i).connection → segment.payload = [])
  | _ => True

/-- The queue of an endpoint is a ring. -/
structure QueueOk (endpoint : TcpEndpoint) : Prop where
  count_le : endpoint.count ≤ tcpEndpointQueueCapacity
  head_lt : endpoint.head < tcpEndpointQueueCapacity
  tail_eq : endpoint.tail = (endpoint.head + endpoint.count) % tcpEndpointQueueCapacity

/-- What holds of the slot whatever is called. -/
structure SlotOk (i : Nat) (w : Watched) : Prop where
  slot : i < tcpEndpointCapacity
  valid : (w.table.endpoints i).valid = true
  not_listen : (w.table.endpoints i).connection.state ≠ .listen
  queue : QueueOk (w.table.endpoints i)
  unanswered : (w.table.endpoints i).connection.state = .synSent → got i w = []

section Queue

variable {endpoint : TcpEndpoint}

theorem queued_push (hok : QueueOk endpoint) (hroom : endpoint.count < tcpEndpointQueueCapacity)
    (source : Address) (payload : List UInt8) :
    queued { endpoint with
        queue := fun i => if i = endpoint.tail then ⟨source, payload⟩ else endpoint.queue i
        tail := (endpoint.tail + 1) % tcpEndpointQueueCapacity
        count := endpoint.count + 1 } = queued endpoint ++ payload := by
  rw [queued, queued, hok.tail_eq]
  dsimp only
  rw [ringContents_push hroom, map_append, flatten_append, map_singleton,
    flatten_singleton]

theorem queueOk_push (hok : QueueOk endpoint) (hroom : endpoint.count < tcpEndpointQueueCapacity)
    (queue : Nat → StreamData) :
    QueueOk { endpoint with
      queue, tail := (endpoint.tail + 1) % tcpEndpointQueueCapacity, count := endpoint.count + 1 } where
  count_le := hroom
  head_lt := hok.head_lt
  tail_eq := by
    change (endpoint.tail + 1) % _ = (endpoint.head + (endpoint.count + 1)) % _
    rw [hok.tail_eq, Nat.mod_add_mod, Nat.add_assoc]

theorem queued_pop (hok : QueueOk endpoint) (hcount : endpoint.count ≠ 0) :
    queued endpoint = (endpoint.queue endpoint.head).payload ++
      queued { endpoint with
        head := (endpoint.head + 1) % tcpEndpointQueueCapacity, count := endpoint.count - 1 } := by
  obtain ⟨count, hsucc⟩ := Nat.exists_eq_succ_of_ne_zero hcount
  rw [queued, queued, hsucc]
  dsimp only
  rw [Nat.succ_eq_add_one, ringContents_pop, Nat.mod_eq_of_lt hok.head_lt, Nat.add_sub_cancel]
  rfl

theorem queueOk_pop (hok : QueueOk endpoint) (hcount : endpoint.count ≠ 0) :
    QueueOk { endpoint with
      head := (endpoint.head + 1) % tcpEndpointQueueCapacity, count := endpoint.count - 1 } where
  count_le := (Nat.sub_le _ _).trans hok.count_le
  head_lt := Nat.mod_lt _ (by decide)
  tail_eq := by
    change endpoint.tail = ((endpoint.head + 1) % _ + (endpoint.count - 1)) % _
    rw [hok.tail_eq, Nat.mod_add_mod]
    congr 1
    omega

end Queue

section Position

variable {isn : Sequence} {stream bytes : List UInt8} {c : TcpConnection} {segment : TcpSegment}

/-- Positions less than the sequence space apart are told apart by their sequence numbers. -/
theorem position_eq {a b : Nat} (h : isn + 1 + BitVec.ofNat 32 a = isn + 1 + BitVec.ofNat 32 b)
    (hab : a < b + 2 ^ 32) (hba : b < a + 2 ^ 32) : a = b := by
  have hmod : a % 2 ^ 32 = b % 2 ^ 32 := by
    have hnat := congrArg BitVec.toNat (add_left_cancel h)
    rwa [BitVec.toNat_ofNat, BitVec.toNat_ofNat] at hnat
  omega

/-- Where a segment in order stands: right behind the bytes that were taken, or behind the end. -/
theorem position_of_in_order (hcovered : Covered isn stream bytes c)
    (hstates : c.state ≠ .synSent ∧ c.state ≠ .closed) (hpeer : FromPeer isn stream bytes.length segment)
    (hreset : ¬flagged segment.flags tcpFlagRst) (horder : segment.sequence = c.receiveNext) :
    (c.receiveNext = isn + 1 + BitVec.ofNat 32 bytes.length ∧
      segment.payload <+: stream.drop bytes.length ∧
      (flagged segment.flags tcpFlagFin → bytes.length + segment.payload.length = stream.length)) ∨
    (bytes = stream ∧ c.receiveNext = isn + 1 + BitVec.ofNat 32 (bytes.length + 1) ∧
      segment.payload = [] ∧ ¬flagged segment.flags tcpFlagFin) := by
  cases hpeer with
  | reset h => exact absurd h hreset
  | syn hsyn hsequence hfresh =>
    rw [hsequence] at horder
    cases hcovered with
    | unanswered hunanswered => exact absurd hunanswered (not_or.mpr hstates)
    | data hnext | fin hbytes hnext =>
      rw [hnext] at horder
      bv_omega
  | data position hsyn hsequence hpayload hstop hfin hfresh =>
    rw [hsequence] at horder
    cases hcovered with
    | unanswered hunanswered => exact absurd hunanswered (not_or.mpr hstates)
    | data hnext =>
      obtain rfl : position = bytes.length := position_eq (horder.trans hnext) (by omega) (by omega)
      exact .inl ⟨hnext, hpayload, hfin⟩
    | fin hbytes hnext =>
      have hposition : position = bytes.length + 1 :=
        position_eq (horder.trans hnext) (by omega) (by omega)
      subst hposition
      subst hbytes
      rw [drop_eq_nil_of_le (Nat.le_succ _)] at hpayload
      refine .inr ⟨rfl, hnext, prefix_nil.mp hpayload, fun h => ?_⟩
      have := hfin h
      omega

/-- The payload of a segment right behind the bytes that were taken. -/
theorem begins_append {payload : List UInt8} (hbegins : bytes <+: stream)
    (hpayload : payload <+: stream.drop bytes.length) : bytes ++ payload <+: stream := by
  obtain ⟨rest, rfl⟩ := hbegins
  rw [drop_left] at hpayload
  exact (prefix_append_right_inj bytes).mpr hpayload

/-- A segment that is taken and queued. -/
theorem covered_queued (hbegins : bytes <+: stream) (hcovered : Covered isn stream bytes c)
    (hpeer : FromPeer isn stream bytes.length segment) (haccepts : Accepts segment c) :
    bytes ++ segment.payload <+: stream ∧
      Covered isn stream (bytes ++ segment.payload) (acceptSegment segment c) := by
  have hnext : (acceptSegment segment c).receiveNext =
      c.receiveNext + BitVec.ofNat 32 (segment.payload.length + segment.finLength) := rfl
  rcases position_of_in_order hcovered haccepts.carries.ne_idle hpeer haccepts.no_reset
    haccepts.in_order with ⟨hbehind, hpayload, hfin⟩ | ⟨hall, hbehind, hempty, hnofin⟩
  · have hmore := begins_append hbegins hpayload
    refine ⟨hmore, ?_⟩
    rw [hbehind] at hnext
    by_cases hflag : flagged segment.flags tcpFlagFin
    · have hlength : (bytes ++ segment.payload).length = stream.length := by
        rw [length_append]
        exact hfin hflag
      refine .fin (hmore.eq_of_length hlength) ?_
      rw [hnext, TcpSegment.finLength, if_pos hflag, length_append, add_assoc, ← BitVec.ofNat_add,
        Nat.add_assoc bytes.length]
    · refine .data ?_
      rw [hnext, TcpSegment.finLength, if_neg hflag, length_append, add_assoc, ← BitVec.ofNat_add,
        Nat.add_zero]
  · rw [hempty, append_nil]
    refine ⟨hbegins, .fin hall ?_⟩
    rw [hnext, hbehind, hempty, TcpSegment.finLength, if_neg hnofin]
    exact BitVec.add_zero _

/-- When `receive_next` moves on and the bytes stay the same, only a bare end is covered. -/
theorem covered_moved_iff {step : Nat} (hstep : 0 < step) (hsmall : step < 2 ^ 16)
    (hstate : c'.state ≠ .synSent ∧ c'.state ≠ .closed)
    (hnext : c.receiveNext = isn + 1 + BitVec.ofNat 32 bytes.length)
    (hmoved : c'.receiveNext = c.receiveNext + BitVec.ofNat 32 step) :
    Covered isn stream bytes c' ↔ bytes = stream ∧ step = 1 := by
  rw [hnext] at hmoved
  constructor
  · intro h
    cases h with
    | unanswered hunanswered => exact absurd hunanswered (not_or.mpr hstate)
    | data h =>
      rw [hmoved] at h
      bv_omega
    | fin hbytes h =>
      refine ⟨hbytes, ?_⟩
      rw [hmoved, add_assoc, ← BitVec.ofNat_add] at h
      have := position_eq h (by omega) (by omega)
      omega
  · rintro ⟨hbytes, rfl⟩
    refine .fin hbytes ?_
    rw [hmoved, add_assoc, ← BitVec.ofNat_add]

/-- A segment with data that is taken and dropped. -/
theorem not_covered_dropped (hbegins : bytes <+: stream) (hcovered : Covered isn stream bytes c)
    (hpeer : FromPeer isn stream bytes.length segment) (haccepts : Accepts segment c)
    (hsize : segment.payload.length ≤ tcpEndpointPayloadMax) (hpayload : segment.payload ≠ []) :
    ¬Covered isn stream bytes (acceptSegment segment c) := by
  have hlength := length_pos_iff.mpr hpayload
  have hfin : segment.finLength ≤ 1 := by
    rw [TcpSegment.finLength]
    split_ifs <;> omega
  rcases position_of_in_order hcovered haccepts.carries.ne_idle hpeer haccepts.no_reset
    haccepts.in_order with ⟨hbehind, hrest, -⟩ | ⟨-, -, hempty, -⟩
  · rw [covered_moved_iff (by omega) (by rw [tcpEndpointPayloadMax] at hsize; omega)
      (acceptSegment_carries haccepts.carries).ne_idle hbehind rfl]
    rintro ⟨rfl, -⟩
    rw [drop_length] at hrest
    exact hpayload (prefix_nil.mp hrest)
  · exact absurd hempty hpayload

/-- An end that is taken while nothing else is taken any more. -/
theorem covered_ended_iff (hbegins : bytes <+: stream) (hcovered : Covered isn stream bytes c)
    (hpeer : FromPeer isn stream bytes.length segment) (hends : Ends segment c) :
    Covered isn stream bytes { c with receiveNext := c.receiveNext + 1, state := .timeWait } ↔
      segment.payload = [] := by
  have hstates : c.state ≠ .synSent ∧ c.state ≠ .closed := by
    rw [hends.state]
    exact ⟨nofun, nofun⟩
  rcases position_of_in_order hcovered hstates hpeer hends.no_reset hends.in_order with
    ⟨hbehind, hrest, hfin⟩ | ⟨-, -, -, hnofin⟩
  · have hlength := hfin hends.fin
    refine (covered_moved_iff Nat.one_pos (by decide) ⟨?_, ?_⟩ hbehind rfl).trans ⟨?_, ?_⟩
    · nofun
    · nofun
    · rintro ⟨rfl, -⟩
      exact eq_nil_of_length_eq_zero (by omega)
    · intro hempty
      rw [hempty, length_nil, Nat.add_zero] at hlength
      exact ⟨hbegins.eq_of_length hlength, rfl⟩
  · exact absurd hends.fin hnofin

end Position

section Hear

variable {isn : Sequence} {stream handed : List UInt8} {endpoint : TcpEndpoint} {segment : TcpSegment}
  {source : Address} {i : Nat}

theorem SameQueue.queued_eq (h : SameQueue endpoint endpoint') :
    queued endpoint' = queued endpoint := by
  obtain ⟨-, hqueue, hhead, -, hcount⟩ := h
  rw [queued, queued, hqueue, hhead, hcount]

theorem SameQueue.ok (h : SameQueue endpoint endpoint') (hok : QueueOk endpoint) :
    QueueOk endpoint' := by
  obtain ⟨-, -, hhead, htail, hcount⟩ := h
  refine ⟨?_, ?_, ?_⟩
  · rw [hcount]
    exact hok.count_le
  · rw [hhead]
    exact hok.head_lt
  · rw [htail, hhead, hcount]
    exact hok.tail_eq

/-- Nothing that was received is lost sight of. -/
structure KeepsReceived (c c' : TcpConnection) : Prop where
  receiveNext : c'.receiveNext = c.receiveNext
  unanswered : c.state = .synSent ∨ c.state = .closed → c'.state = .synSent ∨ c'.state = .closed

theorem KeepsReceived.covered {bytes : List UInt8} (h : KeepsReceived c c')
    (hcovered : Covered isn stream bytes c) : Covered isn stream bytes c' := by
  cases hcovered with
  | unanswered hstate hzero hbytes => exact .unanswered (h.unanswered hstate) (h.receiveNext.trans hzero) hbytes
  | data hnext => exact .data (h.receiveNext.trans hnext)
  | fin hbytes hnext => exact .fin hbytes (h.receiveNext.trans hnext)

/-- What the other segments do: the peer answers, or nothing is received. -/
theorem received_other {result : Option TcpResult} (h : Received segment c result c')
    (hlisten : c.state ≠ .listen) (haccepts : ¬Accepts segment c) (hends : ¬Ends segment c) :
    KeepsReceived c c' ∨
      c.state = .synSent ∧ Heard segment c ∧ flagged segment.flags tcpFlagSyn ∧
        c'.receiveNext = segment.sequence + 1 := by
  cases h with
  | refused | repeated | outOfOrder => exact .inl ⟨rfl, id⟩
  | reset => exact .inl ⟨rfl, fun _ => .inr rfl⟩
  | opened _ hstate => exact absurd hstate hlisten
  | answered heard hstate hflags =>
    refine .inr ⟨hstate, heard, fun hsyn => ?_, rfl⟩
    have hboth : segment.flags &&& (tcpFlagSyn ||| tcpFlagAck) &&& tcpFlagSyn = 0 := by
      rw [UInt8.and_assoc]
      exact hsyn
    rw [hflags] at hboth
    revert hboth
    decide
  | completed _ hstate | halfClosed _ hstate | closed _ hstate =>
    refine .inl ⟨rfl, fun h => ?_⟩
    rw [hstate] at h
    exact absurd h (by decide)
  | ended h => exact absurd h hends
  | accepted h => exact absurd h haccepts

/-- What was accepted goes to the end of the queue when there is room. -/
theorem enqueue_room (hok : QueueOk endpoint)
    (haccepted : result.acceptedPayload = segment.payload.length)
    (hroom : segment.payload ≠ [] → endpoint.count < tcpEndpointQueueCapacity) :
    queued (enqueue source segment result endpoint).2 = queued endpoint ++ segment.payload ∧
      QueueOk (enqueue source segment result endpoint).2 := by
  by_cases hempty : segment.payload = []
  · have hzero : result.acceptedPayload = 0 := by rw [haccepted, hempty, length_nil]
    rw [enqueue_nothing hzero, hempty, append_nil]
    exact ⟨rfl, hok⟩
  · have hpositive : result.acceptedPayload ≠ 0 := by
      rw [haccepted]
      exact fun h => hempty (eq_nil_of_length_eq_zero h)
    have hcount := hroom hempty
    rw [enqueue, if_pos hpositive, if_neg (Nat.ne_of_lt hcount), haccepted, take_length]
    exact ⟨queued_push hok hcount source segment.payload, queueOk_push hok hcount _⟩

theorem enqueue_full (haccepted : result.acceptedPayload ≠ 0)
    (hfull : endpoint.count = tcpEndpointQueueCapacity) :
    SameQueue endpoint (enqueue source segment result endpoint).2 := by
  rw [enqueue, if_pos haccepted, if_pos hfull]
  exact ⟨rfl, rfl, rfl, rfl, rfl⟩

/-- A segment that is not taken leaves the queue. -/
theorem sameQueue_hear (source : Address) (i : Nat) (haccepts : ¬Accepts segment endpoint.connection) :
    SameQueue endpoint (hearSegment false source segment i endpoint).2 := by
  have hreceived := received segment endpoint.connection
  match h : tcpConnectionReceive segment endpoint.connection with
  | (none, connection) =>
    rw [hearSegment_none h]
    exact ⟨Bool.and_true _, rfl, rfl, rfl, rfl⟩
  | (some result, connection) =>
    rw [h] at hreceived
    have hnothing : result.acceptedPayload = 0 := received_payload hreceived haccepts
    obtain ⟨answer, heard, hsent, hsame, -, heq⟩ := hearSegment_some false source i h
    rw [heq, enqueue_nothing (hsent.payload.trans hnothing)]
    exact hsame

theorem Accepts.not_ends (h : Accepts segment c) : ¬Ends segment c := by
  intro hends
  rcases h.carries with hstate | hstate
  · exact nomatch hstate.symm.trans hends.state
  · exact nomatch hstate.symm.trans hends.state

/-- A segment that is taken: it is queued, or dropped when there is data and no room. -/
theorem hear_accepted (source : Address) (i : Nat) (hok : QueueOk endpoint) (haccepts : Accepts segment endpoint.connection) :
    let heard := (hearSegment false source segment i endpoint).2
    heard.connection = acceptSegment segment endpoint.connection ∧ QueueOk heard ∧
      queued heard =
        if segment.payload ≠ [] → endpoint.count < tcpEndpointQueueCapacity then
          queued endpoint ++ segment.payload
        else queued endpoint := by
  have hconnection : (hearSegment false source segment i endpoint).2.connection =
      acceptSegment segment endpoint.connection := by
    rw [hearSegment_connection, receive_of_accepts haccepts]
  refine ⟨hconnection, ?_⟩
  obtain ⟨answer, heard, hsent, hsame, -, heq⟩ :=
    hearSegment_some false source i (receive_of_accepts haccepts)
  have hpayload : answer.acceptedPayload = segment.payload.length := hsent.payload
  have hcount : heard.count = endpoint.count := hsame.2.2.2.2
  rw [heq, ← hsame.queued_eq, ← hcount]
  split_ifs with hroom
  · exact (enqueue_room (hsame.ok hok) hpayload hroom).symm
  · rw [Classical.not_imp] at hroom
    have hfull : heard.count = tcpEndpointQueueCapacity :=
      le_antisymm (hsame.ok hok).count_le (not_lt.mp hroom.2)
    have hpositive : answer.acceptedPayload ≠ 0 := by
      rw [hpayload]
      exact fun h => hroom.1 (eq_nil_of_length_eq_zero h)
    have hdropped : SameQueue heard (enqueue source segment answer heard).2 := enqueue_full hpositive hfull
    exact ⟨hdropped.ok (hsame.ok hok), hdropped.queued_eq⟩

/-- After a segment from its peer, the bytes of an endpoint still begin the stream and cover what was
received, exactly when there was room for what was taken. -/
theorem covered_hear_iff (source : Address) (i : Nat) (hok : QueueOk endpoint) (hlisten : endpoint.connection.state ≠ .listen)
    (hunanswered : endpoint.connection.state = .synSent → handed ++ queued endpoint = [])
    (hbegins : handed ++ queued endpoint <+: stream)
    (hcovered : Covered isn stream (handed ++ queued endpoint) endpoint.connection)
    (hpeer : FromPeer isn stream (handed ++ queued endpoint).length segment)
    (hsize : segment.payload.length ≤ tcpEndpointPayloadMax) :
    let heard := (hearSegment false source segment i endpoint).2
    (handed ++ queued heard <+: stream ∧
      Covered isn stream (handed ++ queued heard) heard.connection) ↔
    (Accepts segment endpoint.connection → segment.payload ≠ [] →
        endpoint.count < tcpEndpointQueueCapacity) ∧
      (Ends segment endpoint.connection → segment.payload = []) := by
  dsimp only
  by_cases haccepts : Accepts segment endpoint.connection
  · obtain ⟨hconnection, -, hqueue⟩ := hear_accepted source i hok haccepts
    rw [hconnection, hqueue]
    split_ifs with hroom
    · rw [← append_assoc]
      exact iff_of_true (covered_queued hbegins hcovered hpeer haccepts)
        ⟨fun _ => hroom, fun h => absurd h haccepts.not_ends⟩
    · have hdata : segment.payload ≠ [] := (Classical.not_imp.mp hroom).1
      exact iff_of_false (fun h => not_covered_dropped hbegins hcovered hpeer haccepts hsize hdata h.2)
        fun h => hroom (h.1 haccepts)
  have hqueue : queued (hearSegment false source segment i endpoint).2 = queued endpoint :=
    (sameQueue_hear source i haccepts).queued_eq
  rw [hqueue, hearSegment_connection]
  by_cases hends : Ends segment endpoint.connection
  · rw [receive_of_ends hends, and_iff_right hbegins, covered_ended_iff hbegins hcovered hpeer hends]
    exact ⟨fun h => ⟨fun h' => absurd h' haccepts, fun _ => h⟩, fun h => h.2 hends⟩
  refine iff_of_true ⟨hbegins, ?_⟩ ⟨fun h => absurd h haccepts, fun h => absurd h hends⟩
  rcases received_other (received segment endpoint.connection) hlisten haccepts hends with
    hkeeps | ⟨hstate, heard, hsyn, hnext⟩
  · exact hkeeps.covered hcovered
  refine .data ?_
  rw [hunanswered hstate, hnext]
  cases hpeer with
  | reset h => exact absurd h heard.no_reset
  | syn _ hsequence =>
    rw [hsequence]
    exact (BitVec.add_zero _).symm
  | data _ hnot => exact absurd hsyn hnot

end Hear

section Steps

variable {i : Nat} {isn : Sequence} {stream : List UInt8} {w w' : Watched} {source : Address}

/-- The endpoint received nothing and handed out nothing. -/
structure SlotKept (endpoint endpoint' : TcpEndpoint) : Prop where
  queue : SameQueue endpoint endpoint'
  received : KeepsReceived endpoint.connection endpoint'.connection
  listen : endpoint.connection.state ≠ .listen → endpoint'.connection.state ≠ .listen
  synSent : endpoint'.connection.state = .synSent → endpoint.connection.state = .synSent

theorem SlotKept.refl (endpoint : TcpEndpoint) : SlotKept endpoint endpoint :=
  ⟨⟨rfl, rfl, rfl, rfl, rfl⟩, ⟨rfl, id⟩, id, id⟩

theorem slotKept_redated (tick retries : Nat) (endpoint : TcpEndpoint) :
    SlotKept endpoint (redated tick retries endpoint) :=
  ⟨⟨rfl, rfl, rfl, rfl, rfl⟩, ⟨rfl, id⟩, id, id⟩

theorem slotKept_build (source destination : Address) (flags : UInt8) (payload : List UInt8) (capacity : Nat)
    (endpoint : TcpEndpoint) :
    SlotKept endpoint { endpoint with
      connection :=
        (tcpConnectionBuild source destination flags payload capacity endpoint.connection).2 } := by
  by_cases hadmitted : Admitted flags payload capacity endpoint.connection
  · rw [tcpConnectionBuild_of_admitted hadmitted]
    refine ⟨⟨rfl, rfl, rfl, rfl, rfl⟩, ⟨rfl, fun h => ?_⟩, closing_ne_listen,
      fun h => closing_eq h nofun nofun⟩
    exact absurd h (not_or.mpr hadmitted.carries.ne_idle)
  · rw [tcpConnectionBuild_of_not_admitted hadmitted]
    exact .refl endpoint

/-- The calls that bring the slot nothing and take nothing from it. -/
def Passes (i : Nat) : TcpTableCall → Prop
  | .unbind handle => handle ≠ i + 1
  | .deliver _ _ _ => False
  | .receive handle _ => handle ≠ i + 1
  | _ => True

theorem slotKept_of_passes {table : TcpTable} (hvalid : (table.endpoints i).valid = true)
    (hpasses : Passes i call) :
    SlotKept (table.endpoints i) ((tcpTableStep table call).endpoints i) := by
  have hdelivers : call.delivers = false := by
    cases call with
    | deliver => exact hpasses.elim
    | listen | connect | unbind | accept | sendSegment | retransmitDue | retransmitNext | receive => rfl
  have htouched := touched_used hvalid hdelivers
  generalize (tcpTableStep table call).endpoints i = endpoint' at htouched ⊢
  cases htouched with
  | same => exact .refl _
  | unbound => exact absurd rfl hpasses
  | built => exact slotKept_build _ _ _ _ _ _
  | redated _ tick retries => exact slotKept_redated tick retries _
  | popped => exact absurd rfl hpasses

theorem SlotKept.got_eq (h : SlotKept (w.table.endpoints i) (w'.table.endpoints i))
    (hhanded : w'.handed = w.handed) : got i w' = got i w := by
  rw [got, got, h.queue.queued_eq, hhanded]

/-- A call that passes the slot by. -/
theorem SlotOk.of_kept (hok : SlotOk i w)
    (h : SlotKept (w.table.endpoints i) (w'.table.endpoints i)) (hhanded : w'.handed = w.handed) :
    SlotOk i w' where
  slot := hok.slot
  valid := h.queue.1.trans hok.valid
  not_listen := h.listen hok.not_listen
  queue := h.queue.ok hok.queue
  unanswered hstate := (h.got_eq hhanded).trans (hok.unanswered (h.synSent hstate))

theorem DeliversAcknowledged.of_kept (hp : DeliversAcknowledged i isn stream w)
    (h : SlotKept (w.table.endpoints i) (w'.table.endpoints i)) (hhanded : w'.handed = w.handed)
    (hresponse : w'.response = none) : DeliversAcknowledged i isn stream w' where
  begins := by
    rw [h.got_eq hhanded]
    exact hp.begins
  covered := by
    rw [h.got_eq hhanded]
    exact h.received.covered hp.covered
  response result hresult := by
    rw [hresponse] at hresult
    exact nomatch hresult

/-- What `tcp_endpoint_receive` takes from the slot it hands out. -/
theorem receive_at (hok : SlotOk i w) (capacity : Nat) :
    let w' := watchStep i w (.receive (i + 1) capacity)
    got i w' = got i w ∧
      (w'.table.endpoints i).connection = (w.table.endpoints i).connection ∧
      (w'.table.endpoints i).valid = true ∧ QueueOk (w'.table.endpoints i) := by
  have hslot : w.table.slotFor (i + 1) = some i := slotFor_eq_some_iff.mpr ⟨rfl, hok.slot, hok.valid⟩
  have hstep : watchStep i w (.receive (i + 1) capacity) =
      ⟨(tcpEndpointReceive (i + 1) capacity w.table).2,
        w.handed ++ ((tcpEndpointReceive (i + 1) capacity w.table).1.map Prod.snd).getD [], none⟩ := by
    rw [watchStep, handedBy, if_pos rfl]
    rfl
  dsimp only
  rw [hstep, tcpEndpointReceive, hslot]
  dsimp only
  split_ifs with hempty
  · refine ⟨?_, rfl, hok.valid, hok.queue⟩
    change (w.handed ++ []) ++ _ = _
    rw [append_nil]
    rfl
  · have hcount : (w.table.endpoints i).count ≠ 0 := fun h => hempty (.inl h)
    refine ⟨?_, ?_, ?_, ?_⟩
    · rw [got, got, set_same, queued_pop hok.queue hcount, ← append_assoc]
      rfl
    · rw [set_same]
    · rw [set_same]
      exact hok.valid
    · rw [set_same]
      exact queueOk_pop hok.queue hcount

/-- A call that is neither a delivery nor takes from the slot. -/
theorem passes_quiet (h : Passes i call) :
    (watchStep i w call).handed = w.handed ∧ (watchStep i w call).response = none := by
  cases call with
  | deliver => exact h.elim
  | receive handle capacity => exact ⟨by rw [watchStep, handedBy, if_neg h, append_nil], rfl⟩
  | listen | connect | unbind | accept | sendSegment | retransmitDue | retransmitNext =>
    exact ⟨append_nil _, rfl⟩

/-- Every call brings the slot a segment, takes from it, or passes it by. -/
theorem call_cases (hlegal : FromPeerTo i isn stream w call) :
    (∃ destination source segment, call = .deliver destination source segment) ∨
      (∃ capacity, call = .receive (i + 1) capacity) ∨ Passes i call := by
  cases call with
  | deliver destination source segment => exact .inl ⟨_, _, _, rfl⟩
  | receive handle capacity =>
    by_cases hhandle : handle = i + 1
    · subst hhandle
      exact .inr (.inl ⟨capacity, rfl⟩)
    · exact .inr (.inr hhandle)
  | unbind handle => exact .inr (.inr hlegal)
  | listen | connect | accept | sendSegment | retransmitDue | retransmitNext =>
    exact .inr (.inr trivial)

/-- A delivery hands out nothing. -/
theorem handed_deliver :
    (watchStep i w (.deliver destination source segment)).handed = w.handed :=
  append_nil _

/-- A segment that was not for the slot. -/
theorem slotKept_of_eq (h : w'.table.endpoints i = w.table.endpoints i) :
    SlotKept (w.table.endpoints i) (w'.table.endpoints i) := by
  rw [h]
  exact .refl _

theorem slotOk_hear (hok : SlotOk i w) (hhanded : w'.handed = w.handed)
    (hheard : w'.table.endpoints i = (hearSegment false source segment i (w.table.endpoints i)).2) :
    SlotOk i w' := by
  have hreceived := received segment (w.table.endpoints i).connection
  have hkept := received_kept hok.not_listen hreceived
  refine ⟨hok.slot, ?_, ?_, ?_, fun hstate => ?_⟩
  · rw [hheard, hearSegment_valid]
    exact hok.valid
  · rw [hheard, hearSegment_connection]
    exact hkept.2.1
  · rw [hheard]
    by_cases haccepts : Accepts segment (w.table.endpoints i).connection
    · exact (hear_accepted source i hok.queue haccepts).2.1
    · exact (sameQueue_hear source i haccepts).ok hok.queue
  · rw [hheard, hearSegment_connection] at hstate
    have hsent := received_synSent hreceived hstate
    have haccepts : ¬Accepts segment (w.table.endpoints i).connection :=
      fun h => h.carries.ne_idle.1 hsent
    have hqueue := (sameQueue_hear source i haccepts).queued_eq
    rw [← hok.unanswered hsent, got, got, hheard, hqueue, hhanded]

theorem slotOk_step (hok : SlotOk i w) (hlegal : FromPeerTo i isn stream w call) :
    SlotOk i (watchStep i w call) := by
  rcases call_cases hlegal with ⟨destination, source, segment, rfl⟩ | ⟨capacity, rfl⟩ | hpasses
  · have hdeliver := deliver_at destination source segment hok.valid hok.not_listen
    split_ifs at hdeliver
    · exact slotOk_hear hok handed_deliver hdeliver.2
    · exact hok.of_kept (slotKept_of_eq hdeliver.2) handed_deliver
  · obtain ⟨hgot, hconnection, hvalid, hqueue⟩ := receive_at hok capacity
    refine ⟨hok.slot, hvalid, ?_, hqueue, fun hstate => ?_⟩
    · rw [hconnection]
      exact hok.not_listen
    · rw [hconnection] at hstate
      exact hgot.trans (hok.unanswered hstate)
  · exact hok.of_kept (slotKept_of_passes hok.valid hpasses) (passes_quiet hpasses).1

theorem deliversAcknowledged_hear (hok : SlotOk i w) (hp : DeliversAcknowledged i isn stream w)
    (hpeer : FromPeer isn stream (got i w).length segment)
    (hsize : segment.payload.length ≤ tcpEndpointPayloadMax) (hhanded : w'.handed = w.handed)
    (hanswer : ∀ result ∈ w'.response,
      result ∈ (hearSegment false source segment i (w.table.endpoints i)).1)
    (hheard : w'.table.endpoints i = (hearSegment false source segment i (w.table.endpoints i)).2) :
    DeliversAcknowledged i isn stream w' ↔
      (Accepts segment (w.table.endpoints i).connection → segment.payload ≠ [] →
        (w.table.endpoints i).count < tcpEndpointQueueCapacity) ∧
      (Ends segment (w.table.endpoints i).connection → segment.payload = []) := by
  have hstep := covered_hear_iff source i hok.queue hok.not_listen hok.unanswered hp.begins hp.covered hpeer
    hsize
  rw [← hheard, ← hhanded] at hstep
  refine .trans ⟨fun h => ⟨h.begins, h.covered⟩, fun h => ⟨h.1, h.2, fun result hresult => ?_⟩⟩ hstep
  rw [hheard]
  exact (hearSegment_answer (hanswer result hresult)).2

theorem deliversAcknowledged_step (hok : SlotOk i w) (hlegal : FromPeerTo i isn stream w call)
    (hp : DeliversAcknowledged i isn stream w) :
    DeliversAcknowledged i isn stream (watchStep i w call) ↔ HasRoom i w call := by
  rcases call_cases hlegal with ⟨destination, source, segment, rfl⟩ | ⟨capacity, rfl⟩ | hpasses
  · have hdeliver := deliver_at destination source segment hok.valid hok.not_listen
    split_ifs at hdeliver with hselected
    · have hanswer : ∀ result ∈ (watchStep i w (.deliver destination source segment)).response,
          result ∈ (hearSegment false source segment i (w.table.endpoints i)).1 := by
        intro result hresult
        rw [← hdeliver.1]
        exact (Option.mem_filter_iff.mp hresult).1
      exact (deliversAcknowledged_hear hok hp (hlegal hselected.1) hselected.2 handed_deliver hanswer
        hdeliver.2).trans ⟨fun h _ _ => h, fun h => h hselected.1 hselected.2⟩
    · have hresponse : (watchStep i w (.deliver destination source segment)).response = none := by
        rw [watchStep, responseOf, Option.filter_eq_none_iff]
        intro answer hanswer
        rw [beq_iff_eq]
        exact hdeliver.1 answer hanswer
      exact iff_of_true (hp.of_kept (slotKept_of_eq hdeliver.2) handed_deliver hresponse)
        fun h hsize => absurd ⟨h, hsize⟩ hselected
  · obtain ⟨hgot, hconnection, -, -⟩ := receive_at hok capacity
    refine iff_of_true ⟨?_, ?_, nofun⟩ trivial
    · rw [hgot]
      exact hp.begins
    · rw [hgot, hconnection]
      exact hp.covered
  · obtain ⟨hhanded, hresponse⟩ := passes_quiet (w := w) hpasses
    refine iff_of_true (hp.of_kept (slotKept_of_passes hok.valid hpasses) hhanded hresponse) ?_
    cases call with
    | deliver => exact hpasses.elim
    | listen | connect | unbind | accept | sendSegment | retransmitDue | retransmitNext | receive =>
      exact trivial

end Steps

section Runs

variable {i : Nat} {isn : Sequence} {stream : List UInt8}

/-- A run watched from the call that took slot `i`: a peer's `SYN`, or a connection to a peer. -/
inductive Born (i : Nat) (isn : Sequence) : Watched → Prop
  | passive {table : TcpTable} {destination source : Address} {segment : TcpSegment}
      (hfree : (table.endpoints i).valid = false)
      (hvalid : ((tcpEndpointDeliver destination source segment table).2.endpoints i).valid = true)
      (hsequence : segment.sequence = isn) :
    Born i isn (watchStep i ⟨table, [], none⟩ (.deliver destination source segment))
  | active {table : TcpTable} {localAddress remoteAddress : Address} {localPort remotePort window : UInt16}
      {sequence : Sequence} {capacity : Nat} (hfree : (table.endpoints i).valid = false)
      (hvalid : ((tcpEndpointConnect localAddress localPort remoteAddress remotePort sequence window capacity
        table).2.endpoints i).valid = true) :
    Born i isn (watchStep i ⟨table, [], none⟩
      (.connect localAddress localPort remoteAddress remotePort sequence window capacity))

theorem FreshQueue.queue_ok {endpoint : TcpEndpoint} (h : FreshQueue endpoint) :
    QueueOk endpoint ∧ queued endpoint = [] := by
  obtain ⟨hhead, htail, hcount⟩ := h
  refine ⟨⟨?_, ?_, ?_⟩, ?_⟩
  · rw [hcount]
    decide
  · rw [hhead]
    decide
  · rw [htail, hhead, hcount]
    rfl
  · rw [queued, hcount]
    rfl

/-- The answer to a delivery comes from the slot it says, and acknowledges what was received there. -/
theorem response_deliver {table : TcpTable} {source : Address} {answer : TcpResult}
    (h : answer ∈ (tcpEndpointDeliver destination source segment table).1)
    (hhandle : answer.endpointHandle = i + 1) (hack : flagged answer.responseFlags tcpFlagAck) :
    answer.responseAcknowledgment =
      ((tcpEndpointDeliver destination source segment table).2.endpoints i).connection.receiveNext := by
  have hdelivered := delivered destination source segment table
  generalize tcpEndpointDeliver destination source segment table = outcome at hdelivered h ⊢
  have hhear : ∀ {created endpoint j}, answer ∈ (hearSegment created source segment j endpoint).1 →
      answer.responseAcknowledgment = ((table.set j
        (hearSegment created source segment j endpoint).2).endpoints i).connection.receiveNext := by
    intro created endpoint j hanswer
    obtain ⟨hslot, hacknowledges⟩ := hearSegment_answer hanswer
    obtain rfl : i = j := by omega
    rw [set_same]
    exact hacknowledges hack
  cases hdelivered with
  | ignored => exact nomatch h
  | refused => exact nomatch h
  | heard => exact hhear h
  | opened => exact hhear h

theorem Born.ok {start : Watched} (stream : List UInt8) (h : Born i isn start) :
    SlotOk i start ∧ DeliversAcknowledged i isn stream start := by
  cases h with
  | @passive table destination source segment hfree hvalid hsequence =>
    obtain ⟨hslot, hfresh, -, hstate⟩ := deliver_taken hfree hvalid
    rw [Opened] at hstate
    obtain ⟨hqueue, hempty⟩ := hfresh.queue_ok
    have hgot : got i (watchStep i ⟨table, [], none⟩ (.deliver destination source segment)) = [] := hempty
    refine ⟨⟨hslot, hvalid, ?_, hqueue, fun _ => hgot⟩, ⟨?_, ?_, ?_⟩⟩
    · split_ifs at hstate
      · exact fun h => TcpState.noConfusion (hstate.1.symm.trans h)
      · exact fun h => TcpState.noConfusion (hstate.1.symm.trans h)
    · rw [hgot]
      exact nil_prefix
    · rw [hgot]
      split_ifs at hstate
      · exact .unanswered (.inr hstate.1) hstate.2 rfl
      · refine .data (hstate.2.trans ?_)
        rw [hsequence]
        exact (BitVec.add_zero _).symm
    · intro answer hanswer
      obtain ⟨hmem, hhandle⟩ := Option.mem_filter_iff.mp hanswer
      exact response_deliver hmem (beq_iff_eq.mp hhandle)
  | @active table localAddress remoteAddress localPort remotePort window sequence capacity hfree hvalid =>
    obtain ⟨hslot, hfresh, hstate, hnext⟩ := (connect_takes _ _ _ _ _ _ _ _).fresh hfree hvalid
    obtain ⟨hqueue, hempty⟩ := hfresh.queue_ok
    have hgot : got i (watchStep i ⟨table, [], none⟩
        (.connect localAddress localPort remoteAddress remotePort sequence window capacity)) = [] := hempty
    refine ⟨⟨hslot, hvalid, ?_, hqueue, fun _ => hempty⟩, ⟨?_, ?_, fun _ h => absurd h (Option.not_mem_none _)⟩⟩
    · exact fun h => TcpState.noConfusion (hstate.symm.trans h)
    · rw [hgot]
      exact nil_prefix
    · exact .unanswered (.inl hstate) hnext hempty

/-- From the call that took the slot on, what is acknowledged is delivered in every state exactly when
there is room for what is taken at every step. -/
theorem deliversAcknowledged_iff {start : Watched} (h : Born i isn start) {calls : List TcpTableCall}
    (hpeer : Each (watchStep i) (FromPeerTo i isn stream) start calls) :
    Always (watchStep i) (DeliversAcknowledged i isn stream) start calls ↔
      Each (watchStep i) (HasRoom i) start calls :=
  always_iff_each (fun _ _ hok hlegal => slotOk_step hok hlegal)
    (fun _ _ hok hlegal hp => deliversAcknowledged_step hok hlegal hp) (h.ok stream).1 (h.ok stream).2 hpeer

end Runs

section Sample

/-- A table with nothing in it. -/
def emptyTable : TcpTable where
  endpoints _ :=
    { valid := false
      localAddress := Vector.replicate 4 0
      remoteAddress := Vector.replicate 4 0
      connection := tcpConnectionInitialize 0 0
      queue := fun _ => ⟨Vector.replicate 4 0, []⟩
      head := 0
      tail := 0
      count := 0
      dropped := 0 }

/-- A segment from port 1000 of the peer to port 80. -/
def peerSegment (sequence acknowledgment : Sequence) (flags : UInt8) (payload : List UInt8) : TcpSegment where
  sourcePort := 1000
  destinationPort := 80
  sequence := sequence
  acknowledgment := acknowledgment
  flags := flags
  window := 500
  payload := payload

/-- The segment arrives from the peer. -/
def peerSends (sequence acknowledgment : Sequence) (flags : UInt8) (payload : List UInt8) : TcpTableCall :=
  .deliver (sampleHost 2) (sampleHost 1) (peerSegment sequence acknowledgment flags payload)

/-- A listener on port 80. -/
def listening : TcpTable := (tcpEndpointListen (sampleHost 2) 80 500 emptyTable).2

/-- The peer's `SYN` at sequence number 40 takes slot 1. -/
def sampleStart : Watched := watchStep 1 ⟨listening, [], none⟩ (peerSends 40 0 tcpFlagSyn [])

theorem born_sampleStart : Born 1 40 sampleStart := .passive rfl rfl rfl

/-- The handshake is completed and a byte arrives and is taken. -/
def sampleDelivery : List TcpTableCall :=
  [peerSends 41 1 tcpFlagAck [], peerSends 41 1 tcpFlagAck [65], .receive 2 10]

theorem fromPeer_sampleDelivery : Each (watchStep 1) (FromPeerTo 1 40 [65]) sampleStart sampleDelivery := by
  refine ⟨fun _ => ?_, fun _ => ?_, trivial, trivial⟩
  · exact .data 0 (by decide) (by decide) nil_prefix (by decide) (fun h => absurd h (by decide))
      (by decide +kernel)
  · exact .data 0 (by decide) (by decide) (by decide) (by decide) (fun h => absurd h (by decide))
      (by decide +kernel)

theorem deliversAcknowledged_iff_sample :
    Born 1 40 sampleStart ∧ Each (watchStep 1) (FromPeerTo 1 40 [65]) sampleStart sampleDelivery ∧
      Always (watchStep 1) (DeliversAcknowledged 1 40 [65]) sampleStart sampleDelivery := by
  refine ⟨born_sampleStart, fromPeer_sampleDelivery,
    (deliversAcknowledged_iff born_sampleStart fromPeer_sampleDelivery).mpr ⟨?_, ?_, trivial, trivial⟩⟩
  · exact fun _ _ => ⟨fun _ h => absurd rfl h, fun _ => rfl⟩
  · refine fun _ _ => ⟨fun _ _ => by decide +kernel, fun h => absurd h.state (by decide +kernel)⟩

/-- This side ends its stream, the peer acknowledges that, and then ends its own with a last byte. -/
def lastByte : List TcpTableCall :=
  [peerSends 41 1 tcpFlagAck [], .sendSegment 2 [] tcpFlagFin 1500, peerSends 41 2 tcpFlagAck [],
    peerSends 41 2 (tcpFlagAck ||| tcpFlagFin) [65]]

/-- The byte is acknowledged, and nobody gets it. -/
theorem last_byte_lost :
    Born 1 40 sampleStart ∧ Each (watchStep 1) (FromPeerTo 1 40 [65]) sampleStart lastByte ∧
      ¬Always (watchStep 1) (DeliversAcknowledged 1 40 [65]) sampleStart lastByte := by
  refine ⟨born_sampleStart, ⟨fun _ => ?_, trivial, fun _ => ?_, fun _ => ?_, trivial⟩, fun h => ?_⟩
  · exact .data 0 (by decide) (by decide) nil_prefix (by decide) (fun h => absurd h (by decide))
      (by decide +kernel)
  · exact .data 0 (by decide) (by decide) nil_prefix (by decide) (fun h => absurd h (by decide))
      (by decide +kernel)
  · exact .data 0 (by decide) (by decide) (by decide) (by decide) (fun _ => rfl) (by decide +kernel)
  · have hgot : got 1 (run (watchStep 1) sampleStart lastByte) = [] := by decide +kernel
    have hlast : Covered 40 [65] (got 1 (run (watchStep 1) sampleStart lastByte))
        ((run (watchStep 1) sampleStart lastByte).table.endpoints 1).connection := h.2.2.2.2.covered
    rw [hgot] at hlast
    cases hlast with
    | unanswered hstate => exact absurd hstate (by decide +kernel)
    | data hnext => exact absurd hnext (by decide +kernel)
    | fin hbytes => exact nomatch hbytes

end Sample

end KernelBoot.Network
