import KernelBoot.Network.TcpEndpoint
import KernelBoot.Laws.Network.Tcp
import KernelBoot.Lib.Ring

/-!
# What a call on the table does to one slot

A call changes at most one slot. A slot that holds a connection changes when a segment was selected for
it, when its handle is used, and when its segment is sent again; the slots that a listener, a new
connection or the answer to a `SYN` takes are free before.
-/

namespace KernelBoot.Network

open Lib List

variable {result : TcpResult} {call : TcpTableCall}
variable {connection : TcpConnection} {answer : TcpResult} {P : TcpEndpoint → Prop}
  {table' : TcpTable} {destination : Address} {segment : TcpSegment} (now : Nat) (timeout : Nat)

namespace TcpTable

variable {table : TcpTable} {i j : Nat} {endpoint : TcpEndpoint} {found : Nat → TcpEndpoint → Bool}

@[simp] theorem set_same : (table.set i endpoint).endpoints i = endpoint := by
  simp only [set, Function.update_self]

@[simp] theorem set_of_ne (h : i ≠ j) : (table.set j endpoint).endpoints i = table.endpoints i := by
  simp only [set, Function.update_of_ne h]

theorem set_rec {P : TcpEndpoint → Prop} (hsame : i = j → P endpoint)
    (hother : P (table.endpoints i)) : P ((table.set j endpoint).endpoints i) := by
  by_cases h : i = j
  · rw [h, set_same]
    exact hsame h
  · rwa [set_of_ne h]

/-- A free slot that is in use afterwards is the one that was written. -/
theorem eq_of_set_valid (hfree : (table.endpoints i).valid = false)
    (hvalid : ((table.set j endpoint).endpoints i).valid = true) : i = j ∧ endpoint.valid = true := by
  by_cases hij : i = j
  · rw [hij, set_same] at hvalid
    exact ⟨hij, hvalid⟩
  · rw [set_of_ne hij, hfree] at hvalid
    exact absurd hvalid Bool.false_ne_true

theorem found_of_first (h : table.first found = some i) :
    i < tcpEndpointCapacity ∧ found i (table.endpoints i) = true :=
  ⟨mem_range.mp (mem_of_find?_eq_some h), find?_some (p := fun i => found i (table.endpoints i)) h⟩

theorem not_found_of_first (h : table.first found = none) (hi : i < tcpEndpointCapacity) :
    found i (table.endpoints i) = false := by
  have hnone := find?_eq_none.mp h i (mem_range.mpr hi)
  exact Bool.not_eq_true _ |>.mp hnone

theorem free_of_firstFree (h : table.firstFree = some i) : (table.endpoints i).valid = false := by
  have hfree := (found_of_first h).2
  exact Bool.not_eq_true' _ |>.mp hfree

theorem slotFor_eq_some_iff {handle : Nat} :
    table.slotFor handle = some i ↔
      handle = i + 1 ∧ i < tcpEndpointCapacity ∧ (table.endpoints i).valid = true := by
  rw [slotFor]
  split_ifs with hhandle hvalid
  · refine iff_of_false nofun fun h => ?_
    omega
  · rw [Option.some.injEq]
    constructor
    · intro h
      subst h
      exact ⟨by omega, by omega, hvalid⟩
    · intro h
      omega
  · refine iff_of_false nofun fun h => hvalid ?_
    rw [h.1, Nat.add_sub_cancel]
    exact h.2.2

end TcpTable

open TcpTable

section Deliver

variable {table : TcpTable} {i : Nat} {destination source : Address} {segment : TcpSegment}

theorem selected_of_select (h : selectEndpoint destination source segment table = some i) :
    i < tcpEndpointCapacity ∧ (table.endpoints i).valid = true ∧
      (table.endpoints i).connection.localPort = segment.destinationPort ∧
      (connectedTo destination source segment (table.endpoints i) ∨
        flagged segment.flags tcpFlagSyn ∧ (table.endpoints i).connection.state = .listen) := by
  rw [selectEndpoint] at h
  split at h
  · next j hfirst =>
    obtain rfl := Option.some.inj h
    obtain ⟨hi, hfound⟩ := found_of_first hfirst
    rw [Bool.and_eq_true, decide_eq_true_eq] at hfound
    exact ⟨hi, hfound.1, hfound.2.1, .inl hfound.2⟩
  · split_ifs at h with hsyn
    obtain ⟨hi, hfound⟩ := found_of_first h
    rw [Bool.and_eq_true, decide_eq_true_eq] at hfound
    exact ⟨hi, hfound.1, hfound.2.2.1, .inr ⟨hsyn, hfound.2.1⟩⟩

/-- The connection that a listener gives to a `SYN`, before it hears it. -/
def newChild (parent slot : TcpEndpoint) : TcpEndpoint :=
  emptyQueue { childOf parent slot with
    connection := (tcpConnectionListen (childOf parent slot).connection).2 }

theorem listen_childOf {parent slot : TcpEndpoint} (hport : parent.connection.localPort ≠ 0) :
    tcpConnectionListen (childOf parent slot).connection =
      (some (), { (childOf parent slot).connection with state := .listen }) := by
  refine if_neg ?_
  rintro (h | h)
  · exact hport h
  · exact h rfl

/-- What `tcp_endpoint_deliver` does: nothing, or the selected endpoint hears the segment, or a free slot
is taken for it. -/
inductive Delivered (destination source : Address) (segment : TcpSegment) (table : TcpTable) :
    Option TcpResult × TcpTable → Prop
  | ignored (h : ∀ i, selectEndpoint destination source segment table = some i →
      segment.payload.length ≤ tcpEndpointPayloadMax → (table.endpoints i).connection.state = .listen) :
    Delivered destination source segment table (none, table)
  | heard {i : Nat} (hselected : selectEndpoint destination source segment table = some i)
      (hsize : segment.payload.length ≤ tcpEndpointPayloadMax)
      (hlisten : ¬((table.endpoints i).connection.state = .listen ∧ flagged segment.flags tcpFlagSyn)) :
    Delivered destination source segment table
      ((hearSegment false source segment i (table.endpoints i)).map id (table.set i))
  | refused {i j : Nat} (hselected : selectEndpoint destination source segment table = some i)
      (hlisten : (table.endpoints i).connection.state = .listen) (hfree : table.firstFree = some j)
      (endpoint : TcpEndpoint) (hvalid : endpoint.valid = false) :
    Delivered destination source segment table (none, table.set j endpoint)
  | opened {i j : Nat} (hselected : selectEndpoint destination source segment table = some i)
      (hsize : segment.payload.length ≤ tcpEndpointPayloadMax)
      (hlisten : (table.endpoints i).connection.state = .listen)
      (hsyn : flagged segment.flags tcpFlagSyn) (hfree : table.firstFree = some j)
      (hport : (table.endpoints i).connection.localPort ≠ 0) :
    Delivered destination source segment table
      ((hearSegment true source segment j (newChild (table.endpoints i) (table.endpoints j))).map id
        (table.set j))

theorem delivered (destination source : Address) (segment : TcpSegment) (table : TcpTable) :
    Delivered destination source segment table (tcpEndpointDeliver destination source segment table) := by
  fun_cases tcpEndpointDeliver destination source segment table
  next hsize => exact .ignored fun i _ h => absurd h (not_le.mpr hsize)
  next hselect => exact .ignored fun i h => absurd (h.symm.trans hselect) (Option.some_ne_none i)
  next i hselect hlisten hfree =>
    refine .ignored fun k h _ => ?_
    obtain rfl := Option.some.inj (hselect.symm.trans h)
    exact hlisten.1
  next hselect hlisten j hfree _ _ _ => exact .refused hselect hlisten.1 hfree _ rfl
  next hsize i hselect hlisten j hfree child connection hlistens =>
    have hport : (table.endpoints i).connection.localPort ≠ 0 := by
      intro hport
      rw [tcpConnectionListen, if_pos (.inl hport)] at hlistens
      cases hlistens
    have hopened := Delivered.opened hselect (not_lt.mp hsize) hlisten.1 hlisten.2 hfree hport
    rwa [newChild, hlistens] at hopened
  next hsize i hselect hlisten => exact .heard hselect (not_lt.mp hsize) hlisten

end Deliver

section Hear

variable {source : Address} {segment : TcpSegment} {i : Nat} {endpoint : TcpEndpoint} {created : Bool}

theorem hearSegment_none (h : tcpConnectionReceive segment endpoint.connection = (none, connection)) :
    hearSegment created source segment i endpoint =
      (none, { endpoint with connection, valid := endpoint.valid && !created }) := by
  rw [hearSegment, h]

/-- The endpoint has the same bytes in its queue. -/
def SameQueue (endpoint endpoint' : TcpEndpoint) : Prop :=
  endpoint'.valid = endpoint.valid ∧ endpoint'.queue = endpoint.queue ∧ endpoint'.head = endpoint.head ∧
    endpoint'.tail = endpoint.tail ∧ endpoint'.count = endpoint.count

/-- The answer of the connection, sent from slot `i`. -/
structure SentFrom (i : Nat) (result answer : TcpResult) : Prop where
  handle : answer.endpointHandle = i + 1
  flags : answer.responseFlags = result.responseFlags
  acknowledgment : answer.responseAcknowledgment = result.responseAcknowledgment
  payload : answer.acceptedPayload = result.acceptedPayload

theorem hearSegment_some (created : Bool) (source : Address) (i : Nat)
    (h : tcpConnectionReceive segment endpoint.connection = (some result, connection)) :
    ∃ answer heard, SentFrom i result answer ∧ SameQueue endpoint heard ∧ heard.connection = connection ∧
      hearSegment created source segment i endpoint = enqueue source segment answer heard := by
  refine ⟨{ result with endpointHandle := i + 1 }, { endpoint with
    connection
    remoteAddress := if connection.remotePort = segment.sourcePort then source
      else endpoint.remoteAddress }, ⟨rfl, rfl, rfl, rfl⟩, ⟨rfl, rfl, rfl, rfl, rfl⟩, rfl, ?_⟩
  rw [hearSegment, h]

theorem enqueue_kept (result : TcpResult) :
    (enqueue source segment result endpoint).2.connection = endpoint.connection ∧
      (enqueue source segment result endpoint).2.valid = endpoint.valid := by
  rw [enqueue]
  split_ifs
  all_goals exact ⟨rfl, rfl⟩

/-- Whatever happens to the queue, the connection is the one `tcp_connection_receive` leaves. -/
theorem hearSegment_connection :
    (hearSegment created source segment i endpoint).2.connection =
      (tcpConnectionReceive segment endpoint.connection).2 := by
  rw [hearSegment]
  split
  · next h => rw [h]
  · next h => rw [h, (enqueue_kept _).1]

theorem hearSegment_valid : (hearSegment false source segment i endpoint).2.valid = endpoint.valid := by
  rw [hearSegment]
  split
  · exact Bool.and_true _
  · rw [(enqueue_kept _).2]

theorem enqueue_answer (h : answer ∈ (enqueue source segment result endpoint).1) :
    answer = result := by
  revert h
  fun_cases enqueue source segment result endpoint
  · rintro ⟨⟩
  · rintro ⟨⟩
    rfl
  · rintro ⟨⟩
    rfl

/-- The answer comes from the slot, and acknowledges what its connection received. -/
theorem hearSegment_answer (h : answer ∈ (hearSegment created source segment i endpoint).1) :
    answer.endpointHandle = i + 1 ∧
      (flagged answer.responseFlags tcpFlagAck → answer.responseAcknowledgment =
        (hearSegment created source segment i endpoint).2.connection.receiveNext) := by
  have hreceived := received segment endpoint.connection
  rw [hearSegment_connection]
  match hreceive : tcpConnectionReceive segment endpoint.connection with
  | (none, connection) =>
    rw [hearSegment_none hreceive] at h
    exact nomatch h
  | (some result, connection) =>
    rw [hreceive] at hreceived
    obtain ⟨sent, heard, hsent, -, -, heq⟩ := hearSegment_some created source i hreceive
    rw [heq] at h
    rw [enqueue_answer h]
    refine ⟨hsent.handle, fun hack => ?_⟩
    rw [hsent.flags] at hack
    exact hsent.acknowledgment.trans (received_response hreceived hack)

/-- A segment that brings no payload leaves the queue alone. -/
theorem enqueue_nothing (h : result.acceptedPayload = 0) :
    enqueue source segment result endpoint = (some result, endpoint) := if_neg (not_not.mpr h)

end Hear

section Slots

variable {table : TcpTable} {i : Nat}

/-- A slot in use is not the one that a new endpoint takes. -/
theorem ne_of_firstFree {j : Nat} (hvalid : (table.endpoints i).valid = true)
    (hfree : table.firstFree = some j) : i ≠ j := by
  rintro rfl
  exact nomatch hvalid.symm.trans (free_of_firstFree hfree)

/-- What a call does that gives a free slot to a new endpoint: nothing, or the slot is taken and given
back, or the new endpoint is in it. -/
inductive TakesSlot (table : TcpTable) (P : TcpEndpoint → Prop) : TcpTable → Prop
  | unchanged : TakesSlot table P table
  | released {j : Nat} {endpoint : TcpEndpoint} (hfree : table.firstFree = some j)
      (hinvalid : endpoint.valid = false) : TakesSlot table P (table.set j endpoint)
  | taken {j : Nat} {endpoint : TcpEndpoint} (hfree : table.firstFree = some j) (h : P endpoint) :
    TakesSlot table P (table.set j endpoint)

theorem TakesSlot.kept (h : TakesSlot table P table') (hvalid : (table.endpoints i).valid = true) :
    table'.endpoints i = table.endpoints i := by
  cases h with
  | unchanged => rfl
  | released hfree => exact set_of_ne (ne_of_firstFree hvalid hfree)
  | taken hfree => exact set_of_ne (ne_of_firstFree hvalid hfree)

theorem TakesSlot.fresh (h : TakesSlot table P table')
    (hinvalid : (table.endpoints i).valid = false) (hvalid : (table'.endpoints i).valid = true) :
    i < tcpEndpointCapacity ∧ P (table'.endpoints i) := by
  cases h with
  | unchanged => exact absurd (hinvalid.symm.trans hvalid) Bool.false_ne_true
  | released hfree hreleased =>
    exact absurd (hreleased.symm.trans (eq_of_set_valid hinvalid hvalid).2) Bool.false_ne_true
  | taken hfree hP =>
    obtain ⟨rfl, -⟩ := eq_of_set_valid hinvalid hvalid
    rw [set_same]
    exact ⟨(found_of_first hfree).1, hP⟩

theorem listen_takes (table : TcpTable) (localAddress : Address) (localPort window : UInt16) :
    TakesSlot table (fun endpoint => endpoint.connection.state = .listen)
      (tcpEndpointListen localAddress localPort window table).2 := by
  fun_cases tcpEndpointListen localAddress localPort window table
  · exact .unchanged
  · exact .unchanged
  · exact .unchanged
  next hfree _ _ _ => exact .released hfree rfl
  next hfree endpoint _ hlisten =>
    refine .taken hfree ?_
    revert hlisten
    fun_cases tcpConnectionListen endpoint.connection
    · rintro ⟨⟩
    · rintro ⟨⟩
      rfl

/-- A connection that nothing was received on. -/
structure FreshQueue (endpoint : TcpEndpoint) : Prop where
  head : endpoint.head = 0
  tail : endpoint.tail = 0
  count : endpoint.count = 0

theorem SameQueue.fresh {endpoint endpoint' : TcpEndpoint} (h : SameQueue endpoint endpoint')
    (hfresh : FreshQueue endpoint) : FreshQueue endpoint' :=
  ⟨h.2.2.1.trans hfresh.head, h.2.2.2.1.trans hfresh.tail, h.2.2.2.2.trans hfresh.count⟩

/-- A connection whose peer has not answered. -/
def Connecting (endpoint : TcpEndpoint) : Prop :=
  FreshQueue endpoint ∧ endpoint.connection.state = .synSent ∧ endpoint.connection.receiveNext = 0

theorem connect_takes (table : TcpTable) (localAddress : Address) (localPort : UInt16)
    (remoteAddress : Address) (remotePort : UInt16) (sequence : Sequence) (window : UInt16) (capacity : Nat) :
    TakesSlot table Connecting
      (tcpEndpointConnect localAddress localPort remoteAddress remotePort sequence window capacity table).2 := by
  fun_cases tcpEndpointConnect localAddress localPort remoteAddress remotePort sequence window capacity table
  · exact .unchanged
  · exact .unchanged
  · exact .unchanged
  next hfree _ _ => exact .released hfree (free_of_firstFree hfree)
  next hfree _ _ _ _ => exact .released hfree rfl
  next hfree _ _ _ _ _ _ _ => exact .released hfree rfl
  next hfree opened hopen endpoint segment _ connection hrecord =>
    have hstate : opened.state = .synSent ∧ opened.receiveNext = 0 := by
      revert hopen
      fun_cases tcpConnectionOpen sequence remotePort (tcpConnectionInitialize localPort window)
      · rintro ⟨⟩
      · rintro ⟨⟩
        exact ⟨rfl, rfl⟩
    refine .taken hfree ⟨⟨rfl, rfl, rfl⟩, ?_⟩
    revert hrecord
    fun_cases tcpConnectionRecordSegment segment endpoint.connection
    · rintro ⟨⟩
    · rintro ⟨⟩
      exact hstate

/-- The connection with another date and number of tries. -/
def redated (tick retries : Nat) (endpoint : TcpEndpoint) : TcpEndpoint :=
  { endpoint with
    connection := { endpoint.connection with
      retransmissionLastTick := tick, retransmissionRetries := retries } }

theorem redated_self (endpoint : TcpEndpoint) :
    redated endpoint.connection.retransmissionLastTick endpoint.connection.retransmissionRetries endpoint =
      endpoint := rfl

theorem retransmitDue_redates (now timeout capacity : Nat) (endpoint : TcpEndpoint) :
    ∃ tick retries, { endpoint with
      connection := (tcpConnectionRetransmitDue now timeout capacity endpoint.connection).2 } =
        redated tick retries endpoint := by
  rw [tcpConnectionRetransmitDue]
  split_ifs
  · exact ⟨_, _, (redated_self endpoint).symm⟩
  · exact ⟨_, _, rfl⟩

theorem retransmitDue_slot (table : TcpTable) (i handle now timeout capacity : Nat) :
    ∃ tick retries, (tcpEndpointRetransmitDue handle now timeout capacity table).2.endpoints i =
      redated tick retries (table.endpoints i) := by
  rw [tcpEndpointRetransmitDue]
  split
  · exact ⟨_, _, (redated_self _).symm⟩
  · next j hslot =>
    refine set_rec (P := fun e => ∃ tick retries, e = redated tick retries (table.endpoints i)) ?_
      ⟨_, _, (redated_self _).symm⟩
    rintro rfl
    exact retransmitDue_redates now timeout capacity _

theorem retransmitNextLoop_slot (capacity : Nat) (slots : List Nat) :
    ∃ tick retries, (retransmitNextLoop now timeout capacity table slots).2.2.endpoints i =
      redated tick retries (table.endpoints i) := by
  fun_induction retransmitNextLoop now timeout capacity table slots with
  | case1 => exact ⟨_, _, (redated_self _).symm⟩
  | case2 _ _ _ _ _ _ ih | case4 _ _ _ _ ih => exact ih
  | case3 j slots endpoint hvalid segment connection hdue =>
    refine set_rec (P := fun e => ∃ tick retries, e = redated tick retries (table.endpoints i)) ?_
      ⟨_, _, (redated_self _).symm⟩
    rintro rfl
    have hsame := retransmitDue_redates now timeout capacity (table.endpoints i)
    rwa [hdue] at hsame

theorem retransmitNext_slot (table : TcpTable) (i cursor now timeout capacity : Nat) :
    ∃ tick retries, (tcpEndpointRetransmitNext cursor now timeout capacity table).2.2.endpoints i =
      redated tick retries (table.endpoints i) := by
  rw [tcpEndpointRetransmitNext]
  split_ifs
  · exact ⟨_, _, (redated_self _).symm⟩
  · exact retransmitNextLoop_slot now timeout capacity _

/-- What the calls on handles do to the endpoint of slot `i`. -/
inductive Touched (i : Nat) (endpoint : TcpEndpoint) : TcpTableCall → TcpEndpoint → Prop
  | same (call : TcpTableCall) : Touched i endpoint call endpoint
  | unbound : Touched i endpoint (.unbind (i + 1)) { endpoint with valid := false }
  | built (handle : Nat) (payload : List UInt8) (flags : UInt8) (capacity : Nat) :
    Touched i endpoint (.sendSegment handle payload flags capacity)
      { endpoint with
        connection := (tcpConnectionBuild endpoint.localAddress endpoint.remoteAddress flags payload capacity
          endpoint.connection).2 }
  | redated (call : TcpTableCall) (tick retries : Nat) :
    Touched i endpoint call (redated tick retries endpoint)
  | popped (capacity : Nat) :
    Touched i endpoint (.receive (i + 1) capacity)
      { endpoint with
        head := (endpoint.head + 1) % tcpEndpointQueueCapacity, count := endpoint.count - 1 }

def TcpTableCall.delivers : TcpTableCall → Bool
  | .deliver _ _ _ => true
  | _ => false

theorem TcpTableCall.eq_deliver (h : ¬call.delivers = false) :
    ∃ destination source segment, call = .deliver destination source segment := by
  cases call with
  | deliver destination source segment => exact ⟨_, _, _, rfl⟩
  | listen | connect | unbind | accept | sendSegment | retransmitDue | retransmitNext | receive =>
    exact absurd rfl h

/-- The calls that may take a free slot. -/
def TcpTableCall.takes : TcpTableCall → Bool
  | .deliver _ _ _ | .listen _ _ _ | .connect _ _ _ _ _ _ _ => true
  | _ => false

theorem touched (table : TcpTable) (i : Nat) (h : call.takes = false) :
    Touched i (table.endpoints i) call ((tcpTableStep table call).endpoints i) := by
  cases call with
  | deliver | listen | connect => exact nomatch h
  | accept => exact .same _
  | unbind handle =>
    rw [tcpTableStep]
    fun_cases tcpEndpointUnbind handle table
    · exact .same _
    next hslot =>
      refine set_rec (P := Touched i _ _) ?_ (.same _)
      rintro rfl
      obtain ⟨rfl, -⟩ := slotFor_eq_some_iff.mp hslot
      exact .unbound
  | sendSegment handle payload flags capacity =>
    rw [tcpTableStep]
    fun_cases tcpEndpointSendSegment handle payload flags capacity table
    · exact .same _
    · exact .same _
    · refine set_rec (P := Touched i _ _) ?_ (.same _)
      rintro rfl
      exact .built handle payload flags capacity
  | retransmitDue handle now timeout capacity =>
    obtain ⟨tick, retries, h⟩ := retransmitDue_slot table i handle now timeout capacity
    rw [tcpTableStep, h]
    exact .redated _ tick retries
  | retransmitNext cursor now timeout capacity =>
    obtain ⟨tick, retries, h⟩ := retransmitNext_slot table i cursor now timeout capacity
    rw [tcpTableStep, h]
    exact .redated _ tick retries
  | receive handle capacity =>
    rw [tcpTableStep]
    fun_cases tcpEndpointReceive handle capacity table
    · exact .same _
    · exact .same _
    next hslot _ _ _ =>
      refine set_rec (P := Touched i _ _) ?_ (.same _)
      rintro rfl
      obtain ⟨rfl, -⟩ := slotFor_eq_some_iff.mp hslot
      exact .popped capacity

/-- A slot in use is only changed by what is delivered to it and by the calls on its handle. -/
theorem touched_used (hvalid : (table.endpoints i).valid = true) (h : call.delivers = false) :
    Touched i (table.endpoints i) call ((tcpTableStep table call).endpoints i) := by
  cases call with
  | deliver => exact nomatch h
  | listen localAddress localPort window =>
    rw [tcpTableStep, (listen_takes table localAddress localPort window).kept hvalid]
    exact .same _
  | connect localAddress localPort remoteAddress remotePort sequence window capacity =>
    rw [tcpTableStep, (connect_takes table localAddress localPort remoteAddress remotePort sequence window
      capacity).kept hvalid]
    exact .same _
  | unbind | accept | sendSegment | retransmitDue | retransmitNext | receive => exact touched table i rfl

/-- What `tcp_endpoint_deliver` does to a slot in use: nothing, or the slot hears the segment. -/
theorem deliver_used {source : Address} (hvalid : (table.endpoints i).valid = true) :
    (tcpEndpointDeliver destination source segment table).2.endpoints i = table.endpoints i ∨
      selectEndpoint destination source segment table = some i ∧
        ¬((table.endpoints i).connection.state = .listen ∧ flagged segment.flags tcpFlagSyn) ∧
        (tcpEndpointDeliver destination source segment table).2.endpoints i =
          (hearSegment false source segment i (table.endpoints i)).2 := by
  have hdelivered := delivered destination source segment table
  generalize tcpEndpointDeliver destination source segment table = outcome at hdelivered ⊢
  cases hdelivered with
  | ignored => exact .inl rfl
  | @heard j hselected hsize hlisten =>
    by_cases hij : i = j
    · subst hij
      exact .inr ⟨hselected, hlisten, set_same⟩
    · exact .inl (set_of_ne hij)
  | refused _ _ hfree | opened _ _ _ _ hfree => exact .inl (set_of_ne (ne_of_firstFree hvalid hfree))

/-- What became of a `SYN` that a listener gave a slot to: the connection waits for the peer, or it is
closed if the segment resets it too. -/
def Opened (segment : TcpSegment) (connection : TcpConnection) : Prop :=
  if flagged segment.flags tcpFlagRst then connection.state = .closed ∧ connection.receiveNext = 0
  else connection.state = .synReceived ∧ connection.receiveNext = segment.sequence + 1

theorem child_heard {parent slot : TcpEndpoint} (source : Address) (j : Nat)
    (hport : parent.connection.localPort ≠ 0)
    (hdestination : parent.connection.localPort = segment.destinationPort)
    (hsyn : flagged segment.flags tcpFlagSyn) :
    FreshQueue (hearSegment true source segment j (newChild parent slot)).2 ∧
      Opened segment (hearSegment true source segment j (newChild parent slot)).2.connection := by
  have hlisten : (newChild parent slot).connection =
      { tcpConnectionInitialize parent.connection.localPort parent.connection.window with state := .listen } :=
    congrArg Prod.snd (listen_childOf hport)
  have haddressed : addressed segment (newChild parent slot).connection := by
    rw [hlisten]
    exact ⟨hdestination.symm, fun h => absurd rfl h⟩
  have hstate : (newChild parent slot).connection.state = .listen := by rw [hlisten]
  have hfresh : FreshQueue (newChild parent slot) := ⟨rfl, rfl, rfl⟩
  by_cases hreset : flagged segment.flags tcpFlagRst
  · obtain ⟨answer, heard, hsent, hsame, hconnection, heq⟩ :=
      hearSegment_some true source j (receive_of_reset haddressed hreset)
    rw [heq, enqueue_nothing hsent.payload, Opened, if_pos hreset, hconnection, hlisten]
    exact ⟨hsame.fresh hfresh, rfl, rfl⟩
  · obtain ⟨answer, heard, hsent, hsame, hconnection, heq⟩ :=
      hearSegment_some true source j (receive_of_opens ⟨haddressed, hreset, hstate, hsyn⟩)
    rw [heq, enqueue_nothing hsent.payload, Opened, if_neg hreset, hconnection, hlisten]
    exact ⟨hsame.fresh hfresh, rfl, rfl⟩

/-- The slot that a delivery took. -/
theorem deliver_taken {source : Address} (hfree : (table.endpoints i).valid = false)
    (hvalid : ((tcpEndpointDeliver destination source segment table).2.endpoints i).valid = true) :
    i < tcpEndpointCapacity ∧
      FreshQueue ((tcpEndpointDeliver destination source segment table).2.endpoints i) ∧
      (∃ j, selectEndpoint destination source segment table = some j ∧
        (table.endpoints j).connection.state = .listen ∧ flagged segment.flags tcpFlagSyn) ∧
      Opened segment ((tcpEndpointDeliver destination source segment table).2.endpoints i).connection := by
  have hdelivered := delivered destination source segment table
  generalize tcpEndpointDeliver destination source segment table = outcome at hdelivered hvalid ⊢
  cases hdelivered with
  | ignored => exact absurd (hfree.symm.trans hvalid) Bool.false_ne_true
  | heard hselected =>
    obtain ⟨rfl, -⟩ := eq_of_set_valid hfree hvalid
    exact absurd (hfree.symm.trans (selected_of_select hselected).2.1) Bool.false_ne_true
  | refused _ _ _ _ hinvalid =>
    exact absurd (hinvalid.symm.trans (eq_of_set_valid hfree hvalid).2) Bool.false_ne_true
  | opened hselected hsize hlisten hsyn hfirst hport =>
    obtain ⟨rfl, -⟩ := eq_of_set_valid hfree hvalid
    obtain ⟨-, -, hdestination, -⟩ := selected_of_select hselected
    obtain ⟨hfresh, hstate⟩ := child_heard source i hport hdestination hsyn
    rw [Prod.map_snd, set_same]
    exact ⟨(found_of_first hfirst).1, hfresh, ⟨_, hselected, hlisten, hsyn⟩, hstate⟩

/-- What `tcp_endpoint_deliver` does to a slot that holds a connection: the slot hears the segment if it
was selected, and otherwise it is left alone. -/
theorem deliver_at (destination source : Address) (segment : TcpSegment)
    (hvalid : (table.endpoints i).valid = true) (hstate : (table.endpoints i).connection.state ≠ .listen) :
    if selectEndpoint destination source segment table = some i ∧
        segment.payload.length ≤ tcpEndpointPayloadMax then
      (tcpEndpointDeliver destination source segment table).1 =
          (hearSegment false source segment i (table.endpoints i)).1 ∧
        (tcpEndpointDeliver destination source segment table).2.endpoints i =
          (hearSegment false source segment i (table.endpoints i)).2
    else
      (∀ answer ∈ (tcpEndpointDeliver destination source segment table).1, answer.endpointHandle ≠ i + 1) ∧
        (tcpEndpointDeliver destination source segment table).2.endpoints i = table.endpoints i := by
  have hdelivered := delivered destination source segment table
  have hother : ∀ {j}, selectEndpoint destination source segment table = some j →
      (table.endpoints j).connection.state = .listen →
      ¬(selectEndpoint destination source segment table = some i ∧
        segment.payload.length ≤ tcpEndpointPayloadMax) := by
    intro j hselected hlisten h
    obtain rfl := Option.some.inj (h.1.symm.trans hselected)
    exact hstate hlisten
  generalize tcpEndpointDeliver destination source segment table = outcome at hdelivered
  cases hdelivered with
  | ignored h =>
    rw [if_neg fun hselected => hstate (h i hselected.1 hselected.2)]
    exact ⟨nofun, rfl⟩
  | @heard j hselected hsize _ =>
    by_cases hij : i = j
    · subst hij
      rw [if_pos ⟨hselected, hsize⟩]
      exact ⟨rfl, set_same⟩
    · rw [if_neg fun h => hij (Option.some.inj (h.1.symm.trans hselected))]
      refine ⟨fun answer h hhandle => hij ?_, set_of_ne hij⟩
      have := (hearSegment_answer h).1
      omega
  | @refused j k hselected hlisten hfree _ _ =>
    rw [if_neg (hother hselected hlisten)]
    exact ⟨nofun, set_of_ne (ne_of_firstFree hvalid hfree)⟩
  | @opened j k hselected hsize hlisten _ hfree _ =>
    have hne := ne_of_firstFree hvalid hfree
    rw [if_neg (hother hselected hlisten)]
    refine ⟨fun answer h hhandle => hne ?_, set_of_ne hne⟩
    have := (hearSegment_answer h).1
    omega

end Slots

end KernelBoot.Network
