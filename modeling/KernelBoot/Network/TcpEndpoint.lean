import KernelBoot.Network.Tcp

/-!
# TCP endpoints (`kernel/drivers/network/tcp_endpoint.c`)

Eight slots hold the listeners and the connections of the host. A segment goes to the connection it
names; a `SYN` for none of them goes to a listener, which gives it a slot of its own. What arrives in
order waits in a ring of eight buffers until `tcp_endpoint_receive` takes it. The calls take the table's
lock; here they are one after the other.
-/

namespace KernelBoot.Network

/-- `TCP_ENDPOINT_CAPACITY`. -/
def tcpEndpointCapacity : Nat := 8

/-- `TCP_ENDPOINT_QUEUE_CAPACITY`. -/
def tcpEndpointQueueCapacity : Nat := 8

/-- `TCP_ENDPOINT_PAYLOAD_MAX`. -/
def tcpEndpointPayloadMax : Nat := 1500

/-- `tcp_stream_data_t`; the payload is its first `length` bytes. -/
structure StreamData where
  sourceAddress : Address
  payload : List UInt8

/-- `tcp_endpoint_t`. -/
structure TcpEndpoint where
  valid : Bool
  localAddress : Address
  remoteAddress : Address
  connection : TcpConnection
  queue : Nat → StreamData
  head : Nat
  tail : Nat
  count : Nat
  dropped : Nat

/-- `tcp_endpoint_table_t`: the slots below `tcpEndpointCapacity`. -/
structure TcpTable where
  endpoints : Nat → TcpEndpoint

namespace TcpTable

/-- The table with another endpoint in a slot. -/
def set (table : TcpTable) (i : Nat) (endpoint : TcpEndpoint) : TcpTable where
  endpoints := Function.update table.endpoints i endpoint

/-- The first slot that a loop over the table stops at. -/
def first (table : TcpTable) (found : Nat → TcpEndpoint → Bool) : Option Nat :=
  (List.range tcpEndpointCapacity).find? fun i => found i (table.endpoints i)

/-- The first slot that is free. -/
def firstFree (table : TcpTable) : Option Nat := table.first fun _ endpoint => !endpoint.valid

/-- `endpoint_for`: the slot of a handle that is in use. -/
def slotFor (table : TcpTable) (handle : Nat) : Option Nat :=
  if handle = 0 ∨ tcpEndpointCapacity < handle then none
  else if (table.endpoints (handle - 1)).valid then some (handle - 1) else none

end TcpTable

/-- `wildcard`. -/
def wildcard (address : Address) : Prop := ∀ i : Fin 4, address[i] = 0

instance (address : Address) : Decidable (wildcard address) :=
  inferInstanceAs (Decidable (∀ i : Fin 4, address[i] = 0))

/-- The endpoint answers for an address. -/
def answersFor (endpoint : TcpEndpoint) (address : Address) : Prop :=
  wildcard endpoint.localAddress ∨ endpoint.localAddress = address

instance (endpoint : TcpEndpoint) (address : Address) : Decidable (answersFor endpoint address) :=
  inferInstanceAs (Decidable (_ ∨ _))

/-- `tcp_endpoint_table_initialize`. -/
def tcpEndpointTableInitialize (table : TcpTable) : TcpTable where
  endpoints i := { table.endpoints i with valid := false }

/-- The endpoint with an empty queue. -/
def emptyQueue (endpoint : TcpEndpoint) : TcpEndpoint :=
  { endpoint with head := 0, tail := 0, count := 0, dropped := 0 }

/-- `tcp_endpoint_listen`, which answers with a handle. -/
def tcpEndpointListen (localAddress : Address) (localPort window : UInt16) (table : TcpTable) :
    Option Nat × TcpTable :=
  if localPort = 0 then (none, table)
  else if (table.first fun _ endpoint => endpoint.valid && decide (endpoint.connection.localPort = localPort ∧
      (wildcard localAddress ∨ answersFor endpoint localAddress))).isSome then (none, table)
  else
    match table.firstFree with
    | none => (none, table)
    | some i =>
      let endpoint : TcpEndpoint :=
        { table.endpoints i with
          valid := true, localAddress, connection := tcpConnectionInitialize localPort window }
      match tcpConnectionListen endpoint.connection with
      | (none, connection) => (none, table.set i { endpoint with connection, valid := false })
      | (some (), connection) => (some (i + 1), table.set i (emptyQueue { endpoint with connection }))

/-- `tcp_endpoint_connect`, which answers with a handle and the first segment. -/
def tcpEndpointConnect (localAddress : Address) (localPort : UInt16) (remoteAddress : Address)
    (remotePort : UInt16) (sequence : Sequence) (window : UInt16) (capacity : Nat) (table : TcpTable) :
    Option (Nat × List UInt8) × TcpTable :=
  if localPort = 0 ∨ remotePort = 0 then (none, table)
  else if (table.first fun _ endpoint => endpoint.valid && decide (endpoint.connection.localPort = localPort ∧
      endpoint.connection.remotePort = remotePort ∧ endpoint.localAddress = localAddress ∧
      endpoint.remoteAddress = remoteAddress)).isSome then (none, table)
  else
    match table.firstFree with
    | none => (none, table)
    | some i =>
      match tcpConnectionOpen sequence remotePort (tcpConnectionInitialize localPort window) with
      | (none, connection) => (none, table.set i { table.endpoints i with connection })
      | (some (), opened) =>
        let endpoint : TcpEndpoint :=
          emptyQueue { table.endpoints i with
            valid := true, localAddress, remoteAddress, connection := { opened with window } }
        match tcpSegmentBuild capacity localAddress remoteAddress localPort remotePort sequence 0 tcpFlagSyn
            window [] with
        | none => (none, table.set i { endpoint with valid := false })
        | some segment =>
          match tcpConnectionRecordSegment segment endpoint.connection with
          | (none, connection) => (none, table.set i { endpoint with connection, valid := false })
          | (some (), connection) => (some (i + 1, segment), table.set i { endpoint with connection })

/-- `tcp_endpoint_unbind`. -/
def tcpEndpointUnbind (handle : Nat) (table : TcpTable) : Option Unit × TcpTable :=
  match table.slotFor handle with
  | none => (none, table)
  | some i => (some (), table.set i { table.endpoints i with valid := false })

/-- `tcp_endpoint_accept`, which answers with a handle. -/
def tcpEndpointAccept (listener : Nat) (table : TcpTable) : Option Nat :=
  match table.slotFor listener with
  | none => none
  | some parent =>
    if (table.endpoints parent).connection.state ≠ .listen then none
    else
      (table.first fun i endpoint => endpoint.valid && decide (i ≠ parent ∧
        endpoint.connection.localPort = (table.endpoints parent).connection.localPort ∧
        endpoint.connection.state = .synReceived)).map (· + 1)

/-- The endpoint is the one that a segment names. -/
def connectedTo (destination source : Address) (segment : TcpSegment) (endpoint : TcpEndpoint) : Prop :=
  endpoint.connection.localPort = segment.destinationPort ∧ answersFor endpoint destination ∧
    endpoint.connection.remotePort ≠ 0 ∧ endpoint.connection.remotePort = segment.sourcePort ∧
    endpoint.remoteAddress = source

instance (destination source : Address) (segment : TcpSegment) (endpoint : TcpEndpoint) :
    Decidable (connectedTo destination source segment endpoint) := inferInstanceAs (Decidable (_ ∧ _))

/-- The endpoint is a listener for the segment's port. -/
def listensFor (destination : Address) (segment : TcpSegment) (endpoint : TcpEndpoint) : Prop :=
  endpoint.connection.state = .listen ∧ endpoint.connection.localPort = segment.destinationPort ∧
    answersFor endpoint destination

instance (destination : Address) (segment : TcpSegment) (endpoint : TcpEndpoint) :
    Decidable (listensFor destination segment endpoint) := inferInstanceAs (Decidable (_ ∧ _))

/-- The two searches of `tcp_endpoint_deliver`. -/
def selectEndpoint (destination source : Address) (segment : TcpSegment) (table : TcpTable) : Option Nat :=
  match table.first fun _ endpoint =>
      endpoint.valid && decide (connectedTo destination source segment endpoint) with
  | some i => some i
  | none =>
    if flagged segment.flags tcpFlagSyn then
      table.first fun _ endpoint => endpoint.valid && decide (listensFor destination segment endpoint)
    else none

/-- What was accepted goes to the end of the queue, if there is room. -/
def enqueue (source : Address) (segment : TcpSegment) (result : TcpResult) (endpoint : TcpEndpoint) :
    Option TcpResult × TcpEndpoint :=
  if result.acceptedPayload ≠ 0 then
    if endpoint.count = tcpEndpointQueueCapacity then
      (none, { endpoint with dropped := (endpoint.dropped + 1) % 2 ^ 32 })
    else
      (some result, { endpoint with
        queue := fun i => if i = endpoint.tail then ⟨source, segment.payload.take result.acceptedPayload⟩
          else endpoint.queue i
        tail := (endpoint.tail + 1) % tcpEndpointQueueCapacity
        count := endpoint.count + 1 })
  else (some result, endpoint)

/-- The second half of `tcp_endpoint_deliver`: the endpoint in slot `i` hears the segment. A slot that
was just taken is given back when it does not. -/
def hearSegment (created : Bool) (source : Address) (segment : TcpSegment) (i : Nat)
    (endpoint : TcpEndpoint) : Option TcpResult × TcpEndpoint :=
  match tcpConnectionReceive segment endpoint.connection with
  | (none, connection) => (none, { endpoint with connection, valid := endpoint.valid && !created })
  | (some result, connection) =>
    enqueue source segment { result with endpointHandle := i + 1 }
      { endpoint with
        connection
        remoteAddress := if connection.remotePort = segment.sourcePort then source
          else endpoint.remoteAddress }

/-- The endpoint that a listener gives to a `SYN`. -/
def childOf (parent slot : TcpEndpoint) : TcpEndpoint :=
  { slot with
    valid := true
    localAddress := parent.localAddress
    connection := tcpConnectionInitialize parent.connection.localPort parent.connection.window }

/-- `tcp_endpoint_deliver`. -/
def tcpEndpointDeliver (destination source : Address) (segment : TcpSegment) (table : TcpTable) :
    Option TcpResult × TcpTable :=
  if tcpEndpointPayloadMax < segment.payload.length then (none, table)
  else
    match selectEndpoint destination source segment table with
    | none => (none, table)
    | some i =>
      if (table.endpoints i).connection.state = .listen ∧ flagged segment.flags tcpFlagSyn then
        match table.firstFree with
        | none => (none, table)
        | some j =>
          let child := childOf (table.endpoints i) (table.endpoints j)
          match tcpConnectionListen child.connection with
          | (none, connection) => (none, table.set j { child with connection, valid := false })
          | (some (), connection) =>
            (hearSegment true source segment j (emptyQueue { child with connection })).map id (table.set j)
      else (hearSegment false source segment i (table.endpoints i)).map id (table.set i)

/-- `tcp_endpoint_send_segment`. -/
def tcpEndpointSendSegment (handle : Nat) (payload : List UInt8) (flags : UInt8) (capacity : Nat)
    (table : TcpTable) : Option (List UInt8) × TcpTable :=
  match table.slotFor handle with
  | none => (none, table)
  | some i =>
    let endpoint := table.endpoints i
    if endpoint.connection.remotePort = 0 then (none, table)
    else
      (tcpConnectionBuild endpoint.localAddress endpoint.remoteAddress flags payload capacity
        endpoint.connection).map id fun connection => table.set i { endpoint with connection }

/-- `tcp_endpoint_retransmit_due`. -/
def tcpEndpointRetransmitDue (handle now timeout capacity : Nat) (table : TcpTable) :
    Option (List UInt8) × TcpTable :=
  match table.slotFor handle with
  | none => (none, table)
  | some i =>
    (tcpConnectionRetransmitDue now timeout capacity (table.endpoints i).connection).map id
      fun connection => table.set i { table.endpoints i with connection }

/-- The loop of `tcp_endpoint_retransmit_next` over the slots that are left. -/
def retransmitNextLoop (now timeout capacity : Nat) (table : TcpTable) :
    List Nat → Option (Address × Address × List UInt8) × Nat × TcpTable
  | [] => (none, tcpEndpointCapacity, table)
  | i :: rest =>
    let endpoint := table.endpoints i
    if endpoint.valid then
      match tcpConnectionRetransmitDue now timeout capacity endpoint.connection with
      | (none, _) => retransmitNextLoop now timeout capacity table rest
      | (some segment, connection) =>
        (some (endpoint.localAddress, endpoint.remoteAddress, segment), i + 1,
          table.set i { endpoint with connection })
    else retransmitNextLoop now timeout capacity table rest

/-- `tcp_endpoint_retransmit_next`, which moves a cursor. -/
def tcpEndpointRetransmitNext (cursor now timeout capacity : Nat) (table : TcpTable) :
    Option (Address × Address × List UInt8) × Nat × TcpTable :=
  if tcpEndpointCapacity ≤ cursor then (none, cursor, table)
  else retransmitNextLoop now timeout capacity table ((List.range tcpEndpointCapacity).drop cursor)

/-- `tcp_endpoint_receive`, which answers with the sender's address and the bytes. -/
def tcpEndpointReceive (handle capacity : Nat) (table : TcpTable) :
    Option (Address × List UInt8) × TcpTable :=
  match table.slotFor handle with
  | none => (none, table)
  | some i =>
    let endpoint := table.endpoints i
    let data := endpoint.queue endpoint.head
    if endpoint.count = 0 ∨ capacity < data.payload.length then (none, table)
    else
      (some (data.sourceAddress, data.payload),
        table.set i { endpoint with
          head := (endpoint.head + 1) % tcpEndpointQueueCapacity, count := endpoint.count - 1 })

/-- The calls made on a table. -/
inductive TcpTableCall
  | listen (localAddress : Address) (localPort window : UInt16)
  | connect (localAddress : Address) (localPort : UInt16) (remoteAddress : Address) (remotePort : UInt16)
      (sequence : Sequence) (window : UInt16) (capacity : Nat)
  | unbind (handle : Nat)
  | accept (listener : Nat)
  | deliver (destination source : Address) (segment : TcpSegment)
  | sendSegment (handle : Nat) (payload : List UInt8) (flags : UInt8) (capacity : Nat)
  | retransmitDue (handle now timeout capacity : Nat)
  | retransmitNext (cursor now timeout capacity : Nat)
  | receive (handle capacity : Nat)

/-- The table after a call. -/
def tcpTableStep (table : TcpTable) : TcpTableCall → TcpTable
  | .listen localAddress localPort window => (tcpEndpointListen localAddress localPort window table).2
  | .connect localAddress localPort remoteAddress remotePort sequence window capacity =>
    (tcpEndpointConnect localAddress localPort remoteAddress remotePort sequence window capacity table).2
  | .unbind handle => (tcpEndpointUnbind handle table).2
  | .accept _ => table
  | .deliver destination source segment => (tcpEndpointDeliver destination source segment table).2
  | .sendSegment handle payload flags capacity =>
    (tcpEndpointSendSegment handle payload flags capacity table).2
  | .retransmitDue handle now timeout capacity =>
    (tcpEndpointRetransmitDue handle now timeout capacity table).2
  | .retransmitNext cursor now timeout capacity =>
    (tcpEndpointRetransmitNext cursor now timeout capacity table).2.2
  | .receive handle capacity => (tcpEndpointReceive handle capacity table).2

end KernelBoot.Network
