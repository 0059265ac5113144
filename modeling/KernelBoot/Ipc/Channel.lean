import Mathlib.Data.List.Basic

/-!
# Channels (`kernel/ipc/channel.c`)

A channel is a ring of sixteen message slots. Every function here is one pass through its critical
section on `channel->lock`: for the waiting variants one pass of their loop. A pass that reaches
`scheduler_block_current_with_lock` answers `blocks`; what becomes of the caller then is the concern
of `Ipc/ChannelSystem.lean`, and so are the wake-ups made after the lock is released.
-/

namespace KernelBoot.Ipc

/-- `IPC_MESSAGE_MAX`. -/
def ipcMessageMax : Nat := 64

/-- `IPC_QUEUE_CAPACITY`. -/
def ipcQueueCapacity : Nat := 16

/-- `ipc_message_t`. Only the first `size` bytes of `data` belong to the message. -/
structure IpcMessage where
  sender : Nat
  size : Nat
  data : Nat → UInt8

structure IpcChannel where
  messages : Nat → IpcMessage
  head : Nat
  tail : Nat
  count : Nat
  isOpen : Bool

/-- `ipc_channel_initialize`; the message slots keep what memory held. -/
def ipcChannelInitialize (messages : Nat → IpcMessage) : IpcChannel where
  messages := messages
  head := 0
  tail := 0
  count := 0
  isOpen := true

/-- `copy_bytes` from a caller's buffer: the bytes behind it stay as they were. -/
def copyBytes (destination : Nat → UInt8) (source : List UInt8) : Nat → UInt8 := fun i =>
  match source[i]? with
  | some byte => byte
  | none => destination i

/-- The bytes a receiver is given. -/
def IpcMessage.bytes (message : IpcMessage) : List UInt8 :=
  (List.range message.size).map message.data

/-- Storing a message at the tail. -/
def IpcChannel.put (channel : IpcChannel) (sender : Nat) (data : List UInt8) : IpcChannel :=
  let old := channel.messages channel.tail
  let message : IpcMessage := ⟨sender, data.length, copyBytes old.data data⟩
  { channel with
    messages := fun i => if i = channel.tail then message else channel.messages i
    tail := (channel.tail + 1) % ipcQueueCapacity
    count := channel.count + 1 }

/-- Giving up the slot at the head. -/
def IpcChannel.drop (channel : IpcChannel) : IpcChannel :=
  { channel with head := (channel.head + 1) % ipcQueueCapacity, count := channel.count - 1 }

/-- The message slot the next receiver looks at. -/
def IpcChannel.first (channel : IpcChannel) : IpcMessage := channel.messages channel.head

inductive SendOutcome where
  | sent (channel : IpcChannel)
  | refused
  | blocks

inductive ReceiveOutcome where
  | received (channel : IpcChannel) (sender : Nat) (bytes : List UInt8)
  | refused
  | blocks

/-- The size check before either send takes the lock. -/
def sizeAccepted (data : List UInt8) : Bool :=
  data.length ≠ 0 ∧ data.length ≤ ipcMessageMax

def ipcChannelSend (channel : IpcChannel) (sender : Nat) (data : List UInt8) : SendOutcome :=
  if !sizeAccepted data then .refused
  else if !channel.isOpen || channel.count == ipcQueueCapacity then .refused
  else .sent (channel.put sender data)

/-- One pass of the loop of `ipc_channel_send_wait`. -/
def ipcChannelSendWait (channel : IpcChannel) (sender : Nat) (data : List UInt8) : SendOutcome :=
  if !sizeAccepted data then .refused
  else if !channel.isOpen then .refused
  else if channel.count ≠ ipcQueueCapacity then .sent (channel.put sender data)
  else .blocks

def ipcChannelReceive (channel : IpcChannel) (capacity : Nat) : ReceiveOutcome :=
  if channel.count = 0 ∨ capacity < channel.first.size then .refused
  else .received channel.drop channel.first.sender channel.first.bytes

/-- One pass of the loop of `ipc_channel_receive_wait`. -/
def ipcChannelReceiveWait (channel : IpcChannel) (capacity : Nat) : ReceiveOutcome :=
  if channel.count ≠ 0 ∧ channel.first.size ≤ capacity then
    .received channel.drop channel.first.sender channel.first.bytes
  else if !channel.isOpen ∨ (channel.count ≠ 0 ∧ capacity < channel.first.size) then .refused
  else .blocks

/-- The critical section of `ipc_channel_close`; `none` when the channel was closed before. -/
def ipcChannelClose (channel : IpcChannel) : Option IpcChannel :=
  if !channel.isOpen then none else some { channel with isOpen := false }

end KernelBoot.Ipc
