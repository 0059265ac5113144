import Mathlib
import KernelBoot.Ipc.ChannelSystem

/-!
# Pipes (`kernel/ipc/pipe.c`) and the READ and WRITE_FILE requests on them

A pipe is a channel with a read end and a write end, each with its own reference count. A WRITE_FILE
request on the write end is one `ipc_channel_send_wait`, a READ request on the read end one
`ipc_channel_receive_wait`; the requests in progress are the blocked and woken calls of the channel
underneath. `PipeTurn.returns` is what a turn hands back to the user, if a request ends with it.
-/

namespace KernelBoot.Ipc

open Lib

/-- `OS_SYSCALL_MAX_WRITE`. -/
def osSyscallMaxWrite : Nat := 256

/-- `UINT32_MAX`. -/
def uint32Max : Nat := 2 ^ 32 - 1

structure Pipe where
  system : ChannelSystem
  /-- `pipe->references`: the endpoints not yet freed. -/
  references : Nat
  readReferences : Nat
  writeReferences : Nat

/-- A successful `pipe_create`. -/
def pipeCreate (messages : Nat → IpcMessage) : Pipe where
  system := .initial messages
  references := 2
  readReferences := 1
  writeReferences := 1

def Pipe.close (s : Pipe) : Pipe := { s with system := ChannelTurn.close.step s.system }

/-- `pipe_release`. -/
def pipeRelease (s : Pipe) : Pipe :=
  if s.references = 0 then s
  else if s.references - 1 = 0 then { s with references := s.references - 1 }.close
  else { s with references := s.references - 1 }

/-- `pipe_endpoint_release` on the read end. -/
def pipeReleaseRead (s : Pipe) : Pipe :=
  if s.readReferences = 0 then s
  else if s.readReferences - 1 = 0 then
    pipeRelease { s with readReferences := s.readReferences - 1 }
  else { s with readReferences := s.readReferences - 1 }

/-- `pipe_endpoint_release` on the write end: the last release closes the channel. -/
def pipeReleaseWrite (s : Pipe) : Pipe :=
  if s.writeReferences = 0 then s
  else if s.writeReferences - 1 = 0 then
    pipeRelease { s with writeReferences := s.writeReferences - 1 }.close
  else { s with writeReferences := s.writeReferences - 1 }

/-- `pipe_endpoint_retain` on a reference count. -/
def pipeEndpointRetain (references : Nat) : Nat :=
  if references ≠ uint32Max then references + 1 else references

/-- The first pass of `pipe_endpoint_write`. -/
def pipeEndpointWrite (channel : IpcChannel) (data : List UInt8) : SendOutcome :=
  if data.length = 0 ∨ ipcMessageMax < data.length then .refused
  else ipcChannelSendWait channel 0 data

/-- The first pass of `pipe_endpoint_read`. -/
def pipeEndpointRead (channel : IpcChannel) (capacity : Nat) : ReceiveOutcome :=
  if capacity = 0 then .refused else ipcChannelReceiveWait channel capacity

/-- What a READ or WRITE_FILE request on a pipe returns. -/
inductive PipeReturn where
  | written (length : Nat)
  | bytes (data : List UInt8)
  /-- READ returns 0. -/
  | zero
  /-- `OS_SYSCALL_ERROR`. -/
  | error

/-- What a write returns with this pass, if it does. -/
def SendOutcome.returns (data : List UInt8) (block : Block) : SendOutcome → Option PipeReturn
  | .sent _ => some (.written data.length)
  | .refused => some .error
  | .blocks =>
    match block with
    | .refused => some .error
    | .sleeps => none
    | .undone => none

/-- What a read returns with this pass, if it does. -/
def ReceiveOutcome.returns (block : Block) : ReceiveOutcome → Option PipeReturn
  | .received _ _ bytes => some (.bytes bytes)
  | .refused => some .zero
  | .blocks =>
    match block with
    | .refused => some .zero
    | .sleeps => none
    | .undone => none

/-- A turn in which a call already begun goes on, or a wake-up is made. -/
def ChannelTurn.continues : ChannelTurn → Bool
  | .send .. => false
  | .sendWait .. => false
  | .receive .. => false
  | .receiveWait .. => false
  | .close => false
  | _ => true

/-- What a request in progress returns when it goes on with this turn, if it does. -/
def ChannelTurn.returns (s : ChannelSystem) : ChannelTurn → Option PipeReturn
  | .resumeReader index block =>
    match s.wokenReaders[index]? with
    | none => none
    | some reader =>
      if reader.sleeps then (ipcChannelReceiveWait s.channel reader.capacity).returns block
      else some .zero
  | .resumeWriter index block =>
    match s.wokenWriters[index]? with
    | none => none
    | some writer =>
      if writer.sleeps then
        (ipcChannelSendWait s.channel writer.sender writer.data).returns writer.data block
      else some .error
  | .leaveReaders index =>
    match s.readers[index]? with
    | some ⟨_, false⟩ => some .zero
    | _ => none
  | .leaveWriters index =>
    match s.writers[index]? with
    | some ⟨_, _, false⟩ => some .error
    | _ => none
  | _ => none

inductive PipeTurn where
  | writeFile (data : List UInt8) (block : Block)
  | read (capacity : Nat) (block : Block)
  | retainRead
  | retainWrite
  | releaseRead
  | releaseWrite
  /-- A request in progress goes on, or a wake-up is made. -/
  | within (turn : ChannelTurn)

/-- The size check of both requests. -/
def requestAccepted (size : Nat) : Bool := size ≠ 0 ∧ size ≤ osSyscallMaxWrite

def PipeTurn.step (s : Pipe) : PipeTurn → Pipe
  | .writeFile data block =>
    if requestAccepted data.length then
      { s with system := s.system.sendOutcome 0 data block (pipeEndpointWrite s.system.channel data) }
    else s
  | .read capacity block =>
    if requestAccepted capacity then
      { s with
        system := s.system.receiveOutcome capacity block
          (pipeEndpointRead s.system.channel capacity) }
    else s
  | .retainRead => { s with readReferences := pipeEndpointRetain s.readReferences }
  | .retainWrite => { s with writeReferences := pipeEndpointRetain s.writeReferences }
  | .releaseRead => pipeReleaseRead s
  | .releaseWrite => pipeReleaseWrite s
  | .within turn => if turn.continues then { s with system := turn.step s.system } else s

def PipeTurn.returns (s : Pipe) : PipeTurn → Option PipeReturn
  | .writeFile data block =>
    if requestAccepted data.length then (pipeEndpointWrite s.system.channel data).returns data block
    else some .error
  | .read capacity block =>
    if requestAccepted capacity then (pipeEndpointRead s.system.channel capacity).returns block
    else some .error
  | .within turn => if turn.continues then turn.returns s.system else none
  | _ => none

end KernelBoot.Ipc
