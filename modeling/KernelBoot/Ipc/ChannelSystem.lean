import KernelBoot.Ipc.Channel
import KernelBoot.Lib.Run

/-!
# A channel and the tasks that use it

Any number of calls on one channel, interleaved at their critical sections. A turn is one section of
one call: a first pass, a pass made again after a wake-up, or one `scheduler_wake_one`, which comes
after the section has released the lock and therefore is a turn of its own. The wait queues are in
order, and a wake-up takes the task at the front.

A blocked call leaves the queue in one of two ways. As a rule it sleeps until a wake-up takes it off,
and then makes another pass. When the scheduler finds no task to run in its place
(`Block.undone`), it leaves the queue by itself or, if a wake-up was faster, finds itself off it; its
call returns 0 in both cases.

`accepted` and `delivered` record what the successful sends put in and what the successful receives
gave out. No turn reads them.
-/

namespace KernelBoot.Ipc

open Lib

/-- How `scheduler_block_current_with_lock` goes for the caller. -/
inductive Block where
  | refused
  | sleeps
  | undone

/-- A call of `ipc_channel_receive_wait` on `channel->readers`, or woken from it. -/
structure Reader where
  capacity : Nat
  sleeps : Bool

/-- A call of `ipc_channel_send_wait` on `channel->writers`, or woken from it. -/
structure Writer where
  sender : Nat
  data : List UInt8
  sleeps : Bool

/-- How far an accepted `ipc_channel_close` has come with its two `wake_all` loops. -/
inductive Closing where
  | none
  | readers
  | writers
  deriving DecidableEq

structure ChannelSystem where
  channel : IpcChannel
  readers : List Reader
  writers : List Writer
  wokenReaders : List Reader
  wokenWriters : List Writer
  /-- Sends between their critical section and their `scheduler_wake_one` on the readers. -/
  readerWakes : Nat
  /-- Receives between their critical section and their `scheduler_wake_one` on the writers. -/
  writerWakes : Nat
  closing : Closing
  accepted : List (Nat × List UInt8)
  delivered : List (Nat × List UInt8)

def ChannelSystem.initial (messages : Nat → IpcMessage) : ChannelSystem where
  channel := ipcChannelInitialize messages
  readers := []
  writers := []
  wokenReaders := []
  wokenWriters := []
  readerWakes := 0
  writerWakes := 0
  closing := .none
  accepted := []
  delivered := []

/-- What a pass of a send does to the rest of the system. -/
def ChannelSystem.sendOutcome (s : ChannelSystem) (sender : Nat) (data : List UInt8)
    (block : Block) : SendOutcome → ChannelSystem
  | .sent channel =>
    { s with
      channel := channel
      readerWakes := s.readerWakes + 1
      accepted := s.accepted ++ [(sender, data)] }
  | .refused => s
  | .blocks =>
    match block with
    | .refused => s
    | .sleeps => { s with writers := s.writers ++ [⟨sender, data, true⟩] }
    | .undone => { s with writers := s.writers ++ [⟨sender, data, false⟩] }

/-- What a pass of a receive does to the rest of the system. -/
def ChannelSystem.receiveOutcome (s : ChannelSystem) (capacity : Nat) (block : Block) :
    ReceiveOutcome → ChannelSystem
  | .received channel sender bytes =>
    { s with
      channel := channel
      writerWakes := s.writerWakes + 1
      delivered := s.delivered ++ [(sender, bytes)] }
  | .refused => s
  | .blocks =>
    match block with
    | .refused => s
    | .sleeps => { s with readers := s.readers ++ [⟨capacity, true⟩] }
    | .undone => { s with readers := s.readers ++ [⟨capacity, false⟩] }

/-- `scheduler_wake_one(&channel->readers)`. -/
def ChannelSystem.wakeReader (s : ChannelSystem) : ChannelSystem :=
  match s.readers with
  | [] => s
  | reader :: readers =>
    { s with readers := readers, wokenReaders := s.wokenReaders ++ [reader] }

/-- `scheduler_wake_one(&channel->writers)`. -/
def ChannelSystem.wakeWriter (s : ChannelSystem) : ChannelSystem :=
  match s.writers with
  | [] => s
  | writer :: writers =>
    { s with writers := writers, wokenWriters := s.wokenWriters ++ [writer] }

/-- The next `scheduler_wake_one` of a close: the readers first, then the writers. -/
def ChannelSystem.closeWake (s : ChannelSystem) : ChannelSystem :=
  match s.closing with
  | .none => s
  | .readers => if s.readers.isEmpty then { s with closing := .writers } else s.wakeReader
  | .writers => if s.writers.isEmpty then { s with closing := .none } else s.wakeWriter

inductive ChannelTurn where
  | send (sender : Nat) (data : List UInt8)
  | sendWait (sender : Nat) (data : List UInt8) (block : Block)
  | receive (capacity : Nat)
  | receiveWait (capacity : Nat) (block : Block)
  | close
  /-- A woken receiver, by its place among them, goes on. -/
  | resumeReader (index : Nat) (block : Block)
  | resumeWriter (index : Nat) (block : Block)
  /-- A task without a successor leaves the queue by itself. -/
  | leaveReaders (index : Nat)
  | leaveWriters (index : Nat)
  | wakeReader
  | wakeWriter
  | closeWake

/-- A woken receiver goes on: with another pass, or with the return of a call that was undone. -/
def ChannelSystem.resumeReader (s : ChannelSystem) (index : Nat) (block : Block) : ChannelSystem :=
  match s.wokenReaders[index]? with
  | none => s
  | some reader =>
    let rest := { s with wokenReaders := s.wokenReaders.eraseIdx index }
    if reader.sleeps then
      rest.receiveOutcome reader.capacity block (ipcChannelReceiveWait s.channel reader.capacity)
    else rest

def ChannelSystem.resumeWriter (s : ChannelSystem) (index : Nat) (block : Block) : ChannelSystem :=
  match s.wokenWriters[index]? with
  | none => s
  | some writer =>
    let rest := { s with wokenWriters := s.wokenWriters.eraseIdx index }
    if writer.sleeps then
      rest.sendOutcome writer.sender writer.data block
        (ipcChannelSendWait s.channel writer.sender writer.data)
    else rest

def ChannelSystem.leaveReaders (s : ChannelSystem) (index : Nat) : ChannelSystem :=
  match s.readers[index]? with
  | some ⟨_, false⟩ => { s with readers := s.readers.eraseIdx index }
  | _ => s

def ChannelSystem.leaveWriters (s : ChannelSystem) (index : Nat) : ChannelSystem :=
  match s.writers[index]? with
  | some ⟨_, _, false⟩ => { s with writers := s.writers.eraseIdx index }
  | _ => s

def ChannelTurn.step (s : ChannelSystem) : ChannelTurn → ChannelSystem
  | .send sender data => s.sendOutcome sender data .refused (ipcChannelSend s.channel sender data)
  | .sendWait sender data block =>
    s.sendOutcome sender data block (ipcChannelSendWait s.channel sender data)
  | .receive capacity => s.receiveOutcome capacity .refused (ipcChannelReceive s.channel capacity)
  | .receiveWait capacity block =>
    s.receiveOutcome capacity block (ipcChannelReceiveWait s.channel capacity)
  | .close =>
    match ipcChannelClose s.channel with
    | none => s
    | some channel => { s with channel := channel, closing := .readers }
  | .resumeReader index block => s.resumeReader index block
  | .resumeWriter index block => s.resumeWriter index block
  | .leaveReaders index => s.leaveReaders index
  | .leaveWriters index => s.leaveWriters index
  | .wakeReader =>
    if s.readerWakes = 0 then s else { s with readerWakes := s.readerWakes - 1 }.wakeReader
  | .wakeWriter =>
    if s.writerWakes = 0 then s else { s with writerWakes := s.writerWakes - 1 }.wakeWriter
  | .closeWake => s.closeWake

end KernelBoot.Ipc
