import KernelBoot.Ipc.Pipe
import KernelBoot.Laws.Ipc.Channel

/-!
# A pipe as a stream of bytes

What the read end gives out is always a beginning of what the write end took in
(`PipeInv.stream`). Whether every write is taken and a read comes back empty only at the end of the
stream depends on the requests: a write goes into a single message of at most 64 bytes, and a read
takes a whole message or nothing. `pipe_stream_iff` states the exact conditions, request by request.
-/

namespace KernelBoot.Ipc

open Lib List

variable {s : Pipe} {data : List UInt8} {Q : List UInt8 → Prop}

/-- The bytes of all accepted writes, in their order. -/
def Pipe.written (s : Pipe) : List UInt8 := s.system.accepted.flatMap Prod.snd

/-- The bytes of all successful reads, in their order. -/
def Pipe.readBytes (s : Pipe) : List UInt8 := s.system.delivered.flatMap Prod.snd

/-- What the user may be told: a write fails only when the read end is gone, and a read returns 0
only at the end of the stream, with the write end gone. -/
def PipeReturn.Right (s : Pipe) : PipeReturn → Prop
  | .error => s.readReferences = 0
  | .zero => s.readBytes = s.written ∧ s.writeReferences = 0
  | _ => True

/-- Whatever the turn returns is right. -/
def PipeTurn.Right (s : Pipe) (turn : PipeTurn) : Prop := ∀ value ∈ turn.returns s, value.Right s

open PipeTurn

/-- A pass of a read takes the first message, and when it has to wait it can. -/
def Pipe.ReadFits (s : Pipe) (capacity : Nat) (block : Block) : Prop :=
  (s.system.channel.count ≠ 0 → s.system.channel.first.size ≤ capacity) ∧
    (s.system.channel.count = 0 → s.writeReferences ≠ 0 → block ≠ .refused)

/-- A pass of a write has a message's size, and when it has to wait it can. -/
def Pipe.WriteFits (s : Pipe) (data : List UInt8) (block : Block) : Prop :=
  s.readReferences ≠ 0 → data.length ≤ ipcMessageMax ∧
    (s.system.channel.count = ipcQueueCapacity → block ≠ .refused)

/-- The read end or the write end are used, retained and released by those who hold them, in sizes
the system calls admit. A request in progress holds its end. -/
def PipeTurn.Legal (s : Pipe) : PipeTurn → Prop
  | .writeFile data _ => s.writeReferences ≠ 0 ∧ requestAccepted data.length = true
  | .read capacity _ => s.readReferences ≠ 0 ∧ requestAccepted capacity = true
  | .retainRead => s.readReferences ≠ 0
  | .retainWrite => s.writeReferences ≠ 0
  | .releaseRead =>
    s.readReferences ≠ 0 ∧ (s.readReferences = 1 → s.system.readers = [] ∧ s.system.wokenReaders = [])
  | .releaseWrite =>
    s.writeReferences ≠ 0 ∧
      (s.writeReferences = 1 → s.system.writers = [] ∧ s.system.wokenWriters = [])
  | .within _ => True

/-- The request that makes this turn fits the pipe as it finds it. -/
def PipeTurn.Fits (s : Pipe) : PipeTurn → Prop
  | .writeFile data block => s.WriteFits data block
  | .read capacity block => s.ReadFits capacity block
  | .within (.resumeReader index block) => ∀ reader, s.system.wokenReaders[index]? = some reader →
    if reader.sleeps then s.ReadFits reader.capacity block
    else s.system.channel.count = 0 ∧ s.writeReferences = 0
  | .within (.resumeWriter index block) => ∀ writer, s.system.wokenWriters[index]? = some writer →
    if writer.sleeps then s.WriteFits writer.data block else s.readReferences = 0
  | .within (.leaveReaders index) => ∀ reader, s.system.readers[index]? = some reader →
    reader.sleeps = false → s.system.channel.count = 0 ∧ s.writeReferences = 0
  | .within (.leaveWriters index) => ∀ writer, s.system.writers[index]? = some writer →
    writer.sleeps = false → s.readReferences = 0
  | _ => True

/-! ## The invariant -/

/-- The ends that are still held. -/
def Pipe.endsHeld (s : Pipe) : Nat :=
  (if s.readReferences = 0 then 0 else 1) + (if s.writeReferences = 0 then 0 else 1)

structure PipeInv (s : Pipe) : Prop where
  channel : ChannelInv s.system
  /-- The channel is open as long as the write end is held. -/
  opened : s.system.channel.isOpen = true ↔ s.writeReferences ≠ 0
  references : s.references = s.endsHeld
  /-- Writes in progress hold the write end and have a message's size. -/
  writing : s.system.Writing fun data => s.writeReferences ≠ 0 ∧ sizeAccepted data = true

theorem PipeInv.closed_iff (h : PipeInv s) :
    s.system.channel.isOpen = false ↔ s.writeReferences = 0 := by
  rw [← Bool.not_eq_true, h.opened, not_not]

theorem PipeInv.created (messages : Nat → IpcMessage) : PipeInv (pipeCreate messages) where
  channel := ChannelInv.initial messages
  opened := ⟨fun _ => Nat.one_ne_zero, fun _ => rfl⟩
  references := rfl
  writing := forall_mem_nil _

theorem PipeInv.written_eq (h : PipeInv s) :
    s.written = s.readBytes ++ s.system.channel.queued.flatMap Prod.snd := by
  rw [Pipe.readBytes, Pipe.written, ← flatMap_append, h.channel.account]

/-- Reads give out a beginning of what was written. -/
theorem PipeInv.stream (h : PipeInv s) : s.readBytes <+: s.written := ⟨_, h.written_eq.symm⟩

/-- All that was written has been read exactly when the ring is empty: no message is empty. -/
theorem PipeInv.allRead_iff (h : PipeInv s) :
    s.readBytes = s.written ↔ s.system.channel.count = 0 := by
  rw [h.written_eq, self_eq_append_right, flatMap_eq_nil_iff]
  constructor
  · intro hempty
    refine Classical.byContradiction fun hcount => ?_
    have hbytes := hempty s.system.channel.first.content (by
      rw [h.channel.wf.queued_drop hcount]
      exact mem_cons_self)
    have hsize := h.channel.sizes _ (h.channel.first_mem hcount)
    rw [sizeAccepted, hbytes] at hsize
    cases hsize
  · intro hcount m hm
    rw [eq_nil_of_length_eq_zero ((queued_length _).trans hcount)] at hm
    cases hm

/-! ## What a pass returns -/

theorem readPass_right (h : PipeInv s) (capacity : Nat) (block : Block) :
    (∀ value ∈ (ipcChannelReceiveWait s.system.channel capacity).returns block, value.Right s) ↔
      s.ReadFits capacity block := by
  unfold Pipe.ReadFits ipcChannelReceiveWait
  split
  next hfits =>
    refine ⟨fun _ => ⟨fun _ => hfits.2, fun hempty => absurd hempty hfits.1⟩, fun _ value hv => ?_⟩
    cases hv
    exact trivial
  next hsmall =>
  split
  next hrefused =>
    -- a refusal is right when the channel was closed and empty
    constructor
    · intro hright
      obtain ⟨hread, hwriters⟩ := hright .zero rfl
      have hempty := h.allRead_iff.mp hread
      exact ⟨fun hcount => absurd hempty hcount, fun _ hheld => absurd hwriters hheld⟩
    · rintro ⟨hroom, -⟩ value hv
      cases hv
      have hempty : s.system.channel.count = 0 :=
        Classical.byContradiction fun hcount => hsmall ⟨hcount, hroom hcount⟩
      refine ⟨h.allRead_iff.mpr hempty, h.closed_iff.mp ?_⟩
      rcases hrefused with hclosed | ⟨hcount, _⟩
      · simpa using hclosed
      · exact absurd hempty hcount
  next hwaits =>
    obtain ⟨hopen, htaken⟩ := not_or.mp hwaits
    have hheld : s.writeReferences ≠ 0 := h.opened.mp (by simpa using hopen)
    have hempty : s.system.channel.count = 0 := Classical.byContradiction fun hcount =>
      htaken ⟨hcount, Nat.lt_of_not_le fun hle => hsmall ⟨hcount, hle⟩⟩
    cases block with
    | refused =>
      refine ⟨fun hright => absurd (hright .zero rfl).2 hheld, fun hfits => ?_⟩
      exact absurd rfl (hfits.2 hempty hheld)
    | sleeps | undone =>
      refine ⟨fun _ => ⟨fun hcount => absurd hempty hcount, fun _ _ hno => ?_⟩, fun _ value hv => ?_⟩
      · cases hno
      · cases hv

/-- A pass of a write of a message's size, made by a holder of the write end. -/
theorem writePass_right (h : PipeInv s) (hheld : s.writeReferences ≠ 0) {sender : Nat}
    (hsize : sizeAccepted data = true) (block : Block) :
    (∀ value ∈ (ipcChannelSendWait s.system.channel sender data).returns data block,
      value.Right s) ↔ s.WriteFits data block := by
  have hlength : data.length ≤ ipcMessageMax := (of_decide_eq_true hsize).2
  unfold ipcChannelSendWait Pipe.WriteFits
  rw [if_neg (by rw [hsize]; decide), if_neg (by rw [h.opened.mpr hheld]; decide)]
  split
  next hroom =>
    refine ⟨fun _ _ => ⟨hlength, fun hfull => absurd hfull hroom⟩, fun _ value hv => ?_⟩
    cases hv
    exact trivial
  next hfull =>
  cases block with
  | refused =>
    refine ⟨fun hright hreaders => absurd (hright .error rfl) hreaders, fun hfits value hv => ?_⟩
    cases hv
    exact Classical.byContradiction fun hreaders => (hfits hreaders).2 (not_not.mp hfull) rfl
  | sleeps | undone =>
    refine ⟨fun _ _ => ⟨hlength, fun _ hno => ?_⟩, fun _ value hv => ?_⟩
    · cases hno
    · cases hv

theorem right_zero_iff : (∀ value ∈ some PipeReturn.zero, value.Right s) ↔
      s.readBytes = s.written ∧ s.writeReferences = 0 :=
  ⟨fun h => h .zero rfl, fun h value hv => by cases hv; exact h⟩

theorem right_error_iff : (∀ value ∈ some PipeReturn.error, value.Right s) ↔ s.readReferences = 0 :=
  ⟨fun h => h .error rfl, fun h value hv => by cases hv; exact h⟩

theorem right_none : ∀ value ∈ (none : Option PipeReturn), value.Right s :=
  fun value hv => by cases hv

theorem writeFile_right_iff (h : PipeInv s) (block : Block)
    (hlegal : (writeFile data block).Legal s) :
    (writeFile data block).Right s ↔ s.WriteFits data block := by
  obtain ⟨hheld, haccepted⟩ := hlegal
  rw [Right, returns, if_pos haccepted, pipeEndpointWrite]
  have hpos : data.length ≠ 0 := (of_decide_eq_true haccepted).1
  split
  next hlarge =>
    -- more than one message holds: refused whatever the pipe's state
    have hlarge : ipcMessageMax < data.length := hlarge.resolve_left hpos
    rw [SendOutcome.returns, right_error_iff]
    refine ⟨fun hgone hreaders => absurd hgone hreaders, fun hfits => ?_⟩
    refine Classical.byContradiction fun hreaders => ?_
    exact absurd (hfits hreaders).1 (Nat.not_le.mpr hlarge)
  next hsmall =>
    exact writePass_right h hheld
      (decide_eq_true ⟨hpos, Nat.le_of_not_lt (not_or.mp hsmall).2⟩) block

theorem read_right_iff (h : PipeInv s) {capacity : Nat} (block : Block)
    (hlegal : (read capacity block).Legal s) :
    (read capacity block).Right s ↔ s.ReadFits capacity block := by
  obtain ⟨_, haccepted⟩ := hlegal
  rw [Right, returns, if_pos haccepted, pipeEndpointRead, if_neg (of_decide_eq_true haccepted).1]
  exact readPass_right h capacity block

theorem within_returns {turn : ChannelTurn} (h : turn.continues = true) :
    (within turn).returns s = turn.returns s.system := if_pos h

theorem resumeReader_right_iff (h : PipeInv s) (index : Nat) (block : Block) :
    (within (.resumeReader index block)).Right s ↔
      (within (.resumeReader index block)).Fits s := by
  rw [Right, within_returns rfl, Fits, ChannelTurn.returns]
  cases s.system.wokenReaders[index]? with
  | none =>
    refine ⟨fun _ reader hno => ?_, fun _ => right_none⟩
    cases hno
  | some reader =>
    simp only [Option.some.injEq, forall_eq']
    split
    next => exact readPass_right h reader.capacity block
    next => rw [right_zero_iff, h.allRead_iff]

theorem resumeWriter_right_iff (h : PipeInv s) (index : Nat) (block : Block) :
    (within (.resumeWriter index block)).Right s ↔
      (within (.resumeWriter index block)).Fits s := by
  rw [Right, within_returns rfl, Fits, ChannelTurn.returns]
  cases hwriter : s.system.wokenWriters[index]? with
  | none =>
    refine ⟨fun _ writer hno => ?_, fun _ => right_none⟩
    cases hno
  | some writer =>
    simp only [Option.some.injEq, forall_eq']
    split
    next =>
      obtain ⟨hheld, hsize⟩ :=
        h.writing writer (mem_append_right _ (mem_of_getElem? hwriter))
      exact writePass_right h hheld hsize block
    next => exact right_error_iff

theorem leaveReaders_right_iff (h : PipeInv s) (index : Nat) :
    (within (.leaveReaders index)).Right s ↔
      (within (.leaveReaders index)).Fits s := by
  rw [Right, within_returns rfl, Fits, ChannelTurn.returns]
  split
  next capacity hreader =>
    rw [right_zero_iff, h.allRead_iff, hreader]
    simp only [Option.some.injEq, forall_eq', forall_const]
  next hother =>
    refine ⟨fun _ reader hreader hundone => ?_, fun _ => right_none⟩
    obtain ⟨capacity, sleeps⟩ := reader
    cases hundone
    exact (hother capacity hreader).elim

theorem leaveWriters_right_iff (index : Nat) : (within (.leaveWriters index)).Right s ↔
      (within (.leaveWriters index)).Fits s := by
  rw [Right, within_returns rfl, Fits, ChannelTurn.returns]
  split
  next sender data hwriter =>
    rw [right_error_iff, hwriter]
    simp only [Option.some.injEq, forall_eq', forall_const]
  next hother =>
    refine ⟨fun _ writer hwriter hundone => ?_, fun _ => right_none⟩
    obtain ⟨sender, data, sleeps⟩ := writer
    cases hundone
    exact (hother sender data hwriter).elim

/-- Every turn returns what it may exactly when its request fits. -/
theorem PipeTurn.right_iff (h : PipeInv s) {turn : PipeTurn} (hlegal : turn.Legal s) :
    turn.Right s ↔ turn.Fits s := by
  cases turn with
  | writeFile data block => exact writeFile_right_iff h block hlegal
  | read capacity block => exact read_right_iff h block hlegal
  | retainRead | retainWrite | releaseRead | releaseWrite => exact ⟨fun _ => trivial, fun _ => right_none⟩
  | within turn =>
    cases turn with
    | resumeReader index block => exact resumeReader_right_iff h index block
    | resumeWriter index block => exact resumeWriter_right_iff h index block
    | leaveReaders index => exact leaveReaders_right_iff h index
    | leaveWriters index => exact leaveWriters_right_iff index
    | send | sendWait | receive | receiveWait | close | wakeReader | wakeWriter | closeWake =>
      exact ⟨fun _ => trivial, fun _ => right_none⟩

/-! ## Turns keep the invariant -/

theorem ChannelSystem.Writing.send {s : ChannelSystem} (h : s.Writing Q) {sender : Nat}
    {outcome : SendOutcome} (hdata : outcome = .blocks → Q data) (block : Block) :
    (s.sendOutcome sender data block outcome).Writing Q := by
  cases outcome with
  | sent | refused => exact h
  | blocks =>
    cases block with
    | refused => exact h
    | sleeps | undone => exact h.sleep (hdata rfl)

theorem ChannelSystem.Writing.receive {s : ChannelSystem} (h : s.Writing Q) (capacity : Nat)
    (block : Block) (outcome : ReceiveOutcome) :
    (s.receiveOutcome capacity block outcome).Writing Q := by
  cases outcome with
  | received | refused => exact h
  | blocks =>
    cases block with
    | refused | sleeps | undone => exact h

theorem ChannelSystem.Writing.wakeReader {s : ChannelSystem} (h : s.Writing Q) :
    s.wakeReader.Writing Q := by
  fun_cases ChannelSystem.wakeReader s
  all_goals exact h

theorem ChannelSystem.Writing.wakeWriter {s : ChannelSystem} (h : s.Writing Q) :
    s.wakeWriter.Writing Q := by
  fun_cases ChannelSystem.wakeWriter s
  · exact h
  next hwriters => exact h.wake hwriters

/-- Calls that go on bring no new data among the writes in progress. -/
theorem ChannelSystem.Writing.continues {s : ChannelSystem} (h : s.Writing Q) {turn : ChannelTurn}
    (hcont : turn.continues = true) : (turn.step s).Writing Q := by
  cases turn with
  | send | sendWait | receive | receiveWait | close => cases hcont
  | resumeReader index block =>
    rw [ChannelTurn.step]
    fun_cases s.resumeReader index block
    · exact h
    · exact ChannelSystem.Writing.receive (by exact h) _ _ _
    · exact h
  | resumeWriter index block =>
    rw [ChannelTurn.step]
    fun_cases s.resumeWriter index block
    · exact h
    next writer hwriter _ _ =>
      have hdata := h writer (mem_append_right _ (mem_of_getElem? hwriter))
      exact (h.leaveWoken index).send (fun _ => hdata) block
    · exact h.leaveWoken index
  | leaveReaders index =>
    rw [ChannelTurn.step, ChannelSystem.leaveReaders]
    split
    all_goals exact h
  | leaveWriters index =>
    rw [ChannelTurn.step, ChannelSystem.leaveWriters]
    split
    next => exact h.leave index
    next => exact h
  | wakeReader =>
    rw [ChannelTurn.step]
    split
    next => exact h
    next => exact ChannelSystem.Writing.wakeReader (by exact h)
  | wakeWriter =>
    rw [ChannelTurn.step]
    split
    next => exact h
    next => exact ChannelSystem.Writing.wakeWriter (by exact h)
  | closeWake =>
    rw [ChannelTurn.step]
    fun_cases ChannelSystem.closeWake s
    · exact h
    · exact h
    · exact h.wakeReader
    · exact h
    · exact h.wakeWriter

theorem PipeInv.of_system (h : PipeInv s) {t : ChannelSystem} (hmoves : Moves False s.system t)
    (hwriting : t.Writing fun data => s.writeReferences ≠ 0 ∧ sizeAccepted data = true) :
    PipeInv { s with system := t } where
  channel := h.channel.moves hmoves
  opened := by
    rw [← h.opened, ← hmoves.isOpen not_false]
  references := h.references
  writing := hwriting

theorem pipeEndpointWrite_spec (channel : IpcChannel) (data : List UInt8) :
    (pipeEndpointWrite channel data).Spec channel 0 data := by
  fun_cases pipeEndpointWrite channel data
  · exact .refused
  · exact ipcChannelSendWait_spec channel 0 data

theorem pipeEndpointWrite_blocks {channel : IpcChannel}
    (h : pipeEndpointWrite channel data = .blocks) : sizeAccepted data = true := by
  revert h
  fun_cases pipeEndpointWrite channel data
  · rintro ⟨⟩
  next hsize =>
    obtain ⟨hpos, hsmall⟩ := not_or.mp hsize
    exact fun _ => decide_eq_true ⟨hpos, Nat.le_of_not_lt hsmall⟩

theorem pipeEndpointRead_spec (channel : IpcChannel) {capacity : Nat} (hcapacity : capacity ≠ 0) :
    (pipeEndpointRead channel capacity).Spec channel capacity := by
  rw [pipeEndpointRead, if_neg hcapacity]
  exact ipcChannelReceiveWait_spec channel capacity

theorem ChannelInv.close {s : ChannelSystem} (h : ChannelInv s) :
    ChannelInv (ChannelTurn.close.step s) ∧ (ChannelTurn.close.step s).channel.isOpen = false ∧
      (ChannelTurn.close.step s).writers = s.writers ∧
      (ChannelTurn.close.step s).wokenWriters = s.wokenWriters := by
  refine ⟨h.moves (ChannelTurn.moves s .close), ?_⟩
  rw [ChannelTurn.step]
  fun_cases ipcChannelClose s.channel
  next hclosed => exact ⟨by simpa using hclosed, rfl, rfl⟩
  · exact ⟨rfl, rfl, rfl⟩

/-- The channel may be closed, again or for the first time, once the write end is gone. -/
theorem PipeInv.of_close (hchannel : ChannelInv s.system) (hreferences : s.references = s.endsHeld)
    (hgone : s.writeReferences = 0) (hidle : s.system.writers = [] ∧ s.system.wokenWriters = []) :
    PipeInv s.close := by
  obtain ⟨hinv, hclosed, hwriters, hwoken⟩ := hchannel.close
  refine ⟨hinv, ?_, hreferences, ?_⟩
  · simp only [Pipe.close, hclosed, hgone, ne_eq, not_true_eq_false, Bool.false_eq_true]
  · intro writer hw
    simp only [Pipe.close, hwriters, hwoken, hidle.1, hidle.2, append_nil] at hw
    cases hw

/-- A pipe whose ends are held as before. -/
theorem PipeInv.of_held {t : Pipe} (h : PipeInv s) (hsystem : t.system = s.system)
    (hreferences : t.references = s.references) (hread : t.readReferences = 0 ↔ s.readReferences = 0)
    (hwrite : t.writeReferences = 0 ↔ s.writeReferences = 0) : PipeInv t where
  channel := hsystem ▸ h.channel
  opened := by rw [hsystem, h.opened, ne_eq, ne_eq, hwrite]
  references := by
    rw [hreferences, h.references]
    simp only [Pipe.endsHeld, hread, hwrite]
  writing := by simpa only [hsystem, ne_eq, hwrite] using h.writing

theorem PipeInv.idle (h : PipeInv s) (hgone : s.writeReferences = 0) :
    s.system.writers = [] ∧ s.system.wokenWriters = [] := by
  rw [← append_eq_nil_iff]
  refine eq_nil_iff_forall_not_mem.mpr fun writer hw => ?_
  exact (h.writing writer hw).1 hgone

/-- `pipe_release` by an end that has just been given up. -/
theorem PipeInv.release (h : PipeInv { s with references := s.references - 1 })
    (hne : s.references ≠ 0) : PipeInv (pipeRelease s) := by
  rw [pipeRelease, if_neg hne]
  split
  next hlast =>
    have hgone : s.writeReferences = 0 := by
      by_contra hheld
      have hcount := h.references
      simp only [Pipe.endsHeld, hlast, if_neg hheld] at hcount
      omega
    exact PipeInv.of_close h.channel h.references hgone (h.idle hgone)
  next => exact h

theorem PipeInv.releaseRead (h : PipeInv s) (hheld : s.readReferences ≠ 0) :
    PipeInv (pipeReleaseRead s) := by
  have hcount := h.references
  rw [Pipe.endsHeld, if_neg hheld] at hcount
  rw [pipeReleaseRead, if_neg hheld]
  split
  next hlast =>
    refine PipeInv.release ⟨h.channel, h.opened, ?_, h.writing⟩ ?_
    · simp only [Pipe.endsHeld, hlast, ↓reduceIte]
      omega
    · simp only
      omega
  next hmore => exact h.of_held rfl rfl (iff_of_false hmore hheld) .rfl

theorem PipeInv.releaseWrite (h : PipeInv s) (hheld : s.writeReferences ≠ 0)
    (hlegal : s.writeReferences = 1 → s.system.writers = [] ∧ s.system.wokenWriters = []) :
    PipeInv (pipeReleaseWrite s) := by
  have hcount := h.references
  rw [Pipe.endsHeld, if_neg hheld] at hcount
  rw [pipeReleaseWrite, if_neg hheld]
  split
  next hlast =>
    have hidle := hlegal (by omega)
    have hclosed : PipeInv ({ s with
        writeReferences := s.writeReferences - 1, references := s.references - 1 } : Pipe).close := by
      refine PipeInv.of_close h.channel ?_ hlast hidle
      simp only [Pipe.endsHeld, hlast, ↓reduceIte]
      omega
    refine PipeInv.release hclosed ?_
    simp only [Pipe.close]
    omega
  next hmore => exact h.of_held rfl rfl .rfl (iff_of_false hmore hheld)

theorem pipeEndpointRetain_ne_zero {references : Nat} (h : references ≠ 0) :
    pipeEndpointRetain references ≠ 0 := by
  unfold pipeEndpointRetain
  split
  next => exact Nat.succ_ne_zero references
  next => exact h

theorem PipeTurn.inv {turn : PipeTurn} (h : PipeInv s) (hlegal : turn.Legal s) :
    PipeInv (turn.step s) := by
  cases turn with
  | writeFile data block =>
    rw [step, if_pos hlegal.2]
    refine h.of_system (.of_send rfl rfl rfl (pipeEndpointWrite_spec _ _)) ?_
    exact h.writing.send (fun hblocks => ⟨hlegal.1, pipeEndpointWrite_blocks hblocks⟩) block
  | read capacity block =>
    rw [step, if_pos hlegal.2]
    exact h.of_system
      (.of_receive rfl rfl rfl (pipeEndpointRead_spec _ (of_decide_eq_true hlegal.2).1))
      (h.writing.receive capacity block _)
  | retainRead =>
    exact h.of_held rfl rfl (iff_of_false (pipeEndpointRetain_ne_zero hlegal) hlegal) .rfl
  | retainWrite =>
    exact h.of_held rfl rfl .rfl (iff_of_false (pipeEndpointRetain_ne_zero hlegal) hlegal)
  | releaseRead => exact h.releaseRead hlegal.1
  | releaseWrite => exact h.releaseWrite hlegal.1 hlegal.2
  | within turn =>
    rw [step]
    split
    next hcont =>
      have hclose : turn ≠ .close := by
        rintro rfl
        cases hcont
      refine h.of_system ?_ (h.writing.continues hcont)
      have hmoves := turn.moves s.system
      rwa [eq_false hclose] at hmoves
    next => exact h

/-! ## Runs -/

/-- Every turn of the run returns what it may, and the bytes read so far are always a beginning of
the bytes written, exactly when every request fits the pipe as it finds it. -/
theorem pipe_stream_iff (messages : Nat → IpcMessage) (turns : List PipeTurn)
    (hlegal : Each PipeTurn.step PipeTurn.Legal (pipeCreate messages) turns) :
    (Each PipeTurn.step PipeTurn.Right (pipeCreate messages) turns ∧
        Always PipeTurn.step (fun s => s.readBytes <+: s.written) (pipeCreate messages) turns) ↔
      Each PipeTurn.step PipeTurn.Fits (pipeCreate messages) turns := by
  have hright := each_iff_each (fun s turn => inv) (fun s turn h hl => turn.right_iff h hl)
    (PipeInv.created messages) hlegal
  have hstream := always_of_keeps (P := fun s : Pipe => s.readBytes <+: s.written)
    (fun s h => h.stream) (fun s turn => inv) (PipeInv.created messages) hlegal
  rw [← hright]
  exact ⟨fun h => h.1, fun h => ⟨h, hstream⟩⟩

/-- Three bytes go through, the write end is released, and the next read is at the end. -/
theorem pipe_stream_toEnd :
    Each PipeTurn.step PipeTurn.Right (pipeCreate blankMessages)
        [.writeFile [1, 2, 3] .sleeps, .read 64 .sleeps, .releaseWrite, .read 64 .sleeps] ∧
      Always PipeTurn.step (fun s => s.readBytes <+: s.written) (pipeCreate blankMessages)
        [.writeFile [1, 2, 3] .sleeps, .read 64 .sleeps, .releaseWrite, .read 64 .sleeps] := by
  refine (pipe_stream_iff blankMessages _ ?_).mpr ?_
  · exact ⟨⟨by decide, by decide⟩, ⟨by decide, by decide⟩, ⟨by decide, fun _ => ⟨rfl, rfl⟩⟩,
      ⟨by decide, by decide⟩, trivial⟩
  · refine ⟨fun _ => ⟨by decide, fun hfull => absurd hfull (by decide)⟩, ?_, trivial, ?_, trivial⟩
    · exact ⟨fun _ => by decide, fun hempty => absurd hempty (by decide)⟩
    · exact ⟨fun hcount => absurd rfl hcount, fun _ hheld => absurd rfl hheld⟩

/-- With both ends held: a write of 65 bytes is refused; and after a write of ten bytes a read with
room for four returns 0. -/
theorem pipe_stream_fails :
    ¬ (PipeTurn.writeFile (List.replicate 65 0) .sleeps).Right (pipeCreate blankMessages) ∧
      ¬ (PipeTurn.read 4 .sleeps).Right
        ((PipeTurn.writeFile (List.replicate 10 0) .sleeps).step (pipeCreate blankMessages)) := by
  refine ⟨fun hright => ?_, fun hright => ?_⟩
  · have hgone : (pipeCreate blankMessages).readReferences = 0 := hright .error rfl
    cases hgone
  · cases (hright .zero rfl).2

end KernelBoot.Ipc
