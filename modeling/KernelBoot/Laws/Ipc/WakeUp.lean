import KernelBoot.Laws.Ipc.Channel

/-!
# Wake-ups on a channel

A send wakes one reader, a receive wakes one writer, a close wakes everybody. A reader is stranded
when it sleeps with room for the first message while nobody is on the way to take that message: no
woken receiver, no wake-up of a reader still to be made.

`WakeInv` counts: while readers wait, the ring holds no more messages than there are receivers woken
or about to be; while writers wait, it has no more free slots than there are senders woken or about
to be. A woken call takes its share of the count with it when it goes on. It pays for it by using a
message or a slot, and only then the count stays right: a woken receiver that returns without the
message leaves the next reader asleep (`strandedReader_smallReceiver`). For writers the same can only
happen when the scheduler had to undo the call's block.
-/

namespace KernelBoot.Ipc

open Lib List

variable {s : ChannelSystem} {index j k sender : Nat} {data : List UInt8}

/-- A reader with room for the first message sleeps, and nobody is on the way to it. -/
def ChannelSystem.StrandedReader (s : ChannelSystem) : Prop :=
  s.channel.count ≠ 0 ∧ (∃ reader ∈ s.readers, s.channel.first.size ≤ reader.capacity) ∧
    s.wokenReaders = [] ∧ s.readerWakes = 0 ∧ s.closing ≠ .readers

/-- A writer sleeps beside a free slot, and nobody is on the way to it. -/
def ChannelSystem.StrandedWriter (s : ChannelSystem) : Prop :=
  s.channel.count ≠ ipcQueueCapacity ∧ s.writers ≠ [] ∧
    s.wokenWriters = [] ∧ s.writerWakes = 0 ∧ s.closing = .none

/-- A woken receiver that finds a message takes it, and a woken sender that finds the channel open
with a free slot uses it. -/
def ChannelTurn.Takes (s : ChannelSystem) : ChannelTurn → Prop
  | .resumeReader index _ => ∀ reader, s.wokenReaders[index]? = some reader →
    s.channel.count ≠ 0 → reader.sleeps = true ∧ s.channel.first.size ≤ reader.capacity
  | .resumeWriter index _ => ∀ writer, s.wokenWriters[index]? = some writer →
    s.channel.isOpen = true → s.channel.count ≠ ipcQueueCapacity → writer.sleeps = true
  | _ => True

/-- Enough wake-ups are under way for those who wait. `j` receivers and `k` senders have just left
the woken ones and have not acted yet. -/
structure WakeInv (j k : Nat) (s : ChannelSystem) : Prop where
  readers : s.readers = [] ∨ s.closing = .readers ∨
    s.channel.count ≤ s.wokenReaders.length + s.readerWakes + j
  writers : s.writers = [] ∨ s.closing ≠ .none ∨
    ipcQueueCapacity ≤ s.channel.count + s.wokenWriters.length + s.writerWakes + k
  /-- Nobody waits for a closed channel once the close has woken that side. -/
  closedReaders : s.channel.isOpen = false → s.closing ≠ .readers → s.readers = []
  closedWriters : s.channel.isOpen = false → s.closing = .none → s.writers = []
  quiet : s.channel.isOpen = true → s.closing = .none
  sized : ∀ writer ∈ s.writers ++ s.wokenWriters, sizeAccepted writer.data = true

theorem WakeInv.writing (h : WakeInv j k s) : s.Writing fun data => sizeAccepted data = true :=
  h.sized

theorem WakeInv.initial (messages : Nat → IpcMessage) :
    WakeInv 0 0 (ChannelSystem.initial messages) where
  readers := .inl rfl
  writers := .inl rfl
  closedReaders := fun _ _ => rfl
  closedWriters := fun _ _ => rfl
  quiet := fun _ => rfl
  sized := forall_mem_nil _

theorem WakeInv.not_strandedReader (h : WakeInv 0 k s) : ¬ s.StrandedReader := by
  rintro ⟨hcount, ⟨reader, hmem, _⟩, hwoken, hwakes, hclosing⟩
  rcases h.readers with hnone | hclose | hle
  · rw [hnone] at hmem
    cases hmem
  · exact hclosing hclose
  · rw [hwoken, hwakes] at hle
    exact hcount (Nat.le_zero.mp hle)

theorem WakeInv.not_strandedWriter (h : WakeInv j 0 s) (hbound : s.channel.count ≤ ipcQueueCapacity) :
    ¬ s.StrandedWriter := by
  rintro ⟨hcount, hwait, hwoken, hwakes, hclosing⟩
  rcases h.writers with hnone | hclose | hle
  · exact hwait hnone
  · exact hclose hclosing
  · rw [hwoken, hwakes] at hle
    exact hcount (Nat.le_antisymm hbound hle)

/-! ## A call that goes on -/

/-- A receiver that finds the ring empty owes nothing. -/
theorem WakeInv.settleReader (h : WakeInv j k s) (hempty : s.channel.count = 0) : WakeInv 0 k s :=
  { h with readers := .inr (.inr (hempty.le.trans (Nat.zero_le _))) }

/-- A sender that finds the ring full, or the channel closed, owes nothing. -/
theorem WakeInv.settleWriter (h : WakeInv j k s)
    (hdone : s.channel.isOpen = false ∨ s.channel.count = ipcQueueCapacity) : WakeInv j 0 s := by
  refine { h with writers := ?_ }
  rcases hdone with hclosed | hfull
  · rcases Classical.em (s.closing = .none) with hnone | hclosing
    · exact .inl (h.closedWriters hclosed hnone)
    · exact .inr (.inl hclosing)
  · refine .inr (.inr ?_)
    omega

/-- A receiver goes to sleep on an open, empty channel. -/
theorem WakeInv.sleepReader (h : WakeInv j k s) (reader : Reader) (hopen : s.channel.isOpen = true)
    (hempty : s.channel.count = 0) : WakeInv 0 k { s with readers := s.readers ++ [reader] } :=
  { h with
    readers := .inr (.inr (hempty.le.trans (Nat.zero_le _)))
    closedReaders := fun hclosed => absurd (hopen.symm.trans hclosed) (by decide) }

/-- A sender goes to sleep on an open, full channel. -/
theorem WakeInv.sleepWriter (h : WakeInv j k s) (writer : Writer) (hopen : s.channel.isOpen = true)
    (hfull : s.channel.count = ipcQueueCapacity) (hsize : sizeAccepted writer.data = true) :
    WakeInv j 0 { s with writers := s.writers ++ [writer] } := by
  refine { h with writers := ?_, closedWriters := ?_, sized := h.writing.sleep hsize }
  · refine .inr (.inr ?_)
    simp only [hfull]
    omega
  · exact fun hclosed => absurd (hopen.symm.trans hclosed) (by decide)

/-- A pass of a receive. A receiver that was woken must take the message it finds. -/
theorem WakeInv.receive (h : WakeInv j 0 s) (hj : j ≤ 1) {capacity : Nat} {outcome : ReceiveOutcome}
    (hspec : outcome.Spec s.channel capacity)
    (htakes : j ≠ 0 → s.channel.count ≠ 0 → s.channel.first.size ≤ capacity) (block : Block) :
    WakeInv 0 0 (s.receiveOutcome capacity block outcome) := by
  cases hspec with
  | received hcount =>
    have hpos : 0 < s.channel.count := Nat.pos_of_ne_zero hcount
    refine { h with readers := ?_, writers := ?_ }
    · refine h.readers.imp_right (Or.imp_right fun hle => ?_)
      simp only [ChannelSystem.receiveOutcome, IpcChannel.drop]
      omega
    · refine h.writers.imp_right (Or.imp_right fun hle => ?_)
      simp only [ChannelSystem.receiveOutcome, IpcChannel.drop]
      omega
  | refused hsmall =>
    rcases Nat.eq_zero_or_pos j with rfl | hwoken
    · exact h
    · refine h.settleReader (Classical.byContradiction fun hcount => ?_)
      have hfits := htakes (Nat.pos_iff_ne_zero.mp hwoken) hcount
      exact absurd hfits (Nat.not_le.mpr (hsmall hcount))
  | blocks hopen hempty =>
    cases block with
    | refused => exact h.settleReader hempty
    | sleeps => exact h.sleepReader _ hopen hempty
    | undone => exact h.sleepReader _ hopen hempty

/-- A pass of a send. A sender that was woken is refused only by a closed channel. -/
theorem WakeInv.send (h : WakeInv 0 k s) (hk : k ≤ 1) {outcome : SendOutcome}
    (hspec : outcome.Spec s.channel sender data)
    (hrefused : k ≠ 0 → outcome = .refused → s.channel.isOpen = false)
    (hblocks : outcome = .blocks → sizeAccepted data = true) (block : Block) :
    WakeInv 0 0 (s.sendOutcome sender data block outcome) := by
  cases hspec with
  | sent hopen =>
    refine { h with readers := ?_, writers := ?_ }
    · refine h.readers.imp_right (Or.imp_right fun hle => ?_)
      simp only [ChannelSystem.sendOutcome, IpcChannel.put]
      omega
    · refine h.writers.imp_right (Or.imp_right fun hle => ?_)
      simp only [ChannelSystem.sendOutcome, IpcChannel.put]
      omega
  | refused =>
    rcases Nat.eq_zero_or_pos k with rfl | hwoken
    · exact h
    · exact h.settleWriter (.inl (hrefused (Nat.pos_iff_ne_zero.mp hwoken) rfl))
  | blocks hopen hfull =>
    cases block with
    | refused => exact h.settleWriter (.inr hfull)
    | sleeps | undone => exact h.sleepWriter _ hopen hfull (hblocks rfl)

theorem ipcChannelSend_blocks (channel : IpcChannel) (sender : Nat) (data : List UInt8) :
    ipcChannelSend channel sender data ≠ .blocks := by
  fun_cases ipcChannelSend channel sender data
  all_goals rintro ⟨⟩

theorem ipcChannelSendWait_blocks {channel : IpcChannel}
    (h : ipcChannelSendWait channel sender data = .blocks) : sizeAccepted data = true := by
  unfold ipcChannelSendWait at h
  split at h
  next => cases h
  next hsize => simpa using hsize

theorem ipcChannelSendWait_refused {channel : IpcChannel} (hsize : sizeAccepted data = true)
    (h : ipcChannelSendWait channel sender data = .refused) : channel.isOpen = false := by
  revert h
  fun_cases ipcChannelSendWait channel sender data
  next hrefused =>
    rw [hsize] at hrefused
    cases hrefused
  next hclosed => exact fun _ => by simpa using hclosed
  · rintro ⟨⟩
  · rintro ⟨⟩

/-! ## Taking a call off the woken ones -/

theorem WakeInv.leaveWokenReaders (h : WakeInv 0 0 s) {reader : Reader}
    (hreader : s.wokenReaders[index]? = some reader) :
    WakeInv 1 0 { s with wokenReaders := s.wokenReaders.eraseIdx index } := by
  obtain ⟨hindex, _⟩ := List.getElem?_eq_some_iff.mp hreader
  refine { h with readers := h.readers.imp_right (Or.imp_right fun hle => ?_) }
  simp only [length_eraseIdx_of_lt hindex]
  omega

theorem WakeInv.leaveWokenWriters (h : WakeInv 0 0 s) {writer : Writer}
    (hwriter : s.wokenWriters[index]? = some writer) :
    WakeInv 0 1 { s with wokenWriters := s.wokenWriters.eraseIdx index } := by
  obtain ⟨hindex, _⟩ := List.getElem?_eq_some_iff.mp hwriter
  refine { h with
    writers := h.writers.imp_right (Or.imp_right fun hle => ?_), sized := h.writing.leaveWoken index }
  simp only [length_eraseIdx_of_lt hindex]
  omega

theorem WakeInv.resumeReader (h : WakeInv 0 0 s) {block : Block}
    (htakes : (ChannelTurn.resumeReader index block).Takes s) :
    WakeInv 0 0 (s.resumeReader index block) := by
  fun_cases s.resumeReader index block
  · exact h
  next reader hreader _ _ =>
    exact (h.leaveWokenReaders hreader).receive (Nat.le_refl 1) (ipcChannelReceiveWait_spec _ _)
      (fun _ hcount => (htakes reader hreader hcount).2) block
  next reader hreader _ hundone =>
    refine (h.leaveWokenReaders hreader).settleReader (Classical.byContradiction fun hcount => ?_)
    exact hundone (htakes reader hreader hcount).1

theorem WakeInv.resumeWriter (h : WakeInv 0 0 s) {block : Block}
    (htakes : (ChannelTurn.resumeWriter index block).Takes s) :
    WakeInv 0 0 (s.resumeWriter index block) := by
  fun_cases s.resumeWriter index block
  · exact h
  next writer hwriter _ _ =>
    have hsize : sizeAccepted writer.data = true :=
      h.sized writer (mem_append_right _ (mem_of_getElem? hwriter))
    exact (h.leaveWokenWriters hwriter).send (Nat.le_refl 1) (ipcChannelSendWait_spec _ _ _)
      (fun _ => ipcChannelSendWait_refused hsize) (fun _ => hsize) block
  next writer hwriter _ hundone =>
    refine (h.leaveWokenWriters hwriter).settleWriter ?_
    rcases Bool.eq_false_or_eq_true s.channel.isOpen with hopen | hclosed
    · refine .inr (Classical.byContradiction fun hroom => ?_)
      exact hundone (htakes writer hwriter hopen hroom)
    · exact .inl hclosed

/-! ## Leaving and waking -/

theorem WakeInv.leaveReaders (h : WakeInv 0 0 s) (index : Nat) :
    WakeInv 0 0 (s.leaveReaders index) := by
  fun_cases s.leaveReaders index
  · refine { h with readers := ?_, closedReaders := ?_ }
    · refine h.readers.imp_left fun hnone => ?_
      simp only [hnone, eraseIdx_nil]
    · intro hclosed hclosing
      simp only [h.closedReaders hclosed hclosing, eraseIdx_nil]
  · exact h

theorem WakeInv.leaveWriters (h : WakeInv 0 0 s) (index : Nat) :
    WakeInv 0 0 (s.leaveWriters index) := by
  fun_cases s.leaveWriters index
  · refine { h with writers := ?_, closedWriters := ?_, sized := h.writing.leave index }
    · refine h.writers.imp_left fun hnone => ?_
      simp only [hnone, eraseIdx_nil]
    · intro hclosed hclosing
      simp only [h.closedWriters hclosed hclosing, eraseIdx_nil]
  · exact h

/-- A wake-up of a reader, made on behalf of a send (`wakes = 1`) or of a close (`wakes = 0`). -/
theorem WakeInv.wakeReader (h : WakeInv 0 0 s) {wakes : Nat} (hwakes : wakes ≤ 1)
    (hpending : wakes ≤ s.readerWakes) :
    WakeInv 0 0 { s with readerWakes := s.readerWakes - wakes }.wakeReader := by
  unfold ChannelSystem.wakeReader
  split
  next hnone => exact { h with readers := .inl hnone }
  next reader readers hreaders =>
    refine { h with readers := ?_, closedReaders := ?_ }
    · refine .inr ((h.readers.resolve_left fun hnone => ?_).imp_right fun hle => ?_)
      · cases hnone.symm.trans hreaders
      · simp only [length_append, length_singleton]
        omega
    · intro hclosed hclosing
      cases (h.closedReaders hclosed hclosing).symm.trans hreaders

theorem WakeInv.wakeWriter (h : WakeInv 0 0 s) {wakes : Nat} (hwakes : wakes ≤ 1)
    (hpending : wakes ≤ s.writerWakes) :
    WakeInv 0 0 { s with writerWakes := s.writerWakes - wakes }.wakeWriter := by
  unfold ChannelSystem.wakeWriter
  split
  next hnone => exact { h with writers := .inl hnone }
  next writer writers hwriters =>
  have hwriters : s.writers = writer :: writers := hwriters
  refine { h with writers := ?_, closedWriters := ?_, sized := h.writing.wake hwriters }
  · refine .inr ((h.writers.resolve_left fun hnone => ?_).imp_right fun hle => ?_)
    · cases hnone.symm.trans hwriters
    · simp only [length_append, length_singleton]
      omega
  · intro hclosed hclosing
    cases (h.closedWriters hclosed hclosing).symm.trans hwriters

theorem WakeInv.closeWake (h : WakeInv 0 0 s) : WakeInv 0 0 s.closeWake := by
  have hshut : s.closing ≠ .none → s.channel.isOpen = false := by
    intro hclosing
    rcases Bool.eq_false_or_eq_true s.channel.isOpen with hopen | hclosed
    · exact absurd (h.quiet hopen) hclosing
    · exact hclosed
  unfold ChannelSystem.closeWake
  split
  next => exact h
  next hclosing =>
    have hclosed := hshut (by rw [hclosing]; decide)
    split
    next hempty =>
      have hnone : s.readers = [] := List.isEmpty_iff.mp hempty
      exact
        { h with
          readers := .inl hnone
          writers := .inr (.inl fun hno => by cases hno)
          closedReaders := fun _ _ => hnone
          closedWriters := fun _ hno => by cases hno
          quiet := fun hopen => absurd (hopen.symm.trans hclosed) (by decide) }
    next => exact h.wakeReader (Nat.zero_le 1) (Nat.zero_le _)
  next hclosing =>
    have hclosed := hshut (by rw [hclosing]; decide)
    split
    next hempty =>
      have hnone : s.writers = [] := List.isEmpty_iff.mp hempty
      have hgone : s.readers = [] := h.closedReaders hclosed (by rw [hclosing]; decide)
      exact
        { h with
          readers := .inl hgone
          writers := .inl hnone
          closedReaders := fun _ _ => hgone
          closedWriters := fun _ _ => hnone
          quiet := fun _ => rfl }
    next => exact h.wakeWriter (Nat.zero_le 1) (Nat.zero_le _)

/-! ## Runs -/

theorem ChannelTurn.wakeInv {turn : ChannelTurn} (h : WakeInv 0 0 s) (htakes : turn.Takes s) :
    WakeInv 0 0 (turn.step s) := by
  cases turn with
  | send sender data =>
    rw [ChannelTurn.step]
    exact h.send (Nat.zero_le 1) (ipcChannelSend_spec _ _ _) (fun hzero => absurd rfl hzero)
      (fun hblocks => absurd hblocks (ipcChannelSend_blocks _ _ _)) _
  | sendWait sender data block =>
    exact h.send (Nat.zero_le 1) (ipcChannelSendWait_spec _ _ _) (fun hzero => absurd rfl hzero)
      ipcChannelSendWait_blocks block
  | receive capacity =>
    rw [ChannelTurn.step]
    exact h.receive (Nat.zero_le 1) (ipcChannelReceive_spec _ _) (fun hzero => absurd rfl hzero) _
  | receiveWait capacity block =>
    exact h.receive (Nat.zero_le 1) (ipcChannelReceiveWait_spec _ _)
      (fun hzero => absurd rfl hzero) block
  | close =>
    rw [ChannelTurn.step]
    fun_cases ipcChannelClose s.channel
    · exact h
    · exact
        { h with
          readers := .inr (.inl rfl)
          writers := .inr (.inl fun hno => by cases hno)
          closedReaders := fun _ hno => absurd rfl hno
          closedWriters := fun _ hno => by cases hno
          quiet := fun hopen => by cases hopen }
  | resumeReader index block => exact h.resumeReader htakes
  | resumeWriter index block => exact h.resumeWriter htakes
  | leaveReaders index => exact h.leaveReaders index
  | leaveWriters index => exact h.leaveWriters index
  | wakeReader =>
    rw [ChannelTurn.step]
    split
    next => exact h
    next hpending => exact h.wakeReader (Nat.le_refl 1) (Nat.pos_of_ne_zero hpending)
  | wakeWriter =>
    rw [ChannelTurn.step]
    split
    next => exact h
    next hpending => exact h.wakeWriter (Nat.le_refl 1) (Nat.pos_of_ne_zero hpending)
  | closeWake => exact h.closeWake

/-- In every run whose woken calls use what they find, nobody is ever stranded. -/
theorem never_stranded (messages : Nat → IpcMessage) (turns : List ChannelTurn)
    (htakes : Each ChannelTurn.step ChannelTurn.Takes (.initial messages) turns) :
    Always ChannelTurn.step (fun s => ¬ s.StrandedReader ∧ ¬ s.StrandedWriter) (.initial messages)
      turns := by
  refine always_of_keeps (I := fun s => WakeInv 0 0 s ∧ ChannelInv s) ?_ ?_
    ⟨WakeInv.initial messages, ChannelInv.initial messages⟩ htakes
  · exact fun s h => ⟨h.1.not_strandedReader, h.1.not_strandedWriter h.2.wf.count⟩
  · exact fun s turn h ht => ⟨ChannelTurn.wakeInv h.1 ht, h.2.moves (turn.moves s)⟩

/-- One reader sleeps, is woken by a send and takes its message. -/
theorem never_stranded_oneReader :
    Always ChannelTurn.step (fun s => ¬ s.StrandedReader ∧ ¬ s.StrandedWriter)
      (.initial blankMessages)
      [.receiveWait 64 .sleeps, .send 7 [1, 2, 3], .wakeReader, .resumeReader 0 .sleeps] := by
  refine never_stranded blankMessages _ ⟨trivial, trivial, trivial, ?_, trivial⟩
  intro reader hreader _
  cases hreader
  exact ⟨rfl, by decide⟩

/-- Two readers sleep, the first with room for one byte, the second for 64. A send of ten bytes wakes
the first, which returns without the message. -/
def smallReceiver : List ChannelTurn :=
  [.receiveWait 1 .sleeps, .receiveWait 64 .sleeps, .send 7 (List.replicate 10 0), .wakeReader,
    .resumeReader 0 .sleeps]

/-- The second reader sleeps on with its message in the ring. -/
theorem strandedReader_smallReceiver :
    (run ChannelTurn.step (.initial blankMessages) smallReceiver).StrandedReader :=
  ⟨by decide, ⟨⟨64, true⟩, mem_singleton.mpr rfl, by decide⟩, rfl, rfl, by decide⟩

end KernelBoot.Ipc
