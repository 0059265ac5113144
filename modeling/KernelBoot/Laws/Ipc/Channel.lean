import KernelBoot.Ipc.ChannelSystem
import KernelBoot.Lib.Ring

/-!
# What a channel delivers

`ChannelTurn.moves` says once what a turn can do to the ring and to the record of messages: nothing,
store a message, hand out the first one, or close. From it comes the accounting law of `ChannelInv`:
what was delivered, followed by what the ring holds, is what was accepted. The FIFO order, the count,
the fate of messages queued at close and the harmlessness of a receive with too little room are read
off it in `channel_isQueue`.
-/

namespace KernelBoot.Ipc

open Lib List Nat ChannelTurn

variable {channel : IpcChannel} {s s' t : ChannelSystem} {block : Block} {capacity : Nat}
variable {outcome : ReceiveOutcome} {turn : ChannelTurn} {closes : Prop}

/-! ## Messages in the ring -/

/-- The sender and the bytes a message delivers. -/
def IpcMessage.content (message : IpcMessage) : Nat × List UInt8 := (message.sender, message.bytes)

/-- What the ring holds, oldest first. -/
def IpcChannel.queued (channel : IpcChannel) : List (Nat × List UInt8) :=
  (ringContents ipcQueueCapacity channel.messages channel.head channel.count).map
    IpcMessage.content

theorem bytes_copyBytes (old : Nat → UInt8) (sender : Nat) (data : List UInt8) :
    (IpcMessage.mk sender data.length (copyBytes old data)).bytes = data := by
  refine ext_getElem (by simp [IpcMessage.bytes]) fun i hi hlt => ?_
  simp only [IpcMessage.bytes, getElem_map, getElem_range, copyBytes,
    getElem?_eq_getElem hlt]

theorem bytes_length (message : IpcMessage) : message.bytes.length = message.size := by
  rw [IpcMessage.bytes, length_map, length_range]

/-- The ring's indices fit together. -/
structure IpcChannel.Wf (channel : IpcChannel) : Prop where
  head : channel.head < ipcQueueCapacity
  tail : channel.tail = (channel.head + channel.count) % ipcQueueCapacity
  count : channel.count ≤ ipcQueueCapacity

theorem queued_length (channel : IpcChannel) : channel.queued.length = channel.count := by
  rw [IpcChannel.queued, length_map, ringContents_length]

theorem IpcChannel.Wf.queued_put (h : channel.Wf) (hroom : channel.count ≠ ipcQueueCapacity)
    (sender : Nat) (data : List UInt8) :
    (channel.put sender data).queued = channel.queued ++ [(sender, data)] := by
  have hlt : channel.count < ipcQueueCapacity := Nat.lt_of_le_of_ne h.count hroom
  unfold IpcChannel.queued IpcChannel.put
  simp only [h.tail]
  rw [ringContents_push hlt, map_append, map_singleton, IpcMessage.content,
    bytes_copyBytes]

theorem IpcChannel.Wf.put (h : channel.Wf) (hroom : channel.count ≠ ipcQueueCapacity) (sender : Nat)
    (data : List UInt8) : (channel.put sender data).Wf where
  head := h.head
  tail := by
    simp only [IpcChannel.put]
    rw [h.tail, mod_add_mod, Nat.add_assoc]
  count := succ_le_of_lt (Nat.lt_of_le_of_ne h.count hroom)

/-- The first message is the first of what the ring holds; dropping it leaves the others. -/
theorem IpcChannel.Wf.queued_drop (h : channel.Wf) (hcount : channel.count ≠ 0) :
    channel.queued = channel.first.content :: channel.drop.queued := by
  obtain ⟨count, hcount⟩ := exists_eq_succ_of_ne_zero hcount
  unfold IpcChannel.queued IpcChannel.drop IpcChannel.first
  simp only [hcount, succ_eq_add_one, Nat.add_sub_cancel]
  rw [ringContents_pop, map_cons, mod_eq_of_lt h.head]

theorem IpcChannel.Wf.drop (h : channel.Wf) (hcount : channel.count ≠ 0) : channel.drop.Wf where
  head := mod_lt _ (by decide)
  tail := by
    simp only [IpcChannel.drop]
    rw [h.tail, mod_add_mod]
    congr 1
    omega
  count := by
    have := h.count
    simp only [IpcChannel.drop]
    omega

/-! ## What a turn can do -/

/-- The effect of a turn on the ring and on the record of messages; only a turn that `closes` may
close the channel. -/
inductive Moves (closes : Prop) (s s' : ChannelSystem) : Prop where
  | same (hchannel : s'.channel = s.channel) (haccepted : s'.accepted = s.accepted)
      (hdelivered : s'.delivered = s.delivered)
  | put (sender : Nat) (data : List UInt8) (hopen : s.channel.isOpen = true)
      (hroom : s.channel.count ≠ ipcQueueCapacity) (hsize : sizeAccepted data = true)
      (hchannel : s'.channel = s.channel.put sender data)
      (haccepted : s'.accepted = s.accepted ++ [(sender, data)])
      (hdelivered : s'.delivered = s.delivered)
  | take (hcount : s.channel.count ≠ 0) (hchannel : s'.channel = s.channel.drop)
      (haccepted : s'.accepted = s.accepted)
      (hdelivered : s'.delivered = s.delivered ++ [s.channel.first.content])
  | close (hcloses : closes) (hchannel : s'.channel = { s.channel with isOpen := false })
      (haccepted : s'.accepted = s.accepted) (hdelivered : s'.delivered = s.delivered)

/-- A pass of a send: it stores the message, or it touches neither ring nor record. -/
inductive SendOutcome.Spec (channel : IpcChannel) (sender : Nat) (data : List UInt8) :
    SendOutcome → Prop where
  | sent (hopen : channel.isOpen = true) (hroom : channel.count ≠ ipcQueueCapacity)
      (hsize : sizeAccepted data = true) : Spec channel sender data (.sent (channel.put sender data))
  | refused : Spec channel sender data .refused
  | blocks (hopen : channel.isOpen = true) (hfull : channel.count = ipcQueueCapacity) :
      Spec channel sender data .blocks

theorem ipcChannelSend_spec (channel : IpcChannel) (sender : Nat) (data : List UInt8) :
    (ipcChannelSend channel sender data).Spec channel sender data := by
  fun_cases ipcChannelSend channel sender data
  · exact .refused
  · exact .refused
  next hsize hopen =>
    simp only [Bool.or_eq_true, Bool.not_eq_true', beq_iff_eq, not_or, Bool.not_eq_false] at hopen
    exact .sent hopen.1 hopen.2 (by simpa using hsize)

theorem ipcChannelSendWait_spec (channel : IpcChannel) (sender : Nat) (data : List UInt8) :
    (ipcChannelSendWait channel sender data).Spec channel sender data := by
  fun_cases ipcChannelSendWait channel sender data
  · exact .refused
  · exact .refused
  next hsize hopen hroom => exact .sent (by simpa using hopen) hroom (by simpa using hsize)
  next hopen hfull => exact .blocks (by simpa using hopen) (not_not.mp hfull)

/-- A pass of a receive: it hands out the first message, which fits, or it changes nothing. -/
inductive ReceiveOutcome.Spec (channel : IpcChannel) (capacity : Nat) : ReceiveOutcome → Prop where
  | received (hcount : channel.count ≠ 0) (hfits : channel.first.size ≤ capacity) :
      Spec channel capacity (.received channel.drop channel.first.sender channel.first.bytes)
  | refused (h : channel.count ≠ 0 → capacity < channel.first.size) : Spec channel capacity .refused
  | blocks (hopen : channel.isOpen = true) (hempty : channel.count = 0) :
      Spec channel capacity .blocks

theorem ipcChannelReceive_spec (channel : IpcChannel) (capacity : Nat) :
    (ipcChannelReceive channel capacity).Spec channel capacity := by
  fun_cases ipcChannelReceive channel capacity
  next h => exact .refused fun hcount => h.resolve_left hcount
  next h =>
    obtain ⟨hcount, hfits⟩ := not_or.mp h
    exact .received hcount (Nat.le_of_not_lt hfits)

theorem ipcChannelReceiveWait_spec (channel : IpcChannel) (capacity : Nat) :
    (ipcChannelReceiveWait channel capacity).Spec channel capacity := by
  fun_cases ipcChannelReceiveWait channel capacity
  next h => exact .received h.1 h.2
  next h _ => exact .refused fun hcount => Nat.lt_of_not_le fun hfits => h ⟨hcount, hfits⟩
  next h hwait =>
    obtain ⟨hopen, hsmall⟩ := not_or.mp hwait
    refine .blocks (by simpa using hopen) (Classical.byContradiction fun hcount => ?_)
    exact hsmall ⟨hcount, Nat.lt_of_not_le fun hfits => h ⟨hcount, hfits⟩⟩

section

variable (hchannel : t.channel = s.channel) (haccepted : t.accepted = s.accepted)
  (hdelivered : t.delivered = s.delivered)

include hchannel haccepted hdelivered

theorem Moves.of_send {sender : Nat} {data : List UInt8} {outcome : SendOutcome}
    (h : outcome.Spec s.channel sender data) : Moves closes s (t.sendOutcome sender data block outcome) := by
  cases h with
  | sent hopen hroom hsize =>
    refine .put sender data hopen hroom hsize rfl ?_ hdelivered
    simp only [ChannelSystem.sendOutcome, haccepted]
  | refused => exact .same hchannel haccepted hdelivered
  | blocks =>
    cases block with
    | refused | sleeps | undone => exact .same hchannel haccepted hdelivered

theorem Moves.of_receive (h : outcome.Spec s.channel capacity) :
    Moves closes s (t.receiveOutcome capacity block outcome) := by
  cases h with
  | received hcount =>
    refine .take hcount rfl haccepted ?_
    simp only [ChannelSystem.receiveOutcome, hdelivered, IpcMessage.content]
  | refused => exact .same hchannel haccepted hdelivered
  | blocks =>
    cases block with
    | refused | sleeps | undone => exact .same hchannel haccepted hdelivered

theorem wakeReader_moves : Moves closes s t.wakeReader := by
  fun_cases ChannelSystem.wakeReader t
  all_goals exact .same hchannel haccepted hdelivered

theorem wakeWriter_moves : Moves closes s t.wakeWriter := by
  fun_cases ChannelSystem.wakeWriter t
  all_goals exact .same hchannel haccepted hdelivered

end

theorem ChannelTurn.moves (s : ChannelSystem) (turn : ChannelTurn) :
    Moves (turn = .close) s (turn.step s) := by
  cases turn with
  | send sender data =>
    rw [step]
    exact .of_send rfl rfl rfl (ipcChannelSend_spec _ _ _)
  | sendWait sender data block => exact .of_send rfl rfl rfl (ipcChannelSendWait_spec _ _ _)
  | receive capacity =>
    rw [step]
    exact .of_receive rfl rfl rfl (ipcChannelReceive_spec _ _)
  | receiveWait capacity block => exact .of_receive rfl rfl rfl (ipcChannelReceiveWait_spec _ _)
  | close =>
    rw [step]
    fun_cases ipcChannelClose s.channel
    · exact .same rfl rfl rfl
    · exact .close rfl rfl rfl rfl
  | resumeReader index block =>
    rw [step]
    fun_cases s.resumeReader index block
    · exact .same rfl rfl rfl
    · exact .of_receive rfl rfl rfl (ipcChannelReceiveWait_spec _ _)
    · exact .same rfl rfl rfl
  | resumeWriter index block =>
    rw [step]
    fun_cases s.resumeWriter index block
    · exact .same rfl rfl rfl
    · refine .of_send ?_ ?_ ?_ (ipcChannelSendWait_spec s.channel _ _) <;> rfl
    · exact .same rfl rfl rfl
  | leaveReaders index =>
    rw [step, ChannelSystem.leaveReaders]
    split
    all_goals exact .same rfl rfl rfl
  | leaveWriters index =>
    rw [step, ChannelSystem.leaveWriters]
    split
    all_goals exact .same rfl rfl rfl
  | wakeReader =>
    rw [step]
    split
    next => exact .same rfl rfl rfl
    next => exact wakeReader_moves rfl rfl rfl
  | wakeWriter =>
    rw [step]
    split
    next => exact .same rfl rfl rfl
    next => exact wakeWriter_moves rfl rfl rfl
  | closeWake =>
    rw [step]
    fun_cases ChannelSystem.closeWake s
    · exact .same rfl rfl rfl
    · exact .same rfl rfl rfl
    · exact wakeReader_moves rfl rfl rfl
    · exact .same rfl rfl rfl
    · exact wakeWriter_moves rfl rfl rfl

theorem Moves.isOpen (h : Moves closes s s') (hno : ¬ closes) :
    s'.channel.isOpen = s.channel.isOpen := by
  cases h with
  | same hchannel => rw [hchannel]
  | put sender data _ _ _ hchannel => rw [hchannel, IpcChannel.put]
  | take _ hchannel => rw [hchannel, IpcChannel.drop]
  | close hcloses => exact absurd hcloses hno

/-! ## The accounting law -/

/-- The ring is in order, and nothing accepted has been lost, repeated or reordered. -/
structure ChannelInv (s : ChannelSystem) : Prop where
  wf : s.channel.Wf
  account : s.delivered ++ s.channel.queued = s.accepted
  sizes : ∀ m ∈ s.accepted, sizeAccepted m.2 = true

theorem ChannelInv.moves (h : ChannelInv s) (hmoves : Moves closes s s') :
    ChannelInv s' := by
  cases hmoves with
  | same hchannel haccepted hdelivered =>
    refine ⟨hchannel ▸ h.wf, ?_, haccepted ▸ h.sizes⟩
    rw [hchannel, haccepted, hdelivered]
    exact h.account
  | put sender data hopen hroom hsize hchannel haccepted hdelivered =>
    refine ⟨hchannel ▸ h.wf.put hroom sender data, ?_, ?_⟩
    · rw [hchannel, haccepted, hdelivered, h.wf.queued_put hroom, ← append_assoc, h.account]
    · rw [haccepted]
      exact forall_mem_append.mpr ⟨h.sizes, forall_mem_singleton.mpr hsize⟩
  | take hcount hchannel haccepted hdelivered =>
    refine ⟨hchannel ▸ h.wf.drop hcount, ?_, haccepted ▸ h.sizes⟩
    rw [hchannel, haccepted, hdelivered, append_assoc, singleton_append,
      ← h.wf.queued_drop hcount]
    exact h.account
  | close _ hchannel haccepted hdelivered =>
    refine ⟨?_, ?_, haccepted ▸ h.sizes⟩
    · rw [hchannel]
      exact ⟨h.wf.head, h.wf.tail, h.wf.count⟩
    · rw [hchannel, haccepted, hdelivered]
      exact h.account

theorem ChannelInv.initial (messages : Nat → IpcMessage) :
    ChannelInv (ChannelSystem.initial messages) where
  wf := ⟨zero_lt_succ 15, rfl, Nat.zero_le 16⟩
  account := rfl
  sizes := forall_mem_nil _

theorem ChannelInv.reached (messages : Nat → IpcMessage) (turns : List ChannelTurn) :
    ChannelInv (run step (.initial messages) turns) :=
  run_keeps_any (fun s turn h => h.moves (turn.moves s)) (ChannelInv.initial messages) turns

theorem ChannelInv.first_mem (h : ChannelInv s) (hcount : s.channel.count ≠ 0) :
    s.channel.first.content ∈ s.accepted := by
  rw [← h.account, h.wf.queued_drop hcount]
  exact mem_append_right _ mem_cons_self

/-- The first message of a non-empty ring is no larger than a message may be. -/
theorem ChannelInv.first_size (h : ChannelInv s) (hcount : s.channel.count ≠ 0) :
    s.channel.first.size ≤ ipcMessageMax := by
  have hsize := h.sizes _ (h.first_mem hcount)
  rw [sizeAccepted, decide_eq_true_eq, IpcMessage.content, bytes_length] at hsize
  exact hsize.2

/-! ## After a close -/

theorem closed_moves (hclosed : s.channel.isOpen = false)
    (hmoves : Moves closes s s') : s'.channel.isOpen = false ∧ s'.accepted = s.accepted := by
  cases hmoves with
  | same hchannel haccepted => exact ⟨hchannel ▸ hclosed, haccepted⟩
  | put sender data hopen =>
    rw [hclosed] at hopen
    cases hopen
  | take hcount hchannel haccepted => exact ⟨hchannel ▸ hclosed, haccepted⟩
  | close _ hchannel haccepted => exact ⟨by rw [hchannel], haccepted⟩

theorem closed_run (hclosed : s.channel.isOpen = false) (turns : List ChannelTurn) :
    (run step s turns).accepted = s.accepted := by
  have hstep : ∀ (t : ChannelSystem) (turn : ChannelTurn),
      t.channel.isOpen = false ∧ t.accepted = s.accepted →
      (turn.step t).channel.isOpen = false ∧ (turn.step t).accepted = s.accepted := by
    intro t turn ht
    obtain ⟨hshut, hsame⟩ := closed_moves ht.1 (turn.moves t)
    exact ⟨hshut, hsame.trans ht.2⟩
  exact (run_keeps_any hstep ⟨hclosed, rfl⟩ turns).2

/-! ## Draining -/

/-- Two ways to ask for a message: the plain receive and the waiting one. -/
def ChannelTurn.Asks (capacity : Nat) (turn : ChannelTurn) : Prop :=
  turn = .receive capacity ∨ ∃ block, turn = .receiveWait capacity block

theorem ipcChannelReceive_fits (hcount : channel.count ≠ 0) (hfits : channel.first.size ≤ capacity) :
    ipcChannelReceive channel capacity =
      .received channel.drop channel.first.sender channel.first.bytes :=
  if_neg (not_or.mpr ⟨hcount, Nat.not_lt.mpr hfits⟩)

theorem ipcChannelReceiveWait_fits (hcount : channel.count ≠ 0)
    (hfits : channel.first.size ≤ capacity) : ipcChannelReceiveWait channel capacity =
      .received channel.drop channel.first.sender channel.first.bytes :=
  if_pos ⟨hcount, hfits⟩

theorem ChannelTurn.Asks.takes (h : turn.Asks capacity) (hcount : s.channel.count ≠ 0)
    (hfits : s.channel.first.size ≤ capacity) : (turn.step s).channel = s.channel.drop ∧
      (turn.step s).delivered = s.delivered ++ [s.channel.first.content] ∧
      (turn.step s).accepted = s.accepted := by
  rcases h with rfl | ⟨block, rfl⟩
  · rw [step, ipcChannelReceive_fits hcount hfits]
    exact ⟨rfl, rfl, rfl⟩
  · rw [step, ipcChannelReceiveWait_fits hcount hfits]
    exact ⟨rfl, rfl, rfl⟩

/-- As many receives with room for any message as the ring has messages deliver them all. -/
theorem ChannelInv.drain (h : ChannelInv s) {turns : List ChannelTurn}
    (hasks : ∀ turn ∈ turns, turn.Asks ipcMessageMax) (hlength : turns.length = s.channel.count) :
    (run step s turns).delivered = s.accepted := by
  induction turns generalizing s with
  | nil =>
    have hempty : s.channel.queued = [] := by
      rw [← length_eq_zero_iff, queued_length, ← hlength]
      rfl
    rw [run_nil, ← h.account, hempty, append_nil]
  | cons turn turns ih =>
    have hcount : s.channel.count ≠ 0 := by
      rw [← hlength]
      exact succ_ne_zero turns.length
    obtain ⟨hchannel, _, haccepted⟩ :=
      (hasks turn mem_cons_self).takes hcount (h.first_size hcount)
    rw [run_cons, ← haccepted]
    refine ih (h.moves (turn.moves s)) (fun t ht => hasks t (mem_cons_of_mem _ ht)) ?_
    rw [hchannel, IpcChannel.drop, ← hlength, length_cons, Nat.add_sub_cancel]

/-! ## Too little room -/

/-- The room of the receiver that makes this turn, if a receiver makes it. -/
def ChannelTurn.room (s : ChannelSystem) : ChannelTurn → Option Nat
  | .receive capacity => some capacity
  | .receiveWait capacity _ => some capacity
  | .resumeReader index _ => (s.wokenReaders[index]?).map Reader.capacity
  | _ => none

theorem receiveOutcome_small (h : outcome.Spec s.channel capacity)
    (hsmall : capacity < s.channel.first.size) (hchannel : t.channel = s.channel)
    (hdelivered : t.delivered = s.delivered) :
    (t.receiveOutcome capacity block outcome).channel = s.channel ∧
      (t.receiveOutcome capacity block outcome).delivered = s.delivered := by
  cases h with
  | received hcount hfits => exact absurd hfits (Nat.not_le.mpr hsmall)
  | refused => exact ⟨hchannel, hdelivered⟩
  | blocks =>
    cases block with
    | refused | sleeps | undone => exact ⟨hchannel, hdelivered⟩

/-- A receiver with too little room for the first message leaves the ring and the deliveries alone. -/
theorem ChannelTurn.small (hroom : turn.room s = some capacity)
    (hsmall : capacity < s.channel.first.size) :
    (turn.step s).channel = s.channel ∧ (turn.step s).delivered = s.delivered := by
  cases turn with
  | receive c =>
    cases hroom
    exact receiveOutcome_small (ipcChannelReceive_spec _ _) hsmall rfl rfl
  | receiveWait c block =>
    cases hroom
    exact receiveOutcome_small (ipcChannelReceiveWait_spec _ _) hsmall rfl rfl
  | resumeReader index block =>
    rw [room, Option.map_eq_some_iff] at hroom
    obtain ⟨reader, hreader, rfl⟩ := hroom
    rw [step, ChannelSystem.resumeReader, hreader]
    dsimp only
    split
    next => exact receiveOutcome_small (ipcChannelReceiveWait_spec _ _) hsmall rfl rfl
    next => exact ⟨rfl, rfl⟩
  | send | sendWait | close | resumeWriter | leaveReaders | leaveWriters | wakeReader | wakeWriter
    | closeWake => cases hroom

/-! ## Writes in progress -/

/-- Every write in progress carries data with the property `Q`. -/
def ChannelSystem.Writing (s : ChannelSystem) (Q : List UInt8 → Prop) : Prop :=
  ∀ writer ∈ s.writers ++ s.wokenWriters, Q writer.data

section Writing

variable {Q : List UInt8 → Prop} {writer : Writer} (h : s.Writing Q)
include h

theorem ChannelSystem.Writing.sleep (hdata : Q writer.data) :
    ({ s with writers := s.writers ++ [writer] } : ChannelSystem).Writing Q := by
  obtain ⟨hwaiting, hwoken⟩ := forall_mem_append.mp h
  exact forall_mem_append.mpr
    ⟨forall_mem_append.mpr ⟨hwaiting, forall_mem_singleton.mpr hdata⟩, hwoken⟩

theorem ChannelSystem.Writing.leave (index : Nat) :
    ({ s with writers := s.writers.eraseIdx index } : ChannelSystem).Writing Q := by
  obtain ⟨hwaiting, hwoken⟩ := forall_mem_append.mp h
  exact forall_mem_append.mpr ⟨fun w hw => hwaiting w (mem_of_mem_eraseIdx hw), hwoken⟩

theorem ChannelSystem.Writing.leaveWoken (index : Nat) :
    ({ s with wokenWriters := s.wokenWriters.eraseIdx index } : ChannelSystem).Writing Q := by
  obtain ⟨hwaiting, hwoken⟩ := forall_mem_append.mp h
  exact forall_mem_append.mpr ⟨hwaiting, fun w hw => hwoken w (mem_of_mem_eraseIdx hw)⟩

theorem ChannelSystem.Writing.wake {writers : List Writer} (hwriters : s.writers = writer :: writers) :
    ({ s with writers, wokenWriters := s.wokenWriters ++ [writer] } : ChannelSystem).Writing Q := by
  obtain ⟨hwaiting, hwoken⟩ := forall_mem_append.mp h
  rw [hwriters, forall_mem_cons] at hwaiting
  exact forall_mem_append.mpr
    ⟨hwaiting.2, forall_mem_append.mpr ⟨hwoken, forall_mem_singleton.mpr hwaiting.1⟩⟩

end Writing

/-! ## The channel as a queue -/

/-- Message slots before their first use. -/
def blankMessages : Nat → IpcMessage := fun _ => ⟨0, 0, fun _ => 0⟩

/-- What a channel promises in a state and from it on. -/
structure IsQueue (s : ChannelSystem) : Prop where
  /-- Deliveries are the first accepted messages, in their order. -/
  fifo : s.delivered <+: s.accepted
  count : s.channel.count = s.accepted.length - s.delivered.length
  bounded : s.channel.count ≤ 16
  /-- A closed channel accepts nothing more, whatever is tried. -/
  closed : s.channel.isOpen = false → ∀ later : List ChannelTurn,
    (run ChannelTurn.step s later).accepted = s.accepted
  /-- What the ring still holds, before a close or after it, is all delivered to receivers that have
  room for any message. -/
  drains : ∀ asks : List ChannelTurn, (∀ turn ∈ asks, turn.Asks ipcMessageMax) →
    asks.length = s.channel.count → (run ChannelTurn.step s asks).delivered = s.accepted
  /-- A receiver with too little room takes nothing. -/
  small : ∀ (turn : ChannelTurn) (capacity : Nat), turn.room s = some capacity →
    s.channel.count ≠ 0 → capacity < s.channel.first.size →
    (turn.step s).channel = s.channel ∧ (turn.step s).delivered = s.delivered

/-- A new channel is a bounded queue in every state of every interleaving of its calls. -/
theorem channel_isQueue (messages : Nat → IpcMessage) (turns : List ChannelTurn) :
    IsQueue (run ChannelTurn.step (.initial messages) turns) := by
  have h := ChannelInv.reached messages turns
  refine ⟨⟨_, h.account⟩, ?_, h.wf.count, fun hclosed => closed_run hclosed,
    fun asks hasks => h.drain hasks, fun turn capacity hroom _ => turn.small hroom⟩
  rw [← h.account, length_append, queued_length, Nat.add_sub_cancel_left]

end KernelBoot.Ipc
