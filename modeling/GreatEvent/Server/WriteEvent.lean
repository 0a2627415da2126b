import GreatEvent.Server.FileSendStream

/-!
# The write event of a file transfer

A transfer goes on as long as `onWrite` is called. `onWrite` arms its event
again when `writeBuffer` has returned something other than 0, and after a
timeout it has not called `writeBuffer`. There is nothing else that would:
`setHeartCount` does nothing. So one timeout in the middle of a transfer ends
it, and without one the event is armed in every state.
-/

namespace GreatEvent

open Lib FrameReader

namespace TaskFileSend

open TagFileSendBuffer

/-- The client's start command has been processed. -/
def Started (w : World TaskFileSend) : Prop := .start ∈ commandsIn w.trace

/-- There is something of the file to send. -/
def Unfinished (t : TaskFileSend) : Prop := t.mHasReadLen < t.mFileLen ∨ t.mSendBuffer.totalLen ≠ 0

instance (w : World TaskFileSend) : Decidable (Started w) := inferInstanceAs (Decidable (_ ∈ _))

instance (t : TaskFileSend) : Decidable (Unfinished t) := inferInstanceAs (Decidable (_ ∨ _))

/-- A transfer that is under way, between two callbacks, has its write event. -/
def KeepsWriteEvent (w : World TaskFileSend) : Prop :=
  w.Live → Started w → Unfinished w.obj → w.mWriting = true ∧ w.writeEvent = true

/-- The event is not the timeout of the write event in the middle of a transfer. -/
def Calm (w : World TaskFileSend) (e : Event) : Prop :=
  e = .writeTimeout → Started w → ¬ Unfinished w.obj

instance (w : World TaskFileSend) (e : Event) : Decidable (Calm w e) :=
  inferInstanceAs (Decidable (_ → _ → _))

/-- What holds between two callbacks of a session whose write event is never lost. -/
structure Sending (w : World TaskFileSend) : Prop where
  buffer : Free w.obj.mSendBuffer ∨ Waits w.obj.mSendBuffer
  goes : w.obj.mbSendingData = true
  flag : w.mWriting = w.writeEvent
  armed : Started w → Unfinished w.obj → w.mWriting = true

theorem Sending.keeps {w : World TaskFileSend} (sending : Sending w) : KeepsWriteEvent w := by
  intro _ started unfinished
  have armed := sending.armed started unfinished
  exact ⟨armed, sending.flag.symm.trans armed⟩

/-- Only a command can start a transfer. -/
theorem started_reading {w t : World TaskFileSend} {obs : List Obs} (reading : AllReading obs)
    (logged : t.trace = w.trace ++ obs) : Started t ↔ Started w := by
  unfold Started
  rw [logged, commandsIn_append, commandsIn_reading reading, List.append_nil]

section
variable {w w' : World TaskFileSend} {e : Event}

/-- The end of a callback: the session lives, and nothing is lost. -/
def Ends (t : World TaskFileSend) : Prop := t.Live → Sending t

theorem ends_stopped (t : World TaskFileSend) (s : Stop) : Ends (t.stopped s) :=
  fun live => absurd live (World.not_live_of_halted (Option.some_ne_none s))

theorem ends_torn (t : World TaskFileSend) (by' : Teardown) : Ends (t.torn by') :=
  fun live => absurd live (World.not_live_of_closed rfl)

/-- A callback that leaves the event armed. -/
theorem ends_armWrite {t : World TaskFileSend} (buffer : Free t.obj.mSendBuffer ∨ Waits t.obj.mSendBuffer)
    (goes : t.obj.mbSendingData = true) (flag : t.mWriting = t.writeEvent) : Ends t.armWrite := by
  intro _
  unfold World.armWrite
  split
  case isTrue armed => exact ⟨buffer, goes, flag, fun _ _ => armed⟩
  case isFalse => exact ⟨buffer, goes, rfl, fun _ _ => rfl⟩

/-- A read callback goes on as its method left it. -/
theorem ends_afterRead {t : World TaskFileSend} (sending : Sending t) (ret : Int) : Ends (t.afterRead ret) := by
  unfold World.afterRead
  split
  · exact ends_torn t .onRead
  · intro _
    unfold World.armRead
    split
    · exact sending
    · exact ⟨sending.buffer, sending.goes, sending.flag, sending.armed⟩

/-- A send from a buffer that waits arms the event again, whatever comes of it. -/
theorem send_ends (waits : Waits w.obj.mSendBuffer) (goes : w.obj.mbSendingData = true)
    (flag : w.mWriting = w.writeEvent) :
    wp tcpSendData (fun ret t => Ends (t.afterWrite ret)) (fun s t => Ends (t.stopped s)) w := by
  apply wp_tcpSendData waits
  · intro left
    have busy := waits.busy
    rw [World.afterWrite_pos _ (by omega)]
    exact ends_armWrite waits.turned goes flag
  · intro part left _ _ _
    have rearms : ∀ t : World TaskFileSend, t.afterWrite (-1) = t.armWrite := by
      intro t
      have goesOn : (-1 : Int) ≠ ownSockExit := by decide
      rw [World.afterWrite, if_neg goesOn, if_pos (by decide)]
    rw [rearms]
    exact ends_armWrite (.inr waits) goes flag
  · intro part left _
    exact ends_stopped _ _

/-- A write callback. -/
theorem write_ends (sending : Sending w) {sends : List SendResult} :
    wp writeBuffer (fun ret t => Ends (t.afterWrite ret)) (fun s t => Ends (t.stopped s)) (w.writing sends) := by
  obtain ⟨buffer, goes, -, -⟩ := sending
  apply wp_writeBuffer
  · intro busy
    exact send_ends (buffer.resolve_left fun free => busy free.totalLen) goes rfl
  · intro free _ val rest _
    have empty := buffer.resolve_right fun waits => waits.busy free
    exact send_ends (loadCmd_waits (w := { w.writing sends with obj := { w.obj with mMsgQueue := rest } })
      empty val 0).1 goes rfl
  · intro _ _ stopped
    cases goes.symm.trans stopped
  · intro free _ _ _ file _
    have empty := buffer.resolve_right fun waits => waits.busy free
    exact send_ends (loadChunk_waits (w := w.writing sends) empty file).1 goes rfl
  · exact fun _ _ => ends_stopped _ _
  · exact fun _ => ends_stopped _ _
  · intro _ _
    have exits : ∀ t : World TaskFileSend, t.afterWrite ownSockExit = t.torn .onWrite :=
      fun t => if_pos rfl
    apply wp_tcpSendData_frame
    · intro _ _ _ _
      rw [exits]
      exact ends_torn _ _
    · exact fun _ _ => ends_stopped _ _

/-- A read callback. -/
theorem read_ends (sending : Sending w) {recvs : List RecvResult} {sends : List SendResult} :
    wp readBuffer (fun ret t => Ends (t.afterRead ret)) (fun s t => Ends (t.stopped s))
      (w.reading recvs sends) := by
  obtain ⟨buffer, goes, flag, armed⟩ := sending
  have quiet : ∀ b inp recvs' obs, AllReading obs →
      Sending ((w.reading recvs sends).read b inp recvs' obs) := by
    intro b inp recvs' obs reading
    refine ⟨buffer, goes, flag, ?_⟩
    intro started unfinished
    exact armed ((started_reading (w := w) reading rfl).mp started) unfinished
  apply wp_readBuffer
  · exact fun ret b inp recvs' obs _ reading => ends_afterRead (quiet b inp recvs' obs reading) ret
  · exact fun _ _ _ _ _ _ => ends_stopped _ _
  · intro b inp recvs' obs _ reading
    obtain ⟨buffer', goes', flag', armed'⟩ := quiet b inp recvs' obs reading
    apply wp_dispatch
    · exact ends_stopped _ _
    · intro ret _
      have next : Sending ((w.reading recvs sends).read b inp recvs' obs).resetReader :=
        ⟨buffer', goes', flag', armed'⟩
      exact ends_afterRead next ret
    · exact fun _ => ends_stopped _ _
    · intro c data writing event isData arms ret _
      apply ends_afterRead
      have more : data = true := isData.elim (fun same => same.trans goes) id
      rcases arms with ⟨⟨v, rfl⟩, rfl, rfl⟩ | ⟨rfl, event⟩
      · refine ⟨buffer', more, flag', ?_⟩
        intro started unfinished
        apply armed' _ unfinished
        unfold Started at started ⊢
        change .start ∈ commandsIn (w.trace ++ obs ++ [.command (.setpause v)]) at started
        rw [commandsIn_append] at started
        rcases List.mem_append.mp started with earlier | now
        · exact earlier
        · cases List.mem_singleton.mp now
      · exact ⟨buffer', more, (event flag').symm, fun _ _ => rfl⟩

/-- **A turn that is calm keeps the write event.** -/
theorem ends_turn (sending : Sending w) (fired : fire w e = some w') (calm : Calm w e) : Ends w' := by
  cases e with
  | read recvs sends => exact fire_read fired (read_ends sending)
  | readTimeout =>
    apply fire_readTimeout (P := Ends) fired
    intro _
    obtain ⟨buffer, goes, flag, armed⟩ := sending
    unfold World.armRead
    split
    · exact ⟨buffer, goes, flag, armed⟩
    · exact ⟨buffer, goes, flag, armed⟩
  | write sends => exact fire_write fired (write_ends sending)
  | writeTimeout =>
    apply fire_writeTimeout (P := Ends) fired
    intro _
    refine ⟨sending.buffer, sending.goes, rfl, ?_⟩
    intro started unfinished
    exact absurd unfinished (calm rfl started)
  | timer =>
    apply fire_timer (P := Ends) fired
    exact fun _ => ⟨sending.buffer, sending.goes, sending.flag, sending.armed⟩

/-- A timeout in the middle of a transfer loses the event. -/
theorem loses_event (fired : fire w .writeTimeout = some w') (started : Started w)
    (unfinished : Unfinished w.obj) : ¬ KeepsWriteEvent w' := by
  have live := live_of_fire fired
  apply fire_writeTimeout (P := fun t => ¬ KeepsWriteEvent t) fired
  intro keeps
  cases (keeps live started unfinished).1

end

/-- A new task waits with its login reply, or has sent it. -/
theorem ends_start (filename : List Byte) (file : Option FileStream) (st_size : Nat) (inp : List Byte)
    (sends : List SendResult) :
    Ends (start filename file st_size inp sends) := by
  apply after_of_wp
  simp only [construct, wp_bind, wp_self, wp_modifySend, wp_emit]
  have fits : (loginRetFrame (fileInfo (init filename file st_size).mFileLen)).bytes.length ≤ cmdLen := by
    rw [length_loginRetFrame]
    decide
  have waits := waits_login filename file st_size fits
  apply wp_tcpSendData waits
  · exact fun _ _ => ⟨waits.turned, rfl, rfl, fun started => by cases started⟩
  · exact fun _ _ _ _ _ _ => ⟨.inr waits, rfl, rfl, fun started => by cases started⟩
  · exact fun _ _ _ => ends_stopped _ _

/-- The steps of libevent after which the write event is there. -/
def Keeping (w : World TaskFileSend) (e : Event) (w' : World TaskFileSend) : Prop :=
  w.Registered e ∧ KeepsWriteEvent w'

/-- The steps of libevent without a timeout in the middle of a transfer. -/
def Uninterrupted (w : World TaskFileSend) (e : Event) (_ : World TaskFileSend) : Prop :=
  w.Registered e ∧ Calm w e

/-- **When a transfer keeps its write event**: in every state of a run, just if none of its steps is
the timeout of the write event in the middle of the transfer. -/
theorem write_event_kept (filename : List Byte) (file : Option FileStream) (st_size : Nat)
    (inp : List Byte) (sends : List SendResult) (es : List Event) (w : World TaskFileSend) :
    Runs fire Keeping (start filename file st_size inp sends) es w ↔
      Runs fire Uninterrupted (start filename file st_size inp sends) es w := by
  constructor
  · intro run
    induction run with
    | nil => exact .nil
    | snoc _ fired kept ih =>
      apply Runs.snoc ih fired
      refine ⟨kept.1, ?_⟩
      rintro rfl started unfinished
      exact loses_event fired started unfinished kept.2
  · intro run
    induction run with
    | nil => exact .nil
    | snoc run fired calm ih =>
      apply Runs.snoc ih fired
      refine ⟨calm.1, fun live => ?_⟩
      have before : Ends _ := run.invariant (ends_start filename file st_size inp sends)
        fun _ _ _ ends fired calm => ends_turn (ends (live_of_fire fired)) fired calm.2
      exact (ends_turn (before (live_of_fire fired)) fired calm.2 live).keeps live

/-- No transfer ever loses its write event. -/
def AlwaysKeeps : Prop :=
  ∀ filename file st_size inp sends es w,
    Runs fire (fun w e _ => w.Registered e) (start filename file st_size inp sends) es w → KeepsWriteEvent w

/-- A client's request for the file. -/
def sampleRequest : List Byte :=
  NetCmd.bytes ⟨netFlag, ModuleMsg.controlPlay.code, 0, 47⟩ ++
    ascii "<control name=\"start\" tmstart=\"0\" tmend=\"9\" />" ++ [0]

/-- **A transfer loses its write event**: the client asks for a file of one byte, and its socket is not
writable before the timeout. -/
theorem write_event_lost : ¬ AlwaysKeeps := by
  intro always
  have finished : (exec fire (fun w e _ => w.Registered e)
      (start (ascii "a") (some ⟨[7], 0⟩) 1 sampleRequest [.sent 2000])
      [.read [.got 16, .got 100] [], .writeTimeout]).map
      (fun w => decide (w.Live ∧ Started w ∧ Unfinished w.obj ∧ w.mWriting = false)) = some true := by
    decide +kernel
  obtain ⟨w, ran, facts⟩ := Option.map_eq_some_iff.mp finished
  obtain ⟨live, started, unfinished, lost⟩ := of_decide_eq_true facts
  have kept := (always _ _ _ _ _ _ w (.of_exec ran) live started unfinished).1
  rw [lost] at kept
  cases kept

end TaskFileSend

end GreatEvent
