import GreatEvent.Server.Pacing
import GreatEvent.Server.PlaybackSteps
import GreatEvent.Server.Turns

/-!
# `TaskPlayback` is paced

Every turn of the event loop on a playback task is a turn of `Pace`
(`fire_turn`), so the properties of the log proved there hold of every run of
the code.
-/

namespace GreatEvent

open Lib FrameReader Pace

namespace TaskPlayback

/-- The pacing of a session with a playback task. -/
def pace (c : Core TaskPlayback) : Pace where
  free := decide (c.obj.mSendBuffer.totalLen = 0)
  queue := c.obj.mMsgQueue
  frameCount := c.obj.mFrameCount
  sending := c.obj.mbSendingData
  trace := c.trace

section
variable {Q : Int → World TaskPlayback → Prop} {E : Stop → World TaskPlayback → Prop}
  {w : World TaskPlayback}

/-- What `tcpSendData` leaves alone, whatever the socket answers: everything but the send buffer and
the socket. -/
theorem wp_tcpSendData_frame
    (returns : ∀ ret b wire sends, Q ret { w with
      obj := { w.obj with mSendBuffer := b }, wire := wire, sends := sends })
    (blocks : ∀ wire sends, E .blocked { w with wire := wire, sends := sends }) :
    wp tcpSendData Q E w := by
  simp only [tcpSendData, wp_bind, wp_self]
  refine wp_sendEx _ (fun ret part left => ?_) (fun part left => blocks _ _)
  simp only [wp_ite, wp_bind, wp_self, wp_modifySend, wp_pure]
  split <;> split <;> exact returns ret _ _ _

/-- What is observed while a seek queues its first reply. -/
theorem behind_seek (trace : List Obs) (v : Int) (o : Obs) :
    trace ++ [.command (.seek v)] ++ [o] = trace ++ .command (.seek v) :: [o] :=
  List.append_assoc ..

/-- What is observed while a seek queues both its replies. -/
theorem behind_seek_both (trace : List Obs) (v : Int) (o p : Obs) :
    trace ++ [.command (.seek v)] ++ [o] ++ [p] = trace ++ .command (.seek v) :: [o, p] := by
  rw [behind_seek, List.append_assoc, List.cons_append, List.singleton_append]

/-- Whatever becomes of its replies, a seek has been logged. -/
theorem wp_seek_logged {Q : Int → Int → World TaskPlayback → Prop} {v : Int} {index : UInt32}
    (returns : ∀ rest ret t obs, t.trace = w.trace ++ .command (.seek v) :: obs → Q rest ret t)
    (blocks : ∀ t obs, t.trace = w.trace ++ .command (.seek v) :: obs → E .blocked t) :
    wp tcpSendData (fun rest w' => wp tcpSendData (Q rest) E (loadCmd w' .exeRet index)) E
      (loadCmd (seeking w v) .seekCmpd index) := by
  apply wp_tcpSendData_frame
  · intro rest b wire sends
    apply wp_tcpSendData_frame
    · exact fun _ _ _ _ => returns _ _ _ _ (behind_seek_both ..)
    · exact fun _ _ => blocks _ _ (behind_seek_both ..)
  · exact fun _ _ => blocks _ _ (behind_seek ..)

/-- What the constructor leaves alone: it queues its login reply and sends. -/
theorem wp_construct {Q : Unit → World TaskPlayback → Prop}
    (returns : ∀ b wire sends, Q () { w with
      obj := { w.obj with mSendBuffer := b }, wire := wire, sends := sends,
      trace := w.trace ++ [.queued (loginRetFrame w.obj.mFfmpeg.info)] })
    (blocks : ∀ b wire sends, E .blocked { w with
      obj := { w.obj with mSendBuffer := b }, wire := wire, sends := sends,
      trace := w.trace ++ [.queued (loginRetFrame w.obj.mFfmpeg.info)] }) :
    wp construct Q E w := by
  simp only [construct, wp_bind, wp_self, wp_modifySend, wp_emit]
  exact wp_tcpSendData_frame (fun _ b wire sends => returns b wire sends)
    (fun wire sends => blocks _ wire sends)

/-- A new task's constructor comes back when the results end the send of its reply. -/
theorem construct_answers (fresh : w.obj.mSendBuffer.hasSendLen = 0) :
    wp construct (fun _ _ => w.Answers) (fun _ _ => ¬ w.Answers) w := by
  simp only [construct, wp_bind, wp_self, wp_modifySend, wp_emit, tcpSendData, if_true, fresh]
  refine (wp_sendReply _).mono (fun ret t answers => ?_) fun _ _ waits => waits
  simp only [wp_ite, wp_bind, wp_self, wp_modifySend, wp_pure]
  split <;> split <;> exact answers

theorem wp_construct_fresh {Q : Unit → World TaskPlayback → Prop}
    (fresh : w.obj.mSendBuffer.hasSendLen = 0)
    (returns : ∀ b wire sends, w.Answers → Q () { w with
      obj := { w.obj with mSendBuffer := b }, wire := wire, sends := sends,
      trace := w.trace ++ [.queued (loginRetFrame w.obj.mFfmpeg.info)] })
    (blocks : ∀ b wire sends, ¬ w.Answers → E .blocked { w with
      obj := { w.obj with mSendBuffer := b }, wire := wire, sends := sends,
      trace := w.trace ++ [.queued (loginRetFrame w.obj.mFfmpeg.info)] }) :
    wp construct Q E w := by
  have frame := wp_construct (w := w) (Q := fun r t => w.Answers → Q r t)
    (E := fun e t => ¬ w.Answers → E e t) returns blocks
  exact (frame.and (construct_answers fresh)).mono (fun _ _ both => both.1 both.2)
    (fun _ _ both => both.1 both.2)

/-- `TaskPlayback`'s write callbacks make writing moves. -/
theorem writeBuffer_moves {sends : List SendResult} :
    wp writeBuffer (fun _ t => (pace w.core).Moves (.write sends) (pace t.core))
      (fun _ t => (pace w.core).Moves (.write sends) (pace t.core)) w := by
  refine wp_writeBuffer ?_ ?_ ?_ ?_ ?_ ?_
  · intro busy
    have notFree : (pace w.core).free = false := decide_eq_false busy
    exact wp_tcpSendData_frame (fun _ b _ _ => .writes (.resumes _ notFree))
      (fun _ _ => .rests _)
  · intro free val rest waits
    have isFree : (pace w.core).free = true := decide_eq_true free
    exact wp_tcpSendData_frame (fun _ _ _ _ => .writes (.message _ val rest isFree waits))
      (fun _ _ => .writes (.message _ val rest isFree waits))
  · intro _ _ _
    exact .rests _
  · intro free empty sending more p _
    have isFree : (pace w.core).free = true := decide_eq_true free
    exact wp_tcpSendData_frame
      (fun _ _ _ _ => .writes (.media _ p _ isFree empty sending more))
      (fun _ _ => .writes (.media _ p _ isFree empty sending more))
  · intro free empty sending more _
    have isFree : (pace w.core).free = true := decide_eq_true free
    exact wp_tcpSendData_frame
      (fun _ _ _ _ => .writes (.fileEnds _ isFree empty sending more))
      (fun _ _ => .writes (.fileEnds _ isFree empty sending more))
  · intro free empty sending full
    have isFree : (pace w.core).free = true := decide_eq_true free
    exact wp_tcpSendData_frame
      (fun _ _ _ _ => .writes (.segmentEnds _ isFree empty sending full))
      (fun _ _ => .writes (.segmentEnds _ isFree empty sending full))

/-- A complete frame makes the task obey its command, if it is one. -/
theorem dispatch_obeys (recvs : List RecvResult) (sends : List SendResult) :
    wp dispatch (fun r t => r = none ∧ (pace w.core).Moves (.read recvs sends) (pace t.core))
      (fun _ t => (pace w.core).Moves (.read recvs sends) (pace t.core)) w := by
  refine wp_dispatch ⟨rfl, .rests _⟩ (.rests _) (.obeys .start) ?_ ?_
    ⟨rfl, .obeys .resume⟩ ?_
  · rintro _ (rfl | rfl) <;> exact ⟨rfl, .obeys .start⟩
  · intro v nonzero
    exact ⟨rfl, .obeys (.pause v nonzero)⟩
  · intro v _
    have one : ∀ (a b : Obs), [a] <+: [a, b] := fun a b => ⟨[b], rfl⟩
    refine wp_tcpSendData_frame (fun rest b wire sends => ?_) (fun wire sends => ?_)
    · refine wp_tcpSendData_frame (fun _ b' wire' sends' => ⟨rfl, ?_⟩) (fun wire' sends' => ?_)
      · refine .obeys (.of_seek v (buf w.obj).head.dwIndex _ ?_ (List.prefix_refl _) ?_ rfl)
        · simp [pace, World.core, seekDone, loadCmd, seeking]
        · simp only [pace, World.core, seekDone, loadCmd, seeking]
          split
          · exact .inr rfl
          · exact .inl rfl
      · refine .obeys (.of_seek v (buf w.obj).head.dwIndex _ ?_ (List.prefix_refl _) (.inl rfl) rfl)
        simp [pace, World.core, loadCmd, seeking]
    · refine .obeys (.of_seek v (buf w.obj).head.dwIndex _ ?_ (one _ _) (.inl rfl) rfl)
      simp [pace, World.core, loadCmd, seeking]

theorem idle_of_reading {obs : List Obs} (reading : AllReading obs) : ∀ o ∈ obs, o.isIdle = true := by
  intro o member
  have := reading o member
  cases o <;> first | rfl | cases this

/-- The methods of a playback task make turns of its pacing. -/
theorem method_turn (e : Event) :
    wp (e.method : Act TaskPlayback Int) (fun _ t => (pace w.core).Turn e (pace t.core))
      (fun _ t => (pace w.core).Turn e (pace t.core)) w := by
  have still : ∀ (m : Pace), (pace w.core).Moves e m → (pace w.core).Turn e m := fun m moved =>
    ⟨[], m, [], nofun, nofun, by rwa [log_nil], (log_nil m).symm⟩
  cases e with
  | read recvs sends =>
    have turned : ∀ {obs : List Obs} {b : RecvBuffer} {rest : List Byte} {recvs' : List RecvResult}
        {q : Pace}, AllReading obs →
        (pace (w.read b rest recvs' obs).core).Moves (.read recvs sends) q →
        (pace w.core).Turn (.read recvs sends) q := by
      intro obs b rest recvs' q reading moved
      exact ⟨obs, q, [], idle_of_reading reading, nofun, moved, (log_nil q).symm⟩
    refine wp_readBuffer ?_ ?_ ?_
    · intro ret b rest recvs' obs _ reading
      exact turned reading (.rests _)
    · intro b rest recvs' obs _ reading
      exact turned reading (.rests _)
    · intro b rest recvs' obs _ reading
      refine (dispatch_obeys (w := w.read b rest recvs' obs) recvs sends).mono ?_ ?_
      · rintro _ t ⟨rfl, moved⟩ ret _
        exact turned reading moved
      · intro _ t moved
        exact turned reading moved
  | write sends =>
    exact writeBuffer_moves.mono (fun _ _ moved => still _ moved) (fun _ _ moved => still _ moved)
  | timer =>
    have beat := still _ (.beats (p := pace w.core))
    simp only [Event.method, Callbacks.setHeartBeat, setHeartCount, wp_bind, wp_modifySelf, wp_get,
      wp_ite, wp_addWriteEvent, wp_self, wp_pure]
    split
    · split <;> exact beat
    · exact beat
  | readTimeout => exact still _ (.rests _)
  | writeTimeout => exact still _ (.rests _)

end

/-- **The task is paced**: a turn of the event loop is a turn of its pacing. -/
theorem fire_turn {w w' : World TaskPlayback} {e : Event} (fired : fire w e = some w') :
    (pace w.core).Turn e (pace w'.core) := by
  refine fire_keeps fired (P := fun c => (pace w.core).Turn e (pace c)) ?_ ?_
  · rintro c by' ⟨before, m, after, idleBefore, idleAfter, moved, same⟩
    refine ⟨before, m, after ++ [.teardown by'], idleBefore, ?_, moved, ?_⟩
    · intro o member
      rcases List.mem_append.mp member with old | new
      · exact idleAfter o old
      · rw [List.mem_singleton.mp new]
        rfl
    · show (pace c).log [.teardown by'] = _
      rw [same, log_log]
  · intro d same _ _ _
    rw [← same]
    exact method_turn e

/-- A task as its constructor leaves it, the login reply on its way. `raw` is the memory it is built
in, `inp` what the client will send. -/
def start (raw : TagSendBuffer) (mFfmpeg : FfmpegContext) (inp : List Byte)
    (sends : List SendResult) : World TaskPlayback :=
  after construct { accepted (init raw mFfmpeg) inp with sends := sends }

/-- A new task has queued its login reply. -/
theorem pace_start (raw : TagSendBuffer) (mFfmpeg : FfmpegContext) (inp : List Byte)
    (sends : List SendResult) : ∃ free, pace (start raw mFfmpeg inp sends).core =
      ⟨free, [], 0, true, [.queued (loginRetFrame mFfmpeg.info)]⟩ := by
  refine after_of_wp (P := fun t => ∃ free, pace t.core =
    ⟨free, [], 0, true, [.queued (loginRetFrame mFfmpeg.info)]⟩) ?_
  exact wp_construct (fun _ _ _ => ⟨_, rfl⟩) (fun _ _ _ => ⟨_, rfl⟩)

theorem isVideo_login (info : FileInfo) : (Obs.queued (loginRetFrame info)).isVideo = false := rfl

theorem isEnd_login (info : FileInfo) : (Obs.queued (loginRetFrame info)).isEnd = false := rfl

/-- A pause command is processed only where media is not being sent anyway. -/
def PauseFindsIdle (w : World TaskPlayback) (_ : Event) (w' : World TaskPlayback) : Prop :=
  (∃ o ∈ w'.trace.drop w.trace.length, o.isPause = true) → w.obj.mbSendingData = false

instance (w : World TaskPlayback) (e : Event) (w' : World TaskPlayback) :
    Decidable (PauseFindsIdle w e w') := inferInstanceAs (Decidable (_ → _))

section
variable {raw : TagSendBuffer} {mFfmpeg : FfmpegContext} {inp : List Byte} {sends : List SendResult}
  {ok : World TaskPlayback → Event → World TaskPlayback → Prop} {es : List Event}
  {w : World TaskPlayback}

/-- What holds of a new task's pacing and is kept by its turns holds after every run. -/
theorem pace_run {P : Pace → Prop} (run : Runs fire ok (start raw mFfmpeg inp sends) es w)
    (new : ∀ free, P ⟨free, [], 0, true, [.queued (loginRetFrame mFfmpeg.info)]⟩)
    (turn : ∀ a e b, (pace a.core).Turn e (pace b.core) → ok a e b → (pace a.core).Messages →
      P (pace a.core) → P (pace b.core)) : P (pace w.core) := by
  have both : (pace w.core).Messages ∧ P (pace w.core) := by
    refine run.invariant (P := fun w => (pace w.core).Messages ∧ P (pace w.core)) ?_ ?_
    · obtain ⟨free, same⟩ := pace_start raw mFfmpeg inp sends
      rw [same]
      exact ⟨nofun, new free⟩
    · rintro a e b ⟨messages, before⟩ fired allowed
      have turned := fire_turn fired
      exact ⟨messages.turn turned, turn a e b turned allowed messages before⟩
  exact both.2

/-- **Segment pacing.** In every run at most `segFrameCount` media headers are queued between two
segment ends, and none after the end of a segment or of the file until `setpause` 0 or `seek`. -/
theorem segment_pacing (run : Runs fire ok (start raw mFfmpeg inp sends) es w) :
    AtMostBetween segFrameCount Obs.isVideo Obs.isSectionEnd w.trace ∧
      QuietUntil Obs.isEnd Obs.isVideo Obs.isResume w.trace := by
  have segmented := pace_run (P := fun p => Segmented p.trace p.frameCount) run
    (fun _ => (Segmented.nil 0 (Nat.zero_le _)).append (by simp [isVideo_login]))
    fun a e b turned _ messages segmented => segmented.turn messages turned
  have silent := pace_run (P := fun p => Silent Obs.isEnd p.trace p.sending) run
    (fun _ => (Silent.nil _ _).append (by simp [isVideo_login, isEnd_login]))
    fun a e b turned _ messages silent => silent.turn_end messages turned
  exact ⟨segmented.bound, silent.quiet⟩

/-- **A pause that finds nothing being sent is honoured**: in a run with no other pause, no media
header is queued after a pause until `setpause` 0 or `seek`. -/
theorem pause_honoured (run : Runs fire PauseFindsIdle (start raw mFfmpeg inp sends) es w) :
    QuietUntil Obs.isPause Obs.isVideo Obs.isResume w.trace := by
  have silent := pace_run (P := fun p => Silent Obs.isPause p.trace p.sending) run
    (fun _ => (Silent.nil _ _).append (by simp [isVideo_login, Obs.isPause]))
    fun a e b turned idle messages silent => silent.turn_pause messages turned idle
  exact silent.quiet

end

/-! ## A small file, played and paused -/

/-- A file of three audio packets of 33, 2 and 0 bytes. -/
def sampleFfmpeg : FfmpegContext where
  mFilename := ascii "ab"
  results := [some ⟨⟨fun _ => 7, 33, 0, 0, by decide⟩, .audio⟩,
    some ⟨⟨fun _ => 8, 2, 40, 0, by decide⟩, .audio⟩, some ⟨⟨fun _ => 9, 0, 80, 0, AVPacket.no_size_lt⟩, .audio⟩]
  seekTo _ := []
  info := ⟨List.replicate 320 0, 0, 1000, FileInfo.length_zeros⟩

/-- Memory that happens to be zero. -/
def sampleRaw : TagSendBuffer := ⟨true, 0, 0, .zero, .zero⟩

/-- A control frame as the client sends it, with the terminating NUL. -/
def controlBytes (text : String) : List Byte :=
  NetCmd.bytes ⟨netFlag, ModuleMsg.controlPlay.code, 0, UInt32.ofNat (text.length + 1)⟩ ++
    ascii text ++ [0]

def startBytes : List Byte := controlBytes "<control name=\"start\" tmstart=\"0\" tmend=\"9\" />"

def pauseBytes : List Byte := controlBytes "<control name=\"setpause\" value=\"1\" />"

/-- A frame that arrives whole. -/
def readWhole : Event := .read [.got 1500, .got 1500] [.sent 1500, .sent 1500]

/-- A write that goes out in two pieces, with an `EAGAIN` between them. -/
def writeSplit : Event := .write [.sent 1, .eagain, .sent 1500]

theorem segment_pacing_sample : ∃ w, Runs fire (fun w e _ => w.Registered e ∧ e.NoFatal)
    (start sampleRaw sampleFfmpeg startBytes [.sent 2000])
    [readWhole, writeSplit, writeSplit, .timer, writeSplit, writeSplit] w ∧
    AtMostBetween segFrameCount Obs.isVideo Obs.isSectionEnd w.trace ∧
      QuietUntil Obs.isEnd Obs.isVideo Obs.isResume w.trace := by
  have finished : (exec fire (fun w e _ => w.Registered e ∧ e.NoFatal)
      (start sampleRaw sampleFfmpeg startBytes [.sent 2000])
      [readWhole, writeSplit, writeSplit, .timer, writeSplit, writeSplit]).isSome = true := by
    decide +kernel
  obtain ⟨w, ran⟩ := Option.isSome_iff_exists.mp finished
  exact ⟨w, .of_exec ran, segment_pacing (.of_exec ran)⟩

/-- The file has ended when the client pauses. -/
theorem pause_honoured_sample : ∃ w, Runs fire PauseFindsIdle
    (start sampleRaw { sampleFfmpeg with results := [] } (startBytes ++ pauseBytes) [.sent 2000])
    [readWhole, writeSplit, readWhole, .timer, writeSplit, writeSplit] w ∧
    QuietUntil Obs.isPause Obs.isVideo Obs.isResume w.trace := by
  have finished : (exec fire PauseFindsIdle
      (start sampleRaw { sampleFfmpeg with results := [] } (startBytes ++ pauseBytes) [.sent 2000])
      [readWhole, writeSplit, readWhole, .timer, writeSplit, writeSplit]).isSome = true := by
    decide +kernel
  obtain ⟨w, ran⟩ := Option.isSome_iff_exists.mp finished
  exact ⟨w, .of_exec ran, pause_honoured (.of_exec ran)⟩

/-- A `setpause` with value 1 in the middle of the file is ignored: the next write sends media. -/
theorem pause_ignored : ∃ w, Runs fire (fun w e _ => w.Registered e ∧ e.NoFatal)
    (start sampleRaw sampleFfmpeg (startBytes ++ pauseBytes) [.sent 2000])
    [readWhole, writeSplit, writeSplit, readWhole, writeSplit] w ∧
    ¬ QuietUntil Obs.isPause Obs.isVideo Obs.isResume w.trace := by
  have noisy : (exec fire (fun w e _ => w.Registered e ∧ e.NoFatal)
      (start sampleRaw sampleFfmpeg (startBytes ++ pauseBytes) [.sent 2000])
      [readWhole, writeSplit, writeSplit, readWhole, writeSplit]).map
      (fun w => quietMonitor Obs.isPause Obs.isVideo Obs.isResume false w.trace) = some false := by
    decide +kernel
  obtain ⟨w, ran, failed⟩ := Option.map_eq_some_iff.mp noisy
  refine ⟨w, .of_exec ran, fun quiet => ?_⟩
  rw [quiet.monitor] at failed
  cases failed

end TaskPlayback

end GreatEvent
