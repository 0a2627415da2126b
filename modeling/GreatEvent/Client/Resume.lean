import GreatEvent.Client.PlaybackLink
import GreatEvent.Server.PlaybackStream

/-!
# Resuming after a segment

The task stops after `MODULE_MSG_SECTION_END` and waits for `setpause` 0.
`SetPlayPause(FALSE)` sends it only when `m_bPause` is set, which
`DefNetMessage` would do on the end of a segment; but nobody calls it. What
is left is the player's own mind: `m_bPause` is what the last call of
`SetPlayPause` that returned `TRUE` asked for.
-/

namespace GreatEvent

open Lib

namespace PlaybackLink

/-- A call of `SetPlayPause` that returns `TRUE` has what it asked for. -/
def answered (paused : Bool) : LinkStep → Bool
  | .setPlayPause _ bPause true => bPause
  | _ => paused

/-- What the last call of `SetPlayPause` that returned `TRUE` asked for; the player starts unpaused. -/
def lastAnswered (ls : List LinkStep) : Bool := ls.foldl answered false

/-- A server that takes `f` when it is between two frames takes it for `setpause` 0, and goes on
sending. -/
def TakenAsResume (f : List Byte) : Prop :=
  ∀ (w w₁ w₂ : World TaskPlayback) (es : List Event) (e : Event) (rest : List Byte),
    w.obj.mRecvBuffer = .initial → w.inp = f ++ rest → Runs fire (fun _ _ _ => True) w es w₁ →
    rest.length < w₁.inp.length → fire w₁ e = some w₂ → w₂.inp.length ≤ rest.length →
    commandsIn w₂.trace = commandsIn w.trace ++ [.setpause 0] ∧ w₂.obj.mbSendingData = true

/-- `SetPlayPause(FALSE)`, called now with a socket that takes `accepts` bytes, sends the command that
makes the server go on. -/
def Resumes (l : PlaybackLink) (accepts : Nat) : Prop :=
  (l.client.setPlayPause accepts false).1 = true ∧ ∃ f,
    (l.client.setPlayPause accepts false).2.net.wire = l.client.net.wire ++ f ∧ f ≠ [] ∧ TakenAsResume f

/-- The request of `SetPlayPause(FALSE)`. -/
def resumeBytes : List Byte := ((Request.setpause false).frame 0).bytes

theorem resumeBytes_taken : TakenAsResume resumeBytes := by
  intro w w₁ w₂ es e rest atRest input run before fired after
  have pending := Request.pending_run (Request.pending_start atRest input) run before
  rcases Request.pending_turn ⟨pending.1, rfl⟩ fired with still | ⟨-, ⟨-, command, task⟩ | ⟨-, impossible⟩⟩
  · have := still.1.more (Frame.whole _) (Request.long_frame (.setpause false) 0).1
    omega
  · rw [pending.2] at command
    refine ⟨command, ?_⟩
    have sending : (Request.apart w₂.obj).mbSendingData = true := by
      rw [task]
      rfl
    exact sending
  · cases impossible

section
variable {l l' : PlaybackLink} {s : LinkStep} {c : PlayBackClient} {accepts : Nat}

/-- What `SetPlayPause` makes of the player's mind. -/
theorem setPlayPause_flags (bPause : Bool) :
    (c.setPlayPause accepts bPause).2.m_bPause =
      (if (c.setPlayPause accepts bPause).1 then bPause else c.m_bPause) ∧
    (c.setPlayPause accepts bPause).2.m_bDataEnd = c.m_bDataEnd := by
  unfold PlayBackClient.setPlayPause
  split
  case isTrue same => exact ⟨same, rfl⟩
  case isFalse =>
    split
    · exact ⟨rfl, rfl⟩
    · split
      · exact ⟨rfl, rfl⟩
      · exact ⟨rfl, rfl⟩

/-- The player's mind, and that it has not seen the end of the data. -/
def Minds (paused : Bool) (c : PlayBackClient) : Prop := c.m_bPause = paused ∧ c.m_bDataEnd = false

theorem Minds.of_flags {c' : PlayBackClient} {paused : Bool} (minds : Minds paused c)
    (pause : c'.m_bPause = c.m_bPause) (dataEnd : c'.m_bDataEnd = c.m_bDataEnd) : Minds paused c' :=
  ⟨pause.trans minds.1, dataEnd.trans minds.2⟩

theorem Minds.arrive {paused : Bool} (minds : Minds paused c) (bytes : List Byte) :
    Minds paused (c.arrive bytes) := by
  unfold PlayBackClient.arrive
  split <;> exact minds

/-- **The player changes its mind in `SetPlayPause` only.** -/
theorem minds_step {paused : Bool} (minds : Minds paused l.client) (taken : l.step s = some l') :
    Minds (answered paused s) l'.client := by
  cases s with
  | server e =>
    obtain ⟨w, -, rfl⟩ := server_of_step taken
    exact minds.arrive _
  | opened cuts =>
    obtain ⟨-, rfl⟩ := opened_of_step taken
    change Minds paused (l.opened cuts).client
    unfold opened
    split <;> exact minds
  | work cuts =>
    rcases work_eq_some (work_of_step taken).2 with rfl | ⟨ok, net, -, rfl⟩ <;> exact minds
  | disconnect =>
    obtain rfl := Option.some.inj taken
    exact minds
  | start accepts dwStart dwEnd =>
    obtain rfl := Option.some.inj taken
    exact minds
  | setPlayPause accepts bPause ret =>
    obtain ⟨isRet, rfl⟩ := setPlayPause_of_step taken
    have flags : (l.client.setPlayPause accepts bPause).2.m_bPause =
        (if (l.client.setPlayPause accepts bPause).1 then bPause else l.client.m_bPause) ∧
        (l.client.setPlayPause accepts bPause).2.m_bDataEnd = l.client.m_bDataEnd :=
      setPlayPause_flags bPause
    rw [isRet] at flags
    obtain ⟨pause, dataEnd⟩ := flags
    cases ret with
    | true => exact ⟨pause, dataEnd.trans minds.2⟩
    | false => exact minds.of_flags pause dataEnd
  | seek accepts dwStart =>
    obtain rfl := Option.some.inj taken
    exact minds
  | seekReturns call ret =>
    obtain ⟨c, returns, rfl⟩ := seekReturns_of_step taken
    obtain ⟨⟨text, net⟩, -, rest⟩ := Option.bind_eq_some_iff.mp returns
    dsimp only at rest
    split at rest
    · obtain ⟨-, rfl⟩ := Prod.mk.inj (Option.some.inj rest)
      exact minds
    · obtain ⟨-, rfl⟩ := Prod.mk.inj (Option.some.inj rest)
      exact ⟨minds.1, rfl⟩

/-- The player's mind after a run. -/
theorem minds_run {ok : PlaybackLink → LinkStep → PlaybackLink → Prop} {raw : TagSendBuffer}
    {mFfmpeg : FfmpegContext} {sends : List SendResult} {ls : List LinkStep}
    (run : Runs step ok (fresh raw mFfmpeg sends) ls l) : Minds (lastAnswered ls) l.client := by
  induction run with
  | nil => exact Minds.arrive ⟨rfl, rfl⟩ _
  | snoc _ taken _ ih =>
    rw [lastAnswered, List.foldl_append]
    exact minds_step ih taken

/-- A message goes out just when the socket is open and takes all of it. -/
theorem sendCmd_iff {n : NetDataClient} (dwCmd : ModuleMsg) (dwIndex : UInt32) {lpData : List Byte}
    (some : lpData ≠ []) : (n.sendCmd accepts dwCmd dwIndex lpData).1 = true ↔
      n.isOpen = true ∧ packHeadLen + lpData.length ≤ accepts := by
  have long : lpData.length ≠ 0 := fun none' => some (List.eq_nil_of_length_eq_zero none')
  unfold NetDataClient.sendCmd NetDataClient.send
  cases isOpen : n.isOpen with
  | false => simp
  | true =>
    simp only [if_true, NetCmd.length_bytes, decide_eq_true_eq, true_and]
    split
    case isTrue head =>
      simp only [decide_eq_true_eq]
      omega
    case isFalse short =>
      constructor
      · intro impossible
        cases impossible
      · intro fits
        omega

/-- **When `SetPlayPause(FALSE)` resumes the playback.** -/
theorem resumes_iff {ok : PlaybackLink → LinkStep → PlaybackLink → Prop} {raw : TagSendBuffer}
    {mFfmpeg : FfmpegContext} {sends : List SendResult} {ls : List LinkStep}
    (run : Runs step ok (fresh raw mFfmpeg sends) ls l) : Resumes l accepts ↔
      lastAnswered ls = true ∧ l.client.net.isOpen = true ∧ resumeBytes.length ≤ accepts := by
  obtain ⟨mind, goesOn⟩ := minds_run run
  rw [← mind]
  have text : setpauseText false ≠ [] := Request.payload_ne_nil (.setpause false)
  have length : resumeBytes.length = packHeadLen + (setpauseText false).length := rfl
  cases paused : l.client.m_bPause with
  | false =>
    constructor
    · rintro ⟨-, f, put, some, -⟩
      rw [PlayBackClient.setPlayPause, if_pos paused] at put
      exact absurd (List.self_eq_append_right.mp put) some
    · rintro ⟨impossible, -⟩
      cases impossible
  | true =>
    have differs : ¬ l.client.m_bPause = false := by
      rw [paused]
      decide
    have goesOn : ¬ l.client.m_bDataEnd = true := by
      rw [goesOn]
      decide
    have call : l.client.setPlayPause accepts false =
        ((l.client.net.sendCmd accepts .controlPlay 0 (setpauseText false)).1, { l.client with
          net := (l.client.net.sendCmd accepts .controlPlay 0 (setpauseText false)).2
          m_bSend := (l.client.net.sendCmd accepts .controlPlay 0 (setpauseText false)).1
          m_bPause := if (l.client.net.sendCmd accepts .controlPlay 0 (setpauseText false)).1 then false
            else l.client.m_bPause }) := by
      rw [PlayBackClient.setPlayPause, if_neg differs, if_neg goesOn]
      rfl
    rw [Resumes, call, length]
    constructor
    · rintro ⟨sent, -⟩
      exact ⟨rfl, (sendCmd_iff .controlPlay 0 text).mp sent⟩
    · rintro ⟨-, takes⟩
      have sent := (sendCmd_iff .controlPlay 0 text).mpr takes
      refine ⟨sent, resumeBytes, ?_, ?_, resumeBytes_taken⟩
      · exact congrArg NetDataClient.wire (NetDataClient.sendCmd_sent text sent)
      · exact List.cons_ne_nil _ _

end

/-! ## A whole segment -/

/-- `RecvData` takes the frame whole. -/
def Passes (f : Frame) : Prop :=
  ∀ c : NetDataClient, c.inp = f.bytes →
    ∃ c', c.recvData [] = some (true, c') ∧ c'.inp = [] ∧ c'.isOpen = c.isOpen

/-- A packet of sound without payload. -/
def isSilent : Option Packet → Bool
  | some p => p.pkt.size == 0 && p.frameType == .audio
  | none => false

theorem passes_ofCmd {msg : ModuleMsg} (isHeader : msg.code ≠ ModuleMsg.video.code)
    (goesOn : msg.code ≠ ModuleMsg.dataEnd.code) (index : UInt32) : Passes (Frame.ofCmd msg index) := by
  intro c arrives
  refine ⟨_, NetDataClient.recvData_other [] [] (arrives.trans (List.append_nil _).symm) ?_ isHeader, rfl, rfl⟩
  exact ⟨rfl, goesOn, Nat.zero_le _⟩

theorem passes_silent {p : Packet} (empty : p.pkt.size = 0) (sound : p.frameType = .audio)
    (stale : UInt32) : Passes (p.frame stale) := by
  intro c arrives
  have wellFormed : NetDataClient.WellFormed (p.frame stale) := by
    have goesOn : ModuleMsg.video.code ≠ ModuleMsg.dataEnd.code := by decide
    refine ⟨rfl, goesOn, ?_⟩
    change p.netCmd.dwLength.toNat ≤ _
    rw [p.dwLength_toNat, empty]
    decide
  have frameType : (p.avFrame stale).dwFrameType = 3 := by
    change frameTypeWord p.frameType p.pkt stale = 3
    rw [sound]
    rfl
  have some : (p.frame stale).body ≠ [] := List.cons_ne_nil _ _
  rw [NetDataClient.recvData_video [] [] (arrives.trans (List.append_nil _).symm) wellFormed rfl some]
  have inside : NetDataClient.CopyInside (c.lpData.store (p.frame stale).body wellFormed.body_fits) := by
    have word : wordAt (c.lpData.store (p.frame stale).body wellFormed.body_fits).bytes 0 = 3 := by
      rw [← frameType]
      have split : (c.lpData.store (p.frame stale).body wellFormed.body_fits).bytes =
          [] ++ (leBytes 4 (p.avFrame stale).dwFrameType.toNat ++
            ((leBytes 4 (p.avFrame stale).nLength.toNat ++ (leBytes 4 (p.avFrame stale).dwTick.toNat ++
              leBytes 4 (p.avFrame stale).dwTm.toNat)) ++ (patchStartCodes p.frameType p.pkt).payload ++
                c.lpData.bytes.drop (p.frame stale).body.length)) := by
        simp only [WorkBuffer.store, Packet.frame, AvFrame.bytes, List.append_assoc, List.nil_append]
      rw [split]
      exact wordAt_append [] _ _ 0 rfl
    intro copied
    rw [word] at copied
    rcases copied with impossible | impossible <;> cases impossible
  obtain ⟨file, stored⟩ := NetDataClient.storeVideo_inside (c := { c with
    inp := [], lpData := c.lpData.store (p.frame stale).body wellFormed.body_fits }) inside
  exact ⟨_, congrArg (Option.map _) stored, rfl, rfl⟩

section
open TaskPlayback TagSendBuffer

variable {w : World TaskPlayback}

/-- A write of everything. -/
def writeAll : Event := .write [.sent 2000]

/-- The task is in the middle of a file of silent packets: nothing waits to be sent, and the write
event is armed. -/
structure Playing (w : World TaskPlayback) : Prop where
  live : w.Live
  armed : w.writeEvent = true
  free : w.obj.mSendBuffer.totalLen = 0
  unsent : w.obj.mSendBuffer.hasSendLen = 0
  empty : w.obj.mSendBuffer.avpack.size = 0
  queue : w.obj.mMsgQueue = []
  sending : w.obj.mbSendingData = true
  silence : w.obj.mFfmpeg.results.all isSilent = true

/-- What a turn has put on the wire: one frame that the player can read. -/
def Sends (w w' : World TaskPlayback) (f : Frame) : Prop :=
  w'.wire = w.wire ++ f.bytes ∧ queuedIn w'.trace = queuedIn w.trace ++ [f] ∧ Passes f

/-- One more packet is sent. -/
theorem media_round (playing : Playing w) (more : w.obj.mFrameCount < segFrameCount)
    (left : w.obj.mFfmpeg.results ≠ []) :
    ∃ w' f, fire w writeAll = some w' ∧ Sends w w' f ∧ Playing w' ∧
      w'.obj.mFrameCount = w.obj.mFrameCount + 1 ∧
      w'.obj.mFfmpeg.results.length + 1 = w.obj.mFfmpeg.results.length := by
  obtain ⟨live, armed, free, unsent, empty, queue, sending, silence⟩ := playing
  obtain ⟨r, rest, results⟩ := List.exists_cons_of_ne_nil left
  rw [results, List.all_cons, Bool.and_eq_true] at silence
  obtain ⟨isSilent, silence⟩ := silence
  cases r with
  | none => cases isSilent
  | some p =>
  obtain ⟨size, sound⟩ := (Bool.and_eq_true _ _).mp isSilent
  have size : p.pkt.size = 0 := beq_iff_eq.mp size
  have sound : p.frameType = .audio := beq_iff_eq.mp sound
  have fired : fire w writeAll = some (after writeAll.callback (w.deliver writeAll)) := if_pos live
  refine ⟨_, p.frame (staleType w), fired, ?_⟩
  apply fire_write (P := fun t => Sends w t (p.frame (staleType w)) ∧ Playing t ∧
    t.obj.mFrameCount = w.obj.mFrameCount + 1 ∧
    t.obj.mFfmpeg.results.length + 1 = w.obj.mFfmpeg.results.length) fired
  apply wp_writeBuffer
  · exact fun busy => absurd free busy
  · intro _ val rest waits
    cases queue.symm.trans waits
  · intro _ _ stopped
    cases sending.symm.trans stopped
  · intro _ _ _ _ p' found
    have same : w.obj.mFfmpeg.results.headD none = some p := congrArg (List.headD · none) results
    obtain rfl : p = p' := Option.some.inj (same.symm.trans found)
    have ready := ready_putVideo (w := takePacket (w.writing [.sent 2000])) unsent p
    apply wp_tcpSendData_whole ready rfl ((size_patchStartCodes _ _).trans size) rfl (by decide)
    intro ret pos
    rw [World.afterWrite_pos _ pos]
    have tail : w.obj.mFfmpeg.results.tail = rest := congrArg List.tail results
    refine ⟨⟨rfl, queuedIn_concat _ _, passes_silent size sound _⟩,
      ⟨live, rfl, rfl, rfl, rfl, queue, sending, ?_⟩, rfl, ?_⟩
    · change w.obj.mFfmpeg.results.tail.all _ = true
      rw [tail]
      exact silence
    · change w.obj.mFfmpeg.results.tail.length + 1 = _
      rw [tail, results]
      rfl
  · intro _ _ _ _ ends
    have same : w.obj.mFfmpeg.results.headD none = some p := congrArg (List.headD · none) results
    cases same.symm.trans ends
  · exact fun _ _ _ full => absurd more full

/-- After the last packet of a segment its end is sent, and the task stops. -/
theorem section_round (playing : Playing w) (full : ¬ w.obj.mFrameCount < segFrameCount) :
    ∃ w', fire w writeAll = some w' ∧ Sends w w' (Frame.ofCmd .sectionEnd 0) ∧
      w'.obj.mbSendingData = false := by
  obtain ⟨live, armed, free, unsent, empty, queue, sending, -⟩ := playing
  have fired : fire w writeAll = some (after writeAll.callback (w.deliver writeAll)) := if_pos live
  refine ⟨_, fired, ?_⟩
  apply fire_write (P := fun t => Sends w t (Frame.ofCmd .sectionEnd 0) ∧
    t.obj.mbSendingData = false) fired
  apply wp_writeBuffer
  · exact fun busy => absurd free busy
  · intro _ val rest waits
    cases queue.symm.trans waits
  · intro _ _ stopped
    cases sending.symm.trans stopped
  · exact fun _ _ _ more => absurd more full
  · exact fun _ _ _ more => absurd more full
  · intro _ _ _ _
    have ready := ready_putCmd (w := { w.writing [.sent 2000] with
      obj := { w.obj with mFrameCount := 0, mbSendingData := false } }) unsent empty .sectionEnd 0
    apply wp_tcpSendData_whole ready rfl empty rfl (by decide)
    intro ret pos
    rw [World.afterWrite_pos _ pos]
    exact ⟨⟨rfl, queuedIn_concat _ _, passes_ofCmd (by decide) (by decide) 0⟩, rfl⟩

end

/-- The task is in the middle of a segment, and the player has read everything and is not paused. -/
structure Rolling (n : Nat) (l : PlaybackLink) : Prop where
  playing : Playing l.server
  count : l.server.obj.mFrameCount = n
  left : l.server.obj.mFfmpeg.results.length + n = segFrameCount + 1
  working : l.phase = .working
  isOpen : l.client.net.isOpen = true
  read : l.client.net.inp = []
  wire : l.server.wire = Frame.stream (queuedIn l.server.trace)
  mind : l.client.m_bPause = false

section
variable {l : PlaybackLink} {w : World TaskPlayback} {f : Frame}

/-- The task sends a frame and the player reads it. -/
theorem read_round (playing : Playing l.server) (working : l.phase = .working)
    (isOpen : l.client.net.isOpen = true) (read : l.client.net.inp = [])
    (wire : l.server.wire = Frame.stream (queuedIn l.server.trace))
    (fired : fire l.server writeAll = some w) (sends : Sends l.server w f) :
    ∃ c, Runs step Registered l [.server writeAll, .work []] ⟨w, c, .working⟩ ∧
      c.net.isOpen = true ∧ c.net.inp = [] ∧ c.m_bPause = l.client.m_bPause ∧
      w.wire = Frame.stream (queuedIn w.trace) := by
  obtain ⟨put, queued, passes⟩ := sends
  have new : w.wire.drop l.server.wire.length = f.bytes := by
    rw [put]
    exact List.drop_left
  have arrived : l.client.arrive f.bytes =
      { l.client with net := { l.client.net with inp := f.bytes } } := by
    rw [PlayBackClient.arrive, if_pos isOpen, read]
    rfl
  have served : l.step (.server writeAll) = some { l with server := w, client := l.client.arrive f.bytes } := by
    change (fire l.server writeAll).map _ = _
    rw [fired, Option.map_some, new]
  obtain ⟨net, received, taken, stays⟩ := passes { l.client.net with inp := f.bytes } rfl
  have nonempty : f.bytes ≠ [] := List.cons_ne_nil _ _
  have worked : ({ l with server := w, client := l.client.arrive f.bytes } : PlaybackLink).step (.work []) =
      some { l with server := w, client := { l.client with net := net }, phase := .working } := by
    change (if l.phase = .working then work [] _ else none) = _
    rw [if_pos working, arrived]
    refine (if_pos (.inl nonempty)).trans ?_
    rw [received]
    rfl
  refine ⟨{ l.client with net := net }, ?_, stays.trans isOpen, taken, rfl, ?_⟩
  · exact .snoc (.snoc .nil served playing.armed) worked trivial
  · rw [put, queued, wire, Frame.stream_append]
    simp

end

/-- A file of one packet more than a segment takes. -/
def longFile : FfmpegContext := { TaskPlayback.sampleFfmpeg with
  results := List.replicate (segFrameCount + 1) (some ⟨.zero, .audio⟩) }

/-- The player connects and starts; the task takes the command. -/
def connectAndStart : List LinkStep :=
  [.opened [], .start 1000 0 9, .server (.read [.got 16, .got 100] [])]

theorem rolling_start : ∃ l,
    Runs step Registered (fresh TaskPlayback.sampleRaw longFile [.sent 2000]) connectAndStart l ∧
    Rolling 0 l := by
  have finished : (exec step Registered (fresh TaskPlayback.sampleRaw longFile [.sent 2000])
      connectAndStart).map (fun l => decide ((l.server.Live ∧ l.server.writeEvent = true ∧
        l.server.obj.mSendBuffer.totalLen = 0 ∧ l.server.obj.mSendBuffer.hasSendLen = 0 ∧
        l.server.obj.mSendBuffer.avpack.size = 0 ∧ l.server.obj.mMsgQueue = [] ∧
        l.server.obj.mbSendingData = true ∧ l.server.obj.mFfmpeg.results.all isSilent = true) ∧
        l.server.obj.mFrameCount = 0 ∧ l.server.obj.mFfmpeg.results.length + 0 = segFrameCount + 1 ∧
        l.phase = .working ∧ l.client.net.isOpen = true ∧ l.client.net.inp = [] ∧
        l.server.wire = Frame.stream (queuedIn l.server.trace) ∧ l.client.m_bPause = false)) =
      some true := by
    decide +kernel
  obtain ⟨l, run, facts⟩ := Option.map_eq_some_iff.mp finished
  obtain ⟨⟨live, armed, free, unsent, empty, queue, sending, silence⟩, rolling⟩ := of_decide_eq_true facts
  obtain ⟨count, left, working, isOpen, read, wire, mind⟩ := rolling
  exact ⟨l, .of_exec run, ⟨live, armed, free, unsent, empty, queue, sending, silence⟩, count, left, working,
    isOpen, read, wire, mind⟩

/-- **A segment of silence.** -/
theorem rolling_run {n : Nat} (inside : n ≤ segFrameCount) : ∃ ls l,
    Runs step Registered (fresh TaskPlayback.sampleRaw longFile [.sent 2000]) ls l ∧ Rolling n l := by
  induction n with
  | zero =>
    obtain ⟨l, run, rolling⟩ := rolling_start
    exact ⟨_, l, run, rolling⟩
  | succ n ih =>
    obtain ⟨ls, l, run, playing, count, left, working, isOpen, read, wire, mind⟩ := ih (by omega)
    have more : l.server.obj.mFrameCount < segFrameCount := by omega
    have some : l.server.obj.mFfmpeg.results ≠ [] := by
      intro none'
      rw [none', List.length_nil] at left
      omega
    obtain ⟨w, f, fired, sends, plays, counted, taken⟩ := media_round playing more some
    obtain ⟨c, round, isOpen, read, same, wire⟩ :=
      read_round playing working isOpen read wire fired sends
    refine ⟨_, _, run.append round, plays, ?_, ?_, rfl, isOpen, read, wire, same.trans mind⟩
    · change w.obj.mFrameCount = n + 1
      omega
    · change w.obj.mFfmpeg.results.length + (n + 1) = _
      omega

/-- The task has stopped at the end of a segment, and the player has read all it sent. -/
def AtSectionEnd (l : PlaybackLink) : Prop :=
  l.server.obj.mbSendingData = false ∧
    (queuedIn l.server.trace).getLast? = some (Frame.ofCmd .sectionEnd 0) ∧
    l.consumed = Frame.stream (queuedIn l.server.trace)

/-- After the end of a segment the playback can be resumed, if the connection stands. -/
def AlwaysResumes : Prop :=
  ∀ raw mFfmpeg sends ls l accepts, Runs step Registered (fresh raw mFfmpeg sends) ls l →
    l.AtSectionEnd → l.client.net.isOpen = true → resumeBytes.length ≤ accepts → Resumes l accepts

/-- A player that has played a segment. -/
theorem reaches_sectionEnd : ∃ ls l,
    Runs step Registered (fresh TaskPlayback.sampleRaw longFile [.sent 2000]) ls l ∧
    l.AtSectionEnd ∧ l.client.net.isOpen = true ∧ l.client.m_bPause = false := by
  obtain ⟨ls, l, run, playing, count, left, working, isOpen, read, wire, mind⟩ :=
    rolling_run (Nat.le_refl segFrameCount)
  obtain ⟨w, fired, sends, stopped⟩ := section_round playing (by omega)
  obtain ⟨c, round, isOpen, read, same, wire⟩ := read_round playing working isOpen read wire fired sends
  refine ⟨_, _, run.append round, ⟨stopped, ?_, ?_⟩, isOpen, same.trans mind⟩
  · change (queuedIn w.trace).getLast? = _
    rw [sends.2.1, List.getLast?_concat]
  · change w.wire.take (w.wire.length - c.net.inp.length) = _
    rw [read, List.length_nil, Nat.sub_zero, List.take_length]
    exact wire

/-- **The playback is not resumed** after its first segment: the player does not know that it is
paused, and sends nothing. -/
theorem stalls_after_segment : ¬ AlwaysResumes := by
  intro always
  obtain ⟨ls, l, run, ends, isOpen, mind⟩ := reaches_sectionEnd
  obtain ⟨-, f, put, some, -⟩ := always _ _ _ ls l resumeBytes.length run ends isOpen (Nat.le_refl _)
  rw [PlayBackClient.setPlayPause, if_pos mind] at put
  exact absurd (List.self_eq_append_right.mp put) some

/-- The player has paused by itself. -/
theorem resumes_iff_sample : ∃ l,
    Runs step Registered (fresh TaskPlayback.sampleRaw TaskPlayback.sampleFfmpeg [.sent 2000])
      [.opened [], .setPlayPause 1000 true true] l ∧ Resumes l 1000 := by
  have finished : (exec step Registered
      (fresh TaskPlayback.sampleRaw TaskPlayback.sampleFfmpeg [.sent 2000])
      [.opened [], .setPlayPause 1000 true true]).map (fun l => l.client.net.isOpen) = some true := by
    decide +kernel
  obtain ⟨l, run, isOpen⟩ := Option.map_eq_some_iff.mp finished
  exact ⟨l, .of_exec run, (resumes_iff (.of_exec run)).mpr ⟨by decide, isOpen, by decide⟩⟩

end PlaybackLink

end GreatEvent
