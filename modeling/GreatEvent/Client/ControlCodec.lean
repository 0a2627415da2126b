import GreatEvent.Client.Requests
import GreatEvent.Server.FrameArrival

/-!
# What the server makes of the player's requests

`Obeyed` is what each request asks of the server. A frame that carries one
does it in `dispatch` (`dispatch_obeys`); `control_codec` follows a request
from the call of the player to the turn of the server's event loop that has
its last byte, however the network cuts it.
-/

namespace GreatEvent

open Lib FrameReader

namespace Request

/-- The replies to a seek. -/
def seekReplies (k : UInt32) : List Frame := [Frame.ofCmd .seekCmpd k, Frame.ofCmd .exeRet k]

/-- A task but for its reader. -/
def apart (t : TaskPlayback) : TaskPlayback := { t with mRecvBuffer := .initial }

/-- What a request under the index `k` asks for, from `w` to `t`: one command is recognised, and it is
this one; a start and a pause change nothing else in the task. -/
def Obeyed : Request → UInt32 → World TaskPlayback → World TaskPlayback → Prop
  | start _ _, _, w, t =>
    commandsIn t.trace = commandsIn w.trace ++ [.start] ∧ t.mWriting = true ∧
      (w.mWriting = w.writeEvent → t.writeEvent = true) ∧ apart t.obj = apart w.obj
  | setpause bPause, _, w, t =>
    commandsIn t.trace = commandsIn w.trace ++ [.setpause (if bPause then 1 else 0)] ∧
      apart t.obj = { apart w.obj with
        mbSendingData := if bPause then w.obj.mbSendingData else true }
  | seek dwStart, k, w, t =>
    commandsIn t.trace = commandsIn w.trace ++ [.seek (asInt dwStart)] ∧
      t.obj.mFfmpeg = { w.obj.mFfmpeg with results := w.obj.mFfmpeg.seekTo dwStart } ∧
      queuedIn t.trace = queuedIn w.trace ++ seekReplies k ∧ t.obj.mbSendingData = true

/-- A request whose reply is still in its `send` loop: the seek has been done, and its replies are
built as far as that. -/
def Underway : Request → UInt32 → World TaskPlayback → World TaskPlayback → Prop
  | seek dwStart, k, w, t =>
    commandsIn t.trace = commandsIn w.trace ++ [.seek (asInt dwStart)] ∧
      t.obj.mFfmpeg = { w.obj.mFfmpeg with results := w.obj.mFfmpeg.seekTo dwStart } ∧
      ∃ built, built <+: seekReplies k ∧ queuedIn t.trace = queuedIn w.trace ++ built
  | _, _, _, _ => False

/-- All that `Obeyed` and `Underway` look at. -/
def seen (w : World TaskPlayback) : List Control × List Frame × Bool × Bool × TaskPlayback :=
  (commandsIn w.trace, queuedIn w.trace, w.mWriting, w.writeEvent, apart w.obj)

section
variable {r : Request} {k : UInt32} {w w' t t' : World TaskPlayback}

theorem members_of_apart {t u : TaskPlayback} (same : apart t = apart u) :
    t.mFfmpeg = u.mFfmpeg ∧ t.mbSendingData = u.mbSendingData := by
  have demuxer : (apart t).mFfmpeg = (apart u).mFfmpeg := congrArg TaskPlayback.mFfmpeg same
  have sending : (apart t).mbSendingData = (apart u).mbSendingData :=
    congrArg TaskPlayback.mbSendingData same
  exact ⟨demuxer, sending⟩

theorem Obeyed.congr (obeyed : Obeyed r k w t) (before : seen w' = seen w) (after : seen t' = seen t) :
    Obeyed r k w' t' := by
  simp only [seen, Prod.mk.injEq] at before after
  obtain ⟨commands, queued, writing, event, task⟩ := before
  obtain ⟨commands', queued', writing', event', task'⟩ := after
  obtain ⟨demuxer, sending⟩ := members_of_apart task
  obtain ⟨demuxer', sending'⟩ := members_of_apart task'
  cases r <;> simp only [Obeyed] at obeyed ⊢
  case start => rwa [commands, writing, event, task, commands', writing', event', task']
  case setpause => rwa [commands, sending, task, commands', task']
  case seek => rwa [commands, queued, demuxer, commands', queued', demuxer', sending']

theorem Underway.congr (underway : Underway r k w t) (before : seen w' = seen w)
    (after : seen t' = seen t) : Underway r k w' t' := by
  simp only [seen, Prod.mk.injEq] at before after
  obtain ⟨commands, queued, -, -, task⟩ := before
  obtain ⟨commands', queued', -, -, task'⟩ := after
  obtain ⟨demuxer, -⟩ := members_of_apart task
  obtain ⟨demuxer', -⟩ := members_of_apart task'
  cases r <;> simp only [Underway] at underway ⊢
  case seek => rwa [commands, queued, demuxer, commands', queued', demuxer']

end

/-- The request in front of the receive buffer. -/
def Stored (r : Request) (k : UInt32) (w : World TaskPlayback) : Prop :=
  (r.frame k).bytes <+: w.obj.mRecvBuffer.buff

section
variable {r : Request} {k : UInt32} {w : World TaskPlayback}

theorem Stored.text (stored : r.Stored k w) :
    (∃ stale, (buf w.obj).buff.drop packHeadLen = r.payload ++ stale) ∧
      (buf w.obj).head = (r.frame k).cmd := by
  obtain ⟨stale, stored⟩ := stored
  have split : (buf w.obj).buff = (r.frame k).cmd.bytes ++ (r.payload ++ stale) := by
    change w.obj.mRecvBuffer.buff = _
    rw [← stored, Frame.bytes, List.append_assoc]
    rfl
  refine ⟨⟨stale, ?_⟩, ?_⟩
  · rw [split, List.drop_left' (NetCmd.length_bytes _)]
  · rw [RecvBuffer.head, split, NetCmd.ofBytes_append]

/-- A seek in the buffer: the demuxer is moved, then the replies are sent. -/
theorem wp_controlSeek {dwStart : UInt32} {value : List Byte}
    (found : attrValue (buf w.obj).buff (ascii "value") = some value) (reads : atoi value = asInt dwStart) :
    wp (TaskPlayback.controlSeek k) (fun _ t => Obeyed (.seek dwStart) k w t)
      (fun s t => s = .blocked ∧ Underway (.seek dwStart) k w t) w := by
  have moved : w.obj.mFfmpeg.seekTo (UInt32.ofInt (atoi value)) = w.obj.mFfmpeg.seekTo dwStart := by
    rw [reads, ofInt_asInt]
  simp only [TaskPlayback.controlSeek, wp_bind, wp_getValue_found found, wp_emit, wp_modifySelf,
    TaskPlayback.wp_modifySend, TaskPlayback.wp_pushSendCmd k (.inr (.inl rfl)),
    TaskPlayback.wp_pushSendCmd k (.inr (.inr (.inr rfl))), wp_ite]
  have logged : ∀ trace more : List Obs,
      trace = w.trace ++ [.command (.seek (atoi value))] ++ more → commandsIn more = [] →
      commandsIn trace = commandsIn w.trace ++ [.seek (asInt dwStart)] ∧
        queuedIn trace = queuedIn w.trace ++ queuedIn more := by
    rintro trace more rfl silent
    rw [commandsIn_append, commandsIn_append, silent, List.append_nil, queuedIn_append, queuedIn_append,
      reads]
    exact ⟨rfl, congrArg (· ++ _) (List.append_nil _)⟩
  have demuxer : ({ w.obj.mFfmpeg with results := w.obj.mFfmpeg.seekTo (UInt32.ofInt (atoi value)) } :
      FfmpegContext) = { w.obj.mFfmpeg with results := w.obj.mFfmpeg.seekTo dwStart } := by
    rw [moved]
  apply TaskPlayback.wp_tcpSendData_frame
  · intro rest b wire sends
    apply TaskPlayback.wp_tcpSendData_frame
    · intro _ b' wire' sends'
      obtain ⟨command, replies⟩ := logged _ _ (List.append_assoc _ [.queued (Frame.ofCmd .seekCmpd k)]
        [.queued (Frame.ofCmd .exeRet k)]) rfl
      split
      · exact ⟨command, demuxer, replies, rfl⟩
      · exact ⟨command, demuxer, replies, rfl⟩
    · intro wire' sends'
      obtain ⟨command, replies⟩ := logged _ _ (List.append_assoc _ [.queued (Frame.ofCmd .seekCmpd k)]
        [.queued (Frame.ofCmd .exeRet k)]) rfl
      exact ⟨rfl, command, demuxer, seekReplies k, List.prefix_rfl, replies⟩
  · intro wire sends
    obtain ⟨command, replies⟩ := logged _ [.queued (Frame.ofCmd .seekCmpd k)] rfl rfl
    exact ⟨rfl, command, demuxer, [Frame.ofCmd .seekCmpd k], ⟨[Frame.ofCmd .exeRet k], rfl⟩, replies⟩

open TaskPlayback in
/-- **`dispatch` obeys the request** that lies in its buffer. -/
theorem dispatch_obeys (stored : r.Stored k w) :
    wp dispatch (fun x t => x = none ∧ Obeyed r k w t) (fun s t => s = .blocked ∧ Underway r k w t) w := by
  obtain ⟨⟨stale, text⟩, head⟩ := stored.text
  have isControl : (buf w.obj).head.dwCmd = ModuleMsg.controlPlay.code := by
    rw [head]
    rfl
  have isIndex : (buf w.obj).head.dwIndex = k := by
    rw [head]
    rfl
  simp only [dispatch, wp_bind, wp_readerBuf]
  rw [if_pos isControl]
  cases r with
  | start dwStart dwEnd =>
    obtain ⟨name, tmstart, tmend⟩ := start_found text
    simp only [wp_bind, wp_getValue_found name, if_true, controlStart, wp_emit]
    refine (wp_getValue_found (by exact tmstart)).mpr ?_
    refine (wp_getValue_found (by exact tmend)).mpr ?_
    simp only [wp_addWriteEvent, wp_pure, true_and]
    split
    case isTrue armed => exact ⟨commandsIn_append _ _, armed, fun same => same.symm.trans armed, rfl⟩
    case isFalse => exact ⟨commandsIn_append _ _, rfl, fun _ => rfl, rfl⟩
  | setpause bPause =>
    obtain ⟨name, value⟩ := setpause_found text
    have other : ascii "setpause" ≠ ascii "start" := by decide
    simp only [wp_bind, wp_getValue_found name, if_neg other, if_true, controlSetpause]
    refine (wp_getValue_found (by exact value)).mpr ?_
    simp only [wp_emit, wp_ite]
    cases bPause with
    | false => exact ⟨rfl, commandsIn_append _ _, rfl⟩
    | true => exact ⟨rfl, commandsIn_append _ _, rfl⟩
  | seek dwStart =>
    obtain ⟨name, value⟩ := seek_found text
    have notStart : ascii "seek" ≠ ascii "start" := by decide
    have notPause : ascii "seek" ≠ ascii "setpause" := by decide
    have number := atoi_printInt (asInt_range dwStart).1 (asInt_range dwStart).2
    simp only [wp_bind, wp_getValue_found name, if_neg notStart, if_neg notPause, if_true, isIndex]
    apply (wp_controlSeek value number).mono
    · exact fun _ _ obeyed => ⟨rfl, obeyed⟩
    · exact fun _ _ underway => underway

end

/-! ## On its way -/

/-- The buffer of a reader between two frames. -/
abbrev blank : List Byte := RecvBuffer.initial.buff

/-- The request is still arriving, and no command has been recognised since. -/
def Pending (r : Request) (k : UInt32) (rest : List Byte) (commands : List Control)
    (w : World TaskPlayback) : Prop :=
  Arriving (r.frame k).bytes rest blank w.obj.mRecvBuffer w.inp ∧ commandsIn w.trace = commands

/-- The last byte of the request has been taken: it has been obeyed and the reader is ready for the
next frame, or its reply is still being sent. -/
def Arrived (r : Request) (k : UInt32) (rest : List Byte) (w t : World TaskPlayback) : Prop :=
  t.inp = rest ∧
    ((t.obj.mRecvBuffer = .initial ∧ Obeyed r k w t) ∨ (t.halted = some .blocked ∧ Underway r k w t))

section
variable {r : Request} {k : UInt32} {rest : List Byte} {w w' : World TaskPlayback} {e : Event}

theorem long_frame (r : Request) (k : UInt32) :
    packHeadLen < (r.frame k).bytes.length ∧ (r.frame k).bytes.length ≤ cmdLen := by
  have some := List.length_pos_iff.mpr r.payload_ne_nil
  have short := r.length_payload_le
  have length : (r.frame k).bytes.length = packHeadLen + r.payload.length := by
    rw [Frame.bytes, List.length_append, NetCmd.length_bytes]
    rfl
  unfold cmdLen
  have head : packHeadLen = 16 := rfl
  omega

/-- A request at the front of the input of a reader between two frames is arriving. -/
theorem pending_start (atRest : w.obj.mRecvBuffer = .initial) (input : w.inp = (r.frame k).bytes ++ rest) :
    Pending r k rest (commandsIn w.trace) w := by
  refine ⟨?_, rfl⟩
  rw [atRest, input]
  exact arriving_next (.head rfl rfl rfl (by decide))

/-- What a turn leaves alone that takes no input: the reader, and the commands recognised. -/
def Still (c d : Core TaskPlayback) : Prop :=
  d.obj.mRecvBuffer = c.obj.mRecvBuffer ∧ d.inp = c.inp ∧ commandsIn d.trace = commandsIn c.trace

theorem still_queued {c d : Core TaskPlayback} {f : Frame} (reader : d.obj.mRecvBuffer = c.obj.mRecvBuffer)
    (input : d.inp = c.inp) (logged : d.trace = c.trace ++ [.queued f]) : Still c d := by
  refine ⟨reader, input, ?_⟩
  rw [logged, commandsIn_append]
  exact List.append_nil _

theorem method_still (other : ∀ recvs sends, e ≠ .read recvs sends) :
    wp (e.method : Act TaskPlayback Int) (fun _ t => Still w.core t.core) (fun _ t => Still w.core t.core) w := by
  cases e with
  | read recvs sends => exact absurd rfl (other recvs sends)
  | write sends =>
    apply TaskPlayback.wp_writeBuffer
    · intro _
      exact TaskPlayback.wp_tcpSendData_frame (fun _ _ _ _ => ⟨rfl, rfl, rfl⟩) (fun _ _ => ⟨rfl, rfl, rfl⟩)
    · intro _ _ _ _
      exact TaskPlayback.wp_tcpSendData_frame (fun _ _ _ _ => still_queued rfl rfl rfl)
        (fun _ _ => still_queued rfl rfl rfl)
    · exact fun _ _ _ => ⟨rfl, rfl, rfl⟩
    · intro _ _ _ _ _ _
      exact TaskPlayback.wp_tcpSendData_frame (fun _ _ _ _ => still_queued rfl rfl rfl)
        (fun _ _ => still_queued rfl rfl rfl)
    · intro _ _ _ _ _
      exact TaskPlayback.wp_tcpSendData_frame (fun _ _ _ _ => still_queued rfl rfl rfl)
        (fun _ _ => still_queued rfl rfl rfl)
    · intro _ _ _ _
      exact TaskPlayback.wp_tcpSendData_frame (fun _ _ _ _ => still_queued rfl rfl rfl)
        (fun _ _ => still_queued rfl rfl rfl)
  | timer =>
    change wp TaskPlayback.setHeartCount _ _ w
    simp only [TaskPlayback.setHeartCount, wp_bind, wp_modifySelf, wp_get, wp_ite, wp_addWriteEvent,
      wp_self, wp_pure]
    split
    · split <;> exact ⟨rfl, rfl, rfl⟩
    · exact ⟨rfl, rfl, rfl⟩
  | readTimeout => exact ⟨rfl, rfl, rfl⟩
  | writeTimeout => exact ⟨rfl, rfl, rfl⟩

/-- **One turn while a request is arriving.** -/
theorem pending_turn (pending : Pending r k rest (commandsIn w.trace) w) (fired : fire w e = some w') :
    Pending r k rest (commandsIn w.trace) w' ∨ Arrived r k rest w w' := by
  by_cases isRead : ∃ recvs sends, e = .read recvs sends
  · obtain ⟨recvs, sends, rfl⟩ := isRead
    apply fire_read (P := fun t => Pending r k rest (commandsIn w.trace) t ∨ Arrived r k rest w t) fired
    obtain ⟨long, fits⟩ := long_frame r k
    apply wp_readBuffer_arriving (w := w.reading recvs sends) pending.1 RecvBuffer.length_initial
      (r.frame k).whole long fits
    · intro ret b inp recvs' obs arriving reading
      left
      have commands : commandsIn (w.trace ++ obs) = commandsIn w.trace := by
        rw [commandsIn_append, commandsIn_reading reading, List.append_nil]
      unfold World.afterRead
      split
      · refine ⟨arriving, ?_⟩
        change commandsIn (w.trace ++ obs ++ [.teardown .onRead]) = _
        rw [commandsIn_append, commands]
        exact List.append_nil _
      · refine ⟨?_, ?_⟩
        · rw [World.armRead_obj, World.armRead_inp]
          exact arriving
        · rw [World.armRead_trace]
          exact commands
    · intro b recvs' obs stored reading
      have before : seen w = seen ((w.reading recvs sends).read b rest recvs' obs) := by
        change seen w = (commandsIn (w.trace ++ obs), queuedIn (w.trace ++ obs), _)
        rw [commandsIn_append, commandsIn_reading reading, queuedIn_append, queuedIn_reading reading,
          List.append_nil, List.append_nil]
        rfl
      have inBuffer : r.Stored k ((w.reading recvs sends).read b rest recvs' obs) := ⟨_, stored.symm⟩
      apply ((dispatch_obeys inBuffer).and (TaskPlayback.dispatch_aside _)).mono
      · rintro _ t ⟨⟨rfl, obeyed⟩, -, aside⟩ ret pos
        right
        rw [World.afterRead_pos _ pos]
        refine ⟨?_, .inl ⟨?_, obeyed.congr before ?_⟩⟩
        · rw [World.armRead_inp]
          exact aside.inp
        · rw [World.armRead_obj]
          rfl
        · simp only [seen, World.armRead_obj, World.armRead_trace, World.armRead_mWriting,
            World.armRead_writeEvent]
          rfl
      · rintro s t ⟨⟨rfl, underway⟩, aside⟩
        exact .inr ⟨aside.inp, .inr ⟨rfl, underway.congr before rfl⟩⟩
  · left
    have still := fire_keeps (P := Still w.core) fired ?_ ?_
    · obtain ⟨reader, input, commands⟩ := still
      refine ⟨?_, commands⟩
      change Arriving _ _ _ w'.core.obj.mRecvBuffer w'.core.inp
      rw [reader, input]
      exact pending.1
    · rintro c by' ⟨reader, input, commands⟩
      refine ⟨reader, input, ?_⟩
      rw [commandsIn_append, commands]
      exact List.append_nil _
    · intro d same _ _ _
      rw [← same]
      exact method_still fun recvs sends isThis => isRead ⟨recvs, sends, isThis⟩

/-- The input only gets shorter. -/
theorem inp_of_fire (fired : fire w e = some w') : w'.inp <:+ w.inp := by
  apply fire_keeps (P := fun c => c.inp <:+ w.inp) fired (fun _ _ shorter => shorter)
  intro d same _ _ _
  have input : d.inp = w.inp := congrArg Core.inp same
  rw [← input]
  exact (method_onward e d).mono (fun _ _ onward => onward.inp) (fun _ _ onward => onward.inp)

/-- A request arrives, whatever else happens, until its last byte has been taken. -/
theorem pending_run {es : List Event} {ok : World TaskPlayback → Event → World TaskPlayback → Prop}
    (pending : Pending r k rest (commandsIn w.trace) w) (run : Runs fire ok w es w')
    (before : rest.length < w'.inp.length) : Pending r k rest (commandsIn w.trace) w' := by
  refine run.invariant
    (P := fun t => rest.length < t.inp.length → Pending r k rest (commandsIn w.trace) t)
    (fun _ => pending) ?_ before
  intro t e u ih fired _ more
  have shorter := (inp_of_fire fired).length_le
  obtain ⟨arriving, none'⟩ := ih (by omega)
  rcases pending_turn ⟨arriving, rfl⟩ fired with still | ⟨input, -⟩
  · exact ⟨still.1, still.2.trans none'⟩
  · rw [input] at more
    exact absurd more (Nat.lt_irrefl _)

/-- The value of an attribute, looked up in any buffer that holds the frame in front. -/
def ReadsBack (f pName : List Byte) (v : UInt32) : Prop :=
  ∀ d : World TaskPlayback, f <+: d.obj.mRecvBuffer.buff →
    wp (getValue pName) (fun s t => UInt32.ofInt (atoi s) = v ∧ t = d) (fun _ _ => False) d

/-- The numbers in a start request. -/
theorem start_readsBack (dwStart dwEnd : UInt32) :
    ReadsBack ((start dwStart dwEnd).frame k).bytes (ascii "tmstart") dwStart ∧
    ReadsBack ((start dwStart dwEnd).frame k).bytes (ascii "tmend") dwEnd := by
  have back : ∀ v, UInt32.ofInt (atoi (printInt (asInt v))) = v := fun v => by
    rw [atoi_printInt (asInt_range v).1 (asInt_range v).2, ofInt_asInt]
  constructor
  · intro d stored
    obtain ⟨⟨stale, text⟩, -⟩ := Stored.text stored
    exact (wp_getValue_found (start_found text).2.1).mpr ⟨back dwStart, rfl⟩
  · intro d stored
    obtain ⟨⟨stale, text⟩, -⟩ := Stored.text stored
    exact (wp_getValue_found (start_found text).2.2).mpr ⟨back dwEnd, rfl⟩

end

end Request

/-- **The control command codec.** A request that has gone out whole, however the network cuts it and
whatever callbacks run meanwhile, is recognised in the turn that takes its last byte and in no other,
as this request and nothing else. -/
theorem control_codec {r : Request} {accepts : Nat} {c c' : PlayBackClient} {f rest : List Byte}
    {w w₁ w₂ : World TaskPlayback} {es : List Event} {e : Event}
    {ok : World TaskPlayback → Event → World TaskPlayback → Prop}
    (issued : r.issue accepts c = (true, c')) (put : c'.net.wire = c.net.wire ++ f) (sent : f ≠ [])
    (atRest : w.obj.mRecvBuffer = .initial) (input : w.inp = f ++ rest) (run : Runs fire ok w es w₁)
    (before : rest.length < w₁.inp.length) (fired : fire w₁ e = some w₂)
    (after : w₂.inp.length ≤ rest.length) :
    commandsIn w₁.trace = commandsIn w.trace ∧ r.Arrived (r.index c) rest w₁ w₂ ∧
    ∀ dwStart dwEnd, r = .start dwStart dwEnd →
      Request.ReadsBack f (ascii "tmstart") dwStart ∧ Request.ReadsBack f (ascii "tmend") dwEnd := by
  obtain rfl := Request.issue_puts issued put sent
  have pending := Request.pending_run (Request.pending_start atRest input) run before
  refine ⟨pending.2, ?_, ?_⟩
  · rcases Request.pending_turn ⟨pending.1, rfl⟩ fired with still | arrived
    · have := still.1.more (r.frame (r.index c)).whole (Request.long_frame r _).1
      omega
    · exact arrived
  · rintro dwStart dwEnd rfl
    exact Request.start_readsBack dwStart dwEnd

/-- A player that seeks to a position from 2^31 on. -/
def sampleSeek : Bool × PlayBackClient :=
  (Request.seek 2147483650).issue 1000 (.connected (.fresh []))

/-- A task about to get the player's request. -/
def sampleTask : World TaskPlayback :=
  accepted (.init TaskPlayback.sampleRaw TaskPlayback.sampleFfmpeg) sampleSeek.2.net.wire

/-- The request arrives in four pieces, a heartbeat between the first two. -/
theorem control_codec_sample : ∃ w₁ w₂,
    Runs fire (fun w e _ => w.Registered e) sampleTask
      [.read [.got 5] [], .timer, .read [.got 11, .got 20] []] w₁ ∧
    fire w₁ (.read [.got 100] [.sent 16, .sent 16]) = some w₂ ∧
    (Request.seek 2147483650).Arrived 1 [] w₁ w₂ := by
  have ran : ((exec fire (fun w e _ => w.Registered e) sampleTask
      [.read [.got 5] [], .timer, .read [.got 11, .got 20] []]).bind fun w₁ =>
      (fire w₁ (.read [.got 100] [.sent 16, .sent 16])).map fun w₂ =>
        (decide (0 < w₁.inp.length), w₂.inp.length)) = some (true, 0) := by
    decide +kernel
  obtain ⟨w₁, run, ran⟩ := Option.bind_eq_some_iff.mp ran
  obtain ⟨w₂, fired, ran⟩ := Option.map_eq_some_iff.mp ran
  obtain ⟨before, after⟩ := Prod.mk.inj ran
  have issued : (Request.seek 2147483650).issue 1000 (.connected (.fresh [])) = (true, sampleSeek.2) :=
    Prod.ext (by decide +kernel) rfl
  have sent : sampleSeek.2.net.wire ≠ [] := by decide +kernel
  have before : ([] : List Byte).length < w₁.inp.length := of_decide_eq_true before
  have after : w₂.inp.length ≤ ([] : List Byte).length := Nat.le_of_eq after
  have codec := control_codec issued rfl sent rfl (List.append_nil _).symm (.of_exec run) before fired after
  exact ⟨w₁, w₂, .of_exec run, fired, codec.2.1⟩

end GreatEvent
