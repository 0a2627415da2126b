import GreatEvent.Server.SessionInput
import GreatEvent.Server.SessionStart

/-!
# Two headers a session cannot read

For a session at rest, before or after login, server or client, what its
readers do is right up to two kinds of header. One that announces more than
the buffer takes makes the next `recv` write outside it. One that announces
an empty body is never handed on, and the next read ends the session.
-/

namespace GreatEvent

open Lib FrameReader

namespace Session

/-- The session is between two frames, and its log is empty. -/
structure AtRest (w : World Session) : Prop where
  inHead : w.obj.reader.bProcHead = true
  taken : w.obj.reader.hasRecvLen = 0
  sized : w.obj.reader.buff.length = w.obj.bufferSize
  log : w.trace = []

/-- A connection just accepted is at rest. -/
theorem atRest_accepted (host : Host) (raw : RawBuffer) (inp : List Byte) :
    AtRest (accepted (init host raw) inp) :=
  ⟨rfl, rfl, raw.2, rfl⟩

/-- A session of a playback task with its reader as the constructor leaves it is at rest. -/
theorem atRest_playback (host : Host) (own : RecvBuffer) (raw : TagSendBuffer)
    (mFfmpeg : FfmpegContext) (inp : List Byte) :
    AtRest (accepted ⟨own, some (.playback (TaskPlayback.init raw mFfmpeg)), host⟩ inp) :=
  ⟨rfl, rfl, List.length_replicate, rfl⟩

section
variable {start w : World Session} {es : List Event} {size : Nat} {all p : List Byte}
  {fs gs : List (List Byte)} {inp : List Byte} {trace : List Obs}
  {ok : World Session → Event → World Session → Prop}

theorem AtRest.placed (atRest : AtRest start) :
    Placed start.obj.bufferSize start.inp [] [] start.core := by
  refine ⟨start.obj.reader.buff, rfl, ⟨rfl, nofun, .inl Framing.unfinished_nil, ?_, ?_, ?_, ?_⟩,
    .head rfl atRest.inHead atRest.taken (by decide), atRest.sized⟩
  · rintro ⟨impossible, -⟩
    exact absurd impossible (by decide)
  all_goals
    rw [show start.core.trace = [] from atRest.log]
    first | rfl | exact nofun

/-- Every run from rest stays in its stream. -/
theorem settled_run (atRest : AtRest start) (run : Runs fire ok start es w) :
    Settled start.obj.bufferSize start.inp (fun _ => True) w := by
  refine run.invariant (P := Settled start.obj.bufferSize start.inp fun _ => True) ?_ ?_
  · exact .placed [] [] atRest.placed
  · exact fun a e b settled fired _ => settled.fire fired fun d fs p _ _ placed => method_lands placed

/-- A header that fits the buffer. -/
theorem not_oversized_iff {h : List Byte} (header : h.length = packHeadLen) :
    ¬ Oversized size h ↔ packHeadLen + (NetCmd.ofBytes h).dwLength.toNat ≤ size := by
  rw [Oversized, frameLen_eq]
  omega

/-- **Receive windows stay inside the buffers** exactly as long as no header met announces more than
the buffer takes. -/
theorem windows_inside (atRest : AtRest start) (run : Runs fire ok start es w) :
    ∃ consumed, start.inp = consumed ++ w.inp ∧ ((∀ o ∈ w.trace, o.windowOk = true) ↔
      ∀ h ∈ netFraming.headers consumed,
        packHeadLen + (NetCmd.ofBytes h).dwLength.toNat ≤ start.obj.bufferSize) := by
  have fit : ∀ {consumed : List Byte}, (∀ h ∈ netFraming.headers consumed,
      ¬ Oversized start.obj.bufferSize h) → ∀ h ∈ netFraming.headers consumed,
        packHeadLen + (NetCmd.ofBytes h).dwLength.toNat ≤ start.obj.bufferSize :=
    fun fits h member => (not_oversized_iff (Framing.length_of_mem_headers member)).mp (fits h member)
  cases settled_run atRest run with
  | placed fs p placed =>
    obtain ⟨mem, -, reads⟩ := placed
    exact ⟨fs.flatten ++ p, reads.cut.stream, fun _ => fit reads.cut.headers_fit,
      fun _ => reads.cut.windows⟩
  | broken broken =>
    obtain ⟨consumed, same, ⟨h, isHeader, exceeds⟩, o, member, wrong⟩ := broken
    refine ⟨consumed, same, fun inside => ?_, fun fits => ?_⟩
    · rw [inside o member] at wrong
      cases wrong
    · have fits := fits h isHeader
      rw [← not_oversized_iff (Framing.length_of_mem_headers isHeader)] at fits
      exact absurd exceeds fits
  | halted _ fs p cut =>
    exact ⟨fs.flatten ++ p, cut.stream, fun _ => fit cut.headers_fit, fun _ => cut.windows⟩
  | tornDown _ fs p trace cut logged =>
    refine ⟨fs.flatten ++ p, cut.stream, fun _ => fit cut.headers_fit, fun _ o member => ?_⟩
    rw [logged] at member
    rcases List.mem_append.mp member with old | new
    · exact cut.windows o old
    · rw [List.mem_singleton.mp new]
      rfl

theorem windows_inside_sample : ∃ w,
    Runs fire (fun w e _ => w.Registered e)
      (accepted (init sampleHost sampleRaw) (playBytes ++ TaskPlayback.startBytes))
      [readReply, TaskPlayback.readWhole] w ∧
    ∃ consumed, playBytes ++ TaskPlayback.startBytes = consumed ++ w.inp ∧
      ((∀ o ∈ w.trace, o.windowOk = true) ↔ ∀ h ∈ netFraming.headers consumed,
        packHeadLen + (NetCmd.ofBytes h).dwLength.toNat ≤ cmdLen) := by
  have finished : (exec fire (fun w e _ => w.Registered e)
      (accepted (init sampleHost sampleRaw) (playBytes ++ TaskPlayback.startBytes))
      [readReply, TaskPlayback.readWhole]).isSome = true := by
    decide +kernel
  obtain ⟨w, ran⟩ := Option.isSome_iff_exists.mp finished
  exact ⟨w, .of_exec ran, windows_inside (atRest_accepted ..) (.of_exec ran)⟩

/-- The first header of a connection announces 2³² - 1 bytes. -/
theorem window_outside : ∃ w, Runs fire (fun w e _ => w.Registered e)
    (accepted (init sampleHost sampleRaw)
      (NetCmd.bytes ⟨netFlag, ModuleMsg.login.code, 0, 0xffffffff⟩))
    [TaskPlayback.readWhole] w ∧ ¬ ∀ o ∈ w.trace, o.windowOk = true := by
  have wrong : (exec fire (fun w e _ => w.Registered e)
      (accepted (init sampleHost sampleRaw)
        (NetCmd.bytes ⟨netFlag, ModuleMsg.login.code, 0, 0xffffffff⟩))
      [TaskPlayback.readWhole]).map (fun w => w.trace.all Obs.windowOk) = some false := by
    decide +kernel
  obtain ⟨w, ran, failed⟩ := Option.map_eq_some_iff.mp wrong
  refine ⟨w, .of_exec ran, fun inside => ?_⟩
  rw [List.all_eq_true.mpr inside] at failed
  cases failed

/-! ## Empty bodies -/

/-- The frames read are ordinary: no read has ended the session unless the peer has closed, every
whole frame has been handed on, and between two frames the reader is in its header state. -/
def Ordinary (consumed : List Byte) (es : List Event) (w : World Session) : Prop :=
  (.teardown .onRead ∈ w.trace → ∃ e ∈ es, ¬ e.NoClose) ∧
  framesIn w.trace = netFraming.frames consumed ∧
  (w.Live → consumed = (netFraming.frames consumed).flatten →
    w.obj.reader.bProcHead = true ∧ w.obj.reader.hasRecvLen = 0)

/-- A stream of frames that fit the buffer breaks no reader. -/
theorem not_broken (wellFormed : ∀ g ∈ gs, netFraming.Whole g ∧ g.length ≤ size) :
    ¬ Broken size gs.flatten inp trace := by
  rintro ⟨consumed, same, ⟨h, isHeader, exceeds⟩, -⟩
  have met := (Framing.headers_prefix consumed inp).subset isHeader
  rw [← same, ← List.append_nil gs.flatten,
    Framing.headers_flatten (fun g member => (wellFormed g member).1),
    Framing.headers_short (by decide), List.append_nil] at met
  obtain ⟨g, member, rfl⟩ := List.mem_map.mp met
  obtain ⟨whole, fits⟩ := wellFormed g member
  rw [whole.2] at fits
  have exceeds : size < netFraming.frameLen g := (oversized_take whole.1).mp exceeds
  omega

/-- A task is never taken from its session. -/
theorem fire_loggedIn {w' : World Session} {e : Event} (fired : fire w e = some w')
    (loggedIn : w.obj.mTaskBase ≠ none) : w'.obj.mTaskBase ≠ none := by
  refine fire_keeps fired (P := fun c => c.obj.mTaskBase ≠ none) (fun _ _ kept => kept) ?_
  intro d same _ _ _
  rw [← show d.obj = w.obj from congrArg Core.obj same] at loggedIn
  have kept : ∀ {τ : Type} {mk : τ → Task} {t : τ} {act : Act τ Int},
      wp (inTask mk t act) (fun _ u => u.core.obj.mTaskBase ≠ none)
        (fun _ u => u.core.obj.mTaskBase ≠ none) d :=
    (wp_inTask ..).mpr (wp_of_forall (fun _ _ => Option.some_ne_none _)
      (fun _ _ => Option.some_ne_none _))
  cases task : d.obj.mTaskBase with
  | none => exact absurd task loggedIn
  | some task' =>
    cases task' with
    | playback t => exact (wp_method task).mpr kept
    | fileSend t => exact (wp_method task).mpr kept
    | fileRecv t => exact (wp_method task).mpr kept

/-- Why a session with a task has been ended by a read. -/
def ClosedOrEmptyIn (es : List Event) (p : List Byte) : Prop :=
  (∃ e ∈ es, ¬ e.NoClose) ∨ AnnouncesNothing p

/-- Every run of a session with a task stays in its stream, and only a close or an empty body ends
it. -/
theorem settled_run_task (atRest : AtRest start) (loggedIn : start.obj.mTaskBase ≠ none)
    (run : Runs fire ok start es w) :
    Settled start.obj.bufferSize start.inp (ClosedOrEmptyIn es) w := by
  have both : w.obj.mTaskBase ≠ none ∧
      Settled start.obj.bufferSize start.inp (ClosedOrEmptyIn es) w := by
    induction run with
    | nil => exact ⟨loggedIn, .placed [] [] atRest.placed⟩
    | @snoc es a e b _ fired _ ih =>
      refine ⟨fire_loggedIn fired ih.1, ih.2.fire fired fun d fs p same recvs placed => ?_⟩
      have task : d.obj.mTaskBase ≠ none := by
        rw [show d.obj = a.obj from congrArg Core.obj same]
        exact ih.1
      have reason : ∀ {p : List Byte}, ClosedOrEmpty d.recvs p → ClosedOrEmptyIn (es ++ [e]) p := by
        rintro p (closed | empty)
        · rw [recvs] at closed
          exact .inl ⟨e, by simp, fun noClose => noClose closed⟩
        · exact .inr empty
      refine (method_lands_task task placed).mono (fun ret u lands => ?_) (fun _ _ stopped => stopped)
      refine lands.imp (fun ⟨fs, p, placed, why⟩ => ⟨fs, p, placed, reason ∘ why⟩) (Or.imp id ?_)
      exact fun ⟨tears, fs, p, cut, why⟩ => ⟨tears, fs, p, cut, reason why⟩
  exact both.2

/-- **Every frame is read and handed on** exactly as long as no header met announces an empty body. -/
theorem frames_ordinary (atRest : AtRest start) (loggedIn : start.obj.mTaskBase ≠ none)
    (stream : start.inp = gs.flatten)
    (wellFormed : ∀ g ∈ gs, netFraming.Whole g ∧ g.length ≤ start.obj.bufferSize)
    (run : Runs fire ok start es w) :
    ∃ consumed, start.inp = consumed ++ w.inp ∧ (Ordinary consumed es w ↔
      ∀ h ∈ netFraming.headers consumed, (NetCmd.ofBytes h).dwLength ≠ 0) := by
  -- with an empty body open both sides fail, without one both hold
  have split : ∀ {fs : List (List Byte)} {p : List Byte} {trace : List Obs},
      Cut start.obj.bufferSize start.inp fs p w.inp trace → framesIn w.trace = fs →
      (¬ AnnouncesNothing p → (.teardown .onRead ∈ w.trace → ∃ e ∈ es, ¬ e.NoClose) ∧
        (w.Live → p = [] → w.obj.reader.bProcHead = true ∧ w.obj.reader.hasRecvLen = 0)) →
      ∃ consumed, start.inp = consumed ++ w.inp ∧ (Ordinary consumed es w ↔
        ∀ h ∈ netFraming.headers consumed, (NetCmd.ofBytes h).dwLength ≠ 0) := by
    intro fs p trace cut handed holds
    refine ⟨fs.flatten ++ p, cut.stream, ?_⟩
    by_cases empty : AnnouncesNothing p
    · obtain ⟨frames, h, isHeader, zero⟩ := cut.frames_of_empty empty
      refine iff_of_false (fun ordinary => ?_) fun nonzero => nonzero h isHeader zero
      have same := congrArg List.length (handed.symm.trans ordinary.2.1)
      rw [frames, List.length_append] at same
      simp at same
    · obtain ⟨frames, nonzero⟩ := cut.frames_eq empty
      obtain ⟨torn, reads⟩ := holds empty
      refine iff_of_true ⟨torn, handed.trans frames.symm, fun live boundary => ?_⟩ nonzero
      rw [frames] at boundary
      exact reads live (List.append_right_eq_self.mp boundary)
  cases settled_run_task atRest loggedIn run with
  | placed fs p placed =>
    obtain ⟨mem, -, reads⟩ := placed
    refine split reads.cut reads.cut.frames fun _ => ⟨fun torn => absurd torn reads.cut.standing, ?_⟩
    rintro - rfl
    cases reads.holds with
    | head _ inHead taken => exact ⟨inHead, taken⟩
    | body _ _ _ long => exact absurd long (by decide)
  | broken broken =>
    rw [stream] at broken
    exact absurd broken (not_broken wellFormed)
  | halted halted fs p cut =>
    exact split cut cut.frames fun _ =>
      ⟨fun torn => absurd torn cut.standing, fun live => absurd live.2 halted⟩
  | tornDown closed fs p trace cut logged reason =>
    refine split cut (by rw [logged, framesIn_append, cut.frames]; simp [framesIn, Obs.frame?]) fun nonempty =>
      ⟨fun _ => reason.resolve_right nonempty, fun live => ?_⟩
    rw [live.1] at closed
    cases closed

end

/-- A playback session at its start. -/
def samplePlaying (inp : List Byte) : World Session :=
  accepted ⟨.initial, some (.playback (TaskPlayback.init TaskPlayback.sampleRaw TaskPlayback.sampleFfmpeg)),
    sampleHost⟩ inp

/-- A heartbeat as the client may send it back. -/
def pingBytes : List Byte := (Frame.ofCmd .ping 0).bytes

theorem frames_ordinary_sample : ∃ w,
    Runs fire (fun w e _ => w.Registered e ∧ e.NoClose)
      (samplePlaying [TaskPlayback.startBytes, TaskPlayback.pauseBytes].flatten)
      [.read [.got 7, .again] [], TaskPlayback.readWhole, TaskPlayback.readWhole] w ∧
    ∃ consumed, [TaskPlayback.startBytes, TaskPlayback.pauseBytes].flatten = consumed ++ w.inp ∧
      (Ordinary consumed [.read [.got 7, .again] [], TaskPlayback.readWhole, TaskPlayback.readWhole] w ↔
        ∀ h ∈ netFraming.headers consumed, (NetCmd.ofBytes h).dwLength ≠ 0) := by
  have finished : (exec fire (fun w e _ => w.Registered e ∧ e.NoClose)
      (samplePlaying [TaskPlayback.startBytes, TaskPlayback.pauseBytes].flatten)
      [.read [.got 7, .again] [], TaskPlayback.readWhole, TaskPlayback.readWhole]).isSome = true := by
    decide +kernel
  have wellFormed : ∀ g ∈ [TaskPlayback.startBytes, TaskPlayback.pauseBytes],
      netFraming.Whole g ∧ g.length ≤ cmdLen := by
    intro g member
    simp only [List.mem_cons, List.not_mem_nil, or_false] at member
    rcases member with rfl | rfl
    · exact ⟨⟨by decide +kernel, by decide +kernel⟩, by decide +kernel⟩
    · exact ⟨⟨by decide +kernel, by decide +kernel⟩, by decide +kernel⟩
  obtain ⟨w, ran⟩ := Option.isSome_iff_exists.mp finished
  exact ⟨w, .of_exec ran,
    frames_ordinary (atRest_playback ..) (Option.some_ne_none _) rfl wellFormed (.of_exec ran)⟩

/-- A client that returns a heartbeat is thrown out, and its `start` command is never read. -/
theorem empty_frame_ends_session : ∃ w, Runs fire (fun w e _ => w.Registered e ∧ e.NoClose)
    (samplePlaying (pingBytes ++ TaskPlayback.startBytes)) [TaskPlayback.readWhole] w ∧
    w.inp = TaskPlayback.startBytes ∧ .teardown .onRead ∈ w.trace ∧
    ¬ Ordinary pingBytes [TaskPlayback.readWhole] w := by
  have ended : (exec fire (fun w e _ => w.Registered e ∧ e.NoClose)
      (samplePlaying (pingBytes ++ TaskPlayback.startBytes)) [TaskPlayback.readWhole]).map
      (fun w => (w.inp, decide (.teardown .onRead ∈ w.trace))) =
      some (TaskPlayback.startBytes, true) := by
    decide +kernel
  obtain ⟨w, ran, facts⟩ := Option.map_eq_some_iff.mp ended
  obtain ⟨left, torn⟩ := Prod.mk.inj facts
  have torn : .teardown .onRead ∈ w.trace := of_decide_eq_true torn
  refine ⟨w, .of_exec ran, left, torn, fun ordinary => ?_⟩
  obtain ⟨e, member, closes⟩ := ordinary.1 torn
  rw [List.mem_singleton.mp member] at closes
  exact closes (by decide)

end Session

end GreatEvent
