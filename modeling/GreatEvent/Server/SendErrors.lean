import GreatEvent.Server.PlaybackErrors
import GreatEvent.Server.WriteEvent

/-!
# The stream under send errors

For a file transfer, as for playback: when no send that is tried again has
been cut short, the bytes on the wire are the front of the queued frames, and
the buffer holds the rest of them from `hasSendLen` on. The last send of a
transfer is not tried again, so it may be cut short. `send_errors_harmless`
puts both tasks together.
-/

namespace GreatEvent

open Lib FrameReader

/-- What the buffer has still to send, `hasSendLen` bytes being out. -/
def TagFileSendBuffer.left (b : TagFileSendBuffer) : List Byte :=
  ((if b.bSendCmd then b.cmd.bytes else b.data.getD []).drop b.hasSendLen).take
      (b.totalLen - b.hasSendLen) ++
    if b.bSendCmd then b.payload else []

namespace TaskFileSend

open TagFileSendBuffer

theorem Free.left_nil {b : TagFileSendBuffer} (free : Free b) : b.left = [] := by
  have empty : b.payload = [] := by
    rw [payload, free.dataLen]
    rfl
  rw [TagFileSendBuffer.left, free.totalLen, Nat.zero_sub, List.take_zero, empty]
  split <;> rfl

theorem Waits.left {b : TagFileSendBuffer} (waits : Waits b) : b.left = b.unsent := by
  rw [TagFileSendBuffer.left, TagFileSendBuffer.unsent, if_neg waits.busy, waits.fresh, List.drop_zero, Nat.sub_zero]
  rcases waits.phase with ⟨-, header⟩ | ⟨same, chunk⟩
  · rw [header]
    rfl
  · rw [chunk, same]
    exact List.append_nil _

/-- What is on the wire is the front of the queued frames, and between two callbacks the buffer holds
the rest of them from `hasSendLen` on. -/
def SendsOn (w : World TaskFileSend) : Prop :=
  w.wire <+: Frame.stream (queuedIn w.trace) ∧
    (w.Live → w.wire ++ w.obj.mSendBuffer.left = Frame.stream (queuedIn w.trace))

/-- The session goes on: it is in its account, or it has ended with the front of the stream sent. -/
abbrev Goes (w : World TaskFileSend) : Prop := Delivers (fun _ _ => True) (fun _ => True) w

/-- Nothing is asked of the frames. -/
theorem carried_true : Carried (fun _ _ => True) (fun _ => True) where
  steady _ _ _ _ _ := trivial
  weaker _ _ _ := trivial
  message _ _ _ _ _ _ := trivial
  chunk _ _ _ _ _ _ := trivial
  ending _ _ _ _ := trivial

theorem Goes.sendsOn {w : World TaskFileSend} (goes : Goes w) : SendsOn w := by
  have sent : Sent w.core := (Delivers.sent carried_true goes).1
  obtain ⟨rest, out⟩ := sent
  refine ⟨out.wire_prefix, ?_⟩
  intro live
  obtain ⟨flowing, -⟩ := goes.resolve_right fun stands => stands.1 live
  have whole := flowing.wire.whole
  rcases flowing.buffer with free | waits
  · rw [Free.unsent free] at whole
    change w.core.wire ++ w.core.obj.mSendBuffer.left = _
    rw [Free.left_nil free]
    exact whole
  · change w.core.wire ++ w.core.obj.mSendBuffer.left = _
    rw [Waits.left waits]
    exact whole

section
variable {w w' : World TaskFileSend}

/-- No send that will be tried again is cut short by a fatal error. -/
def CleanSends (w : World TaskFileSend) (e : Event) (_ : World TaskFileSend) : Prop :=
  e.isWrite = true → Unfinished w.obj → cutShort false (due w.obj) e.sends = false

instance (w : World TaskFileSend) (e : Event) (w' : World TaskFileSend) : Decidable (CleanSends w e w') :=
  inferInstanceAs (Decidable (_ → _ → _))

/-- The end of the data is sent once, as far as the socket takes it. -/
theorem ending_goes {sends : List SendResult} (flowing : Flowing w.core) (done : ¬ Unfinished w.obj)
    (fired : fire w (.write sends) = some w') : Goes w' := by
  have free : w.obj.mSendBuffer.totalLen = 0 := Classical.byContradiction fun busy => done (.inr busy)
  apply fire_write (P := fun t => Goes t) fired
  have stopped : ∀ (t : World TaskFileSend) (s : Stop), Sent t.core → Goes (t.stopped s) := by
    intro t s sent
    exact .inr ⟨World.not_live_of_halted (Option.some_ne_none s), sent, trivial⟩
  have ended : ∀ t : World TaskFileSend, Sent t.core → Goes (t.afterWrite ownSockExit) := by
    intro t sent
    have torn : t.afterWrite ownSockExit = t.torn .onWrite := if_pos rfl
    rw [torn]
    refine .inr ⟨World.not_live_of_closed rfl, ?_, trivial⟩
    have same : outgoing (t.trace ++ [.teardown .onWrite]) = outgoing t.trace :=
      outgoing_append_of_silent t.trace rfl
    unfold Sent at sent ⊢
    change ∃ rest, Transmits t.wire (outgoing (t.trace ++ [.teardown .onWrite])) rest
    rw [same]
    exact sent
  apply wp_writeBuffer
  · exact fun busy => absurd free busy
  · exact fun _ more => absurd (.inl more) done
  · exact fun _ more => absurd (.inl more) done
  · exact fun _ more => absurd (.inl more) done
  · exact fun _ _ => stopped _ _ flowing.sent
  · exact fun _ => stopped _ _ flowing.sent
  · intro _ _
    have empty := flowing.free free
    obtain ⟨waits, bytes⟩ := loadCmd_waits (w := w.writing sends) empty .dataEnd 0
    have flows : Flowing (loadCmd (w.writing sends) .dataEnd 0).core :=
      flowing.queue empty waits bytes rfl rfl
    have out : Transmits w.wire (outgoing (loadCmd (w.writing sends) .dataEnd 0).core.trace)
        (loadCmd (w.writing sends) .dataEnd 0).obj.mSendBuffer.unsent := flows.wire
    apply wp_tcpSendData waits
    · exact fun _ => ended _ ⟨_, out.send⟩
    · intro part left front _ _
      exact ended _ (out.send_prefix (front.trans (List.prefix_append _ _)))
    · intro part left front
      exact stopped _ _ (out.send_prefix (front.trans (List.prefix_append _ _)))

/-- **A clean turn keeps the account.** -/
theorem goes_turn {e : Event} (goes : Goes w) (fired : fire w e = some w') (clean : CleanSends w e w') :
    Goes w' := by
  have live := live_of_fire fired
  obtain ⟨flowing, -⟩ := goes.resolve_right fun stands => stands.1 live
  by_cases ends : e.isWrite = true ∧ ¬ Unfinished w.obj
  · cases e with
    | write sends => exact ending_goes flowing ends.2 fired
    | _ => cases ends.1
  · apply Delivers.fire carried_true goes fired
    intro isWrite
    exact clean isWrite (Classical.byContradiction fun done => ends ⟨isWrite, done⟩)

end

/-- The stream after a run of clean turns. -/
theorem sends_on {filename : List Byte} {file : Option FileStream} {st_size : Nat} {inp : List Byte} {sends : List SendResult}
    {es : List Event} {w : World TaskFileSend}
    (uncut : cutShort false (packHeadLen + loginRetSize) sends = false)
    (run : Runs fire CleanSends (start filename file st_size inp sends) es w) : SendsOn w := by
  have goes : Goes w := run.invariant (delivers_start carried_true uncut trivial)
    fun _ _ _ goes fired clean => goes_turn goes fired clean
  exact goes.sendsOn

end TaskFileSend

/-- **Send errors do no harm** to the streams of the two tasks, if no send that is tried again has been
cut short by one and no seek comes between a header and its payload. -/
theorem send_errors_harmless {sends : List SendResult}
    (uncut : cutShort false (packHeadLen + loginRetSize) sends = false) :
    (∀ filename file st_size inp es w,
      Runs fire TaskFileSend.CleanSends (TaskFileSend.start filename file st_size inp sends) es w →
      TaskFileSend.SendsOn w) ∧
    (∀ raw mFfmpeg inp es w,
      Runs fire TaskPlayback.CleanSends (TaskPlayback.start raw mFfmpeg inp sends) es w →
      TaskPlayback.SendsOn w) := by
  constructor
  · exact fun _ _ _ _ _ _ run => TaskFileSend.sends_on uncut run
  · exact fun _ _ _ _ _ run => TaskPlayback.sends_on uncut run

/-- The end of a transfer is cut short by an error, and a playback goes on after errors that took
nothing. -/
theorem send_errors_harmless_sample :
    (∃ w, Runs fire TaskFileSend.CleanSends
      (TaskFileSend.start (ascii "a") (some ⟨[7], 0⟩) 1 TaskFileSend.sampleRequest [.sent 2000])
      [.read [.got 16, .got 100] [], .write [.error], .write [.sent 9, .eagain, .sent 2000], .write [.sent 2000],
        .write [.sent 5, .error]] w ∧ TaskFileSend.SendsOn w) ∧
    ∃ w, Runs fire TaskPlayback.CleanSends
      (TaskPlayback.start TaskPlayback.sampleRaw TaskPlayback.sampleFfmpeg TaskPlayback.startBytes [.sent 2000])
      [TaskPlayback.readWhole, .write [.error], TaskPlayback.writeSplit, .write [.error], .write [.sent 2000]] w ∧
      TaskPlayback.SendsOn w := by
  constructor
  · have finished : (exec fire TaskFileSend.CleanSends
        (TaskFileSend.start (ascii "a") (some ⟨[7], 0⟩) 1 TaskFileSend.sampleRequest [.sent 2000])
        [.read [.got 16, .got 100] [], .write [.error], .write [.sent 9, .eagain, .sent 2000], .write [.sent 2000],
          .write [.sent 5, .error]]).isSome = true := by
      decide +kernel
    obtain ⟨w, ran⟩ := Option.isSome_iff_exists.mp finished
    exact ⟨w, .of_exec ran, (send_errors_harmless (by decide)).1 _ _ _ _ _ w (.of_exec ran)⟩
  · have finished : (exec fire TaskPlayback.CleanSends
        (TaskPlayback.start TaskPlayback.sampleRaw TaskPlayback.sampleFfmpeg TaskPlayback.startBytes
          [.sent 2000])
        [TaskPlayback.readWhole, .write [.error], TaskPlayback.writeSplit, .write [.error],
          .write [.sent 2000]]).isSome = true := by
      decide +kernel
    obtain ⟨w, ran⟩ := Option.isSome_iff_exists.mp finished
    exact ⟨w, .of_exec ran, (send_errors_harmless (by decide)).2 _ _ _ _ w (.of_exec ran)⟩

/-- The bytes on the wire are at every moment the front of the frames that a transfer has queued. -/
def SendsInOrder : Prop :=
  ∀ filename file st_size inp sends es w,
    Runs fire (fun w e _ => w.Registered e) (TaskFileSend.start filename file st_size inp sends) es w →
      w.wire <+: Frame.stream (queuedIn w.trace)

/-- **A send error repeats bytes**: the error after five accepted bytes of the header is answered by
sending the header from its beginning again. -/
theorem stream_repeated : ¬ SendsInOrder := by
  intro always
  have finished : (exec fire (fun w e _ => w.Registered e)
      (TaskFileSend.start (ascii "a") (some ⟨[7], 0⟩) 1 TaskFileSend.sampleRequest [.sent 2000])
      [.read [.got 16, .got 100] [], .write [.sent 5, .error], .write [.sent 2000]]).map
      (fun w => decide (w.wire <+: Frame.stream (queuedIn w.trace))) = some false := by
    decide +kernel
  obtain ⟨w, ran, fails⟩ := Option.map_eq_some_iff.mp finished
  exact of_decide_eq_false fails (always _ _ _ _ _ _ w (.of_exec ran))

end GreatEvent
