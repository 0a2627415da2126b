import GreatEvent.Server.PlaybackPacing

/-!
# The message queue of a playback task

`mMsgQueue` is filled from two places and emptied from one. The timer appends
a heartbeat (`setHeartCount`), without looking at the length that
`pushSendCmd` would look at; a seek whose reply could not be sent appends
this reply; a write callback that finds the send buffer free takes the first
message. So one turn appends one message, or takes one, or leaves the queue
alone (`fire_queue`), and the queue stays within the limit exactly as long
as no turn appends to a full one (`heart_queue_iff`).
-/

namespace GreatEvent

open Lib FrameReader

/-- What a send of so many bytes comes to: all of them are out, or a fatal error has ended it; `none`,
it has not come back. -/
def sendOutcome : Nat → List SendResult → Option Bool
  | _, [] => none
  | _, .error :: _ => some false
  | left, .eagain :: rs => if 0 < left then sendOutcome left rs else some true
  | left, .sent n :: rs => if n < left then sendOutcome (left - n) rs else some true

/-- The result of the send loop depends on the length of the data only. -/
theorem sendLoop_ret (len : Nat) (data : List Byte) (rs : List SendResult) :
    (sendLoop len data rs).ret = (sendOutcome data.length rs).map fun all => if all then (len : Int) else -1 := by
  induction rs generalizing data with
  | nil => rfl
  | cons r rs ih =>
    cases r with
    | error => rfl
    | eagain =>
      simp only [sendLoop, sendOutcome]
      split
      · exact ih data
      · have empty : data.length = 0 := by omega
        simp [empty]
    | sent n =>
      have more : 0 < (data.drop n).length ↔ n < data.length := by
        rw [List.length_drop]
        omega
      simp only [sendLoop, sendOutcome, more]
      split
      · rw [ih, List.length_drop]
      · have empty : (data.drop n).length = 0 := by omega
        simp [empty]

/-- A send, by what becomes of it. -/
theorem wp_sendEx_ret {τ : Type} (data : List Byte) {Q : Int → World τ → Prop} {E : Stop → World τ → Prop}
    {w : World τ}
    (returns : ∀ all, sendOutcome data.length w.sends = some all → ∀ part,
      Q (if all then data.length else -1) { w with
        wire := w.wire ++ part, sends := leftAfter data.length w.sends })
    (blocks : sendOutcome data.length w.sends = none → ∀ part left,
      E .blocked { w with wire := w.wire ++ part, sends := left }) : wp (sendEx data) Q E w := by
  have ret := sendLoop_ret data.length data w.sends
  cases outcome : sendOutcome data.length w.sends with
  | none =>
    rw [outcome, Option.map_none] at ret
    exact wp_of_error (by rw [run_sendEx, ret]) (blocks outcome _ _)
  | some all =>
    rw [outcome, Option.map_some] at ret
    refine wp_of_ok (by rw [run_sendEx, ret]) ?_
    rw [sendLoop_left]
    exact returns all outcome _

namespace TaskPlayback

/-- The limit that `pushSendCmd` applies to heartbeats. -/
def msgLimit : Nat := 10

/-- Of the two replies to a seek the first is ended by a fatal error, and the second comes back. -/
def ReplyLost (sends : List SendResult) : Prop :=
  sendOutcome packHeadLen sends = some false ∧
    (sendOutcome packHeadLen (leftAfter packHeadLen sends)).isSome = true

instance (sends : List SendResult) : Decidable (ReplyLost sends) :=
  inferInstanceAs (Decidable (_ ∧ _))

theorem kept_of_first {sends : List SendResult} (first : sendOutcome packHeadLen sends ≠ some false) :
    ¬ ReplyLost sends :=
  fun lost => first lost.1

/-- The read brings the rest of a request to seek. -/
def SeekDue (w : World TaskPlayback) (recvs : List RecvResult) : Prop :=
  FrameDone cmdLen w.obj.mRecvBuffer w.inp recvs ∧ RequestsSeek (frameMemory w.obj.mRecvBuffer w.inp recvs)

instance (w : World TaskPlayback) (recvs : List RecvResult) : Decidable (SeekDue w recvs) :=
  inferInstanceAs (Decidable (_ ∧ _))

/-- The event appends a message: a tick does, and the last part of a seek whose reply is lost. -/
def Appends (w : World TaskPlayback) : Event → Prop
  | .timer => True
  | .read recvs sends => SeekDue w recvs ∧ ReplyLost sends
  | _ => False

instance (w : World TaskPlayback) : (e : Event) → Decidable (Appends w e)
  | .timer => .isTrue trivial
  | .read recvs sends => inferInstanceAs (Decidable (SeekDue w recvs ∧ ReplyLost sends))
  | .readTimeout => .isFalse not_false
  | .write _ => .isFalse not_false
  | .writeTimeout => .isFalse not_false

/-- The queue after a turn: a message more at its end, or at most its first one taken. -/
structure QueueTurn (appends : Prop) (queue queue' : List ModuleMsg) : Prop where
  appended : appends → ∃ m, queue' = queue ++ [m]
  taken : ¬ appends → queue' <:+ queue

namespace QueueTurn

variable {appends : Prop} {queue queue' : List ModuleMsg}

theorem same (quiet : ¬ appends) : QueueTurn appends queue queue :=
  ⟨fun appends => absurd appends quiet, fun _ => List.suffix_refl _⟩

theorem pop (quiet : ¬ appends) (m : ModuleMsg) : QueueTurn appends (m :: queue) queue :=
  ⟨fun appends => absurd appends quiet, fun _ => List.suffix_cons m queue⟩

theorem push (yes : appends) (m : ModuleMsg) : QueueTurn appends queue (queue ++ [m]) :=
  ⟨fun _ => ⟨m, rfl⟩, fun quiet => absurd yes quiet⟩

theorem congr {appends' : Prop} (turn : QueueTurn appends queue queue') (same : appends' ↔ appends) :
    QueueTurn appends' queue queue' :=
  ⟨fun yes => turn.appended (same.mp yes), fun quiet => turn.taken (mt same.mpr quiet)⟩

/-- A turn keeps within a limit exactly if it does not append to a full queue. -/
theorem within_iff (turn : QueueTurn appends queue queue') {limit : Nat} (within : queue.length ≤ limit) :
    (appends → queue.length < limit) ↔ queue'.length ≤ limit := by
  by_cases push : appends
  · obtain ⟨m, rfl⟩ := turn.appended push
    rw [List.length_append, List.length_singleton]
    exact ⟨fun room => room push, fun next _ => next⟩
  · have shorter := (turn.taken push).length_le
    exact ⟨fun _ => shorter.trans within, fun _ append => absurd append push⟩

end QueueTurn

section
variable {Q : Int → World TaskPlayback → Prop} {E : Stop → World TaskPlayback → Prop}
  {w : World TaskPlayback}

/-- `tcpSendData` with a header before it, by what becomes of it. -/
theorem wp_tcpSendData_outcome (header : w.obj.mSendBuffer.bSendCmd = true)
    (fresh : w.obj.mSendBuffer.hasSendLen = 0) (length : w.obj.mSendBuffer.totalLen = packHeadLen)
    (out : sendOutcome packHeadLen w.sends = some true → ∀ b wire sends, Q packHeadLen { w with
      obj := { w.obj with mSendBuffer := b }, wire := wire, sends := sends })
    (lost : sendOutcome packHeadLen w.sends = some false → ∀ wire, Q (-1) { w with
      wire := wire, sends := leftAfter packHeadLen w.sends })
    (blocks : sendOutcome packHeadLen w.sends = none → ∀ wire sends, E .blocked { w with
      wire := wire, sends := sends }) :
    wp tcpSendData Q E w := by
  have bytes : ((w.obj.mSendBuffer.cmd.bytes.drop 0).take (packHeadLen - 0)).length = packHeadLen := by
    have room : packHeadLen ≤ cmdLen := packHeadLen_le_cmdLen
    rw [List.drop_zero, Nat.sub_zero, List.length_take, w.obj.mSendBuffer.cmd.bytes_len]
    omega
  simp only [tcpSendData, wp_bind, wp_self, header, fresh, length, if_true]
  apply wp_sendEx_ret
  · rw [bytes]
    intro all outcome part
    cases all with
    | true =>
      simp only [wp_ite, wp_bind, wp_self, wp_modifySend, wp_pure, if_true]
      split <;> split <;> exact out outcome _ _ _
    | false =>
      have differs : ¬ 0 = packHeadLen := by decide
      have negative : ¬ (0 : Int) < -1 := by decide
      simp only [Bool.false_eq_true, if_false, wp_ite, wp_bind, wp_self, wp_pure, if_neg negative,
        fresh, length, if_neg differs]
      exact lost outcome _
  · rw [bytes]
    exact fun outcome part left => blocks outcome _ left

/-- A seek appends its reply exactly if this reply is lost. -/
theorem seek_queue {Q : World TaskPlayback → Prop} (v : Int) (index : UInt32)
    (returns : ∀ t, QueueTurn (ReplyLost w.sends) w.obj.mMsgQueue t.obj.mMsgQueue → Q t)
    (blocks : ∀ t, QueueTurn (ReplyLost w.sends) w.obj.mMsgQueue t.obj.mMsgQueue → E .blocked t) :
    wp tcpSendData (fun rest w' => wp tcpSendData (fun _ w'' => Q (seekDone w'' rest)) E
      (loadCmd w' .exeRet index)) E (loadCmd (seeking w v) .seekCmpd index) := by
  apply wp_tcpSendData_outcome
  · rfl
  · rfl
  · rfl
  · intro (first : sendOutcome packHeadLen w.sends = some true) b wire sends
    have kept : ¬ ReplyLost w.sends := kept_of_first (by rw [first]; nofun)
    apply wp_tcpSendData_frame
    · exact fun _ _ _ _ => returns _ (.same kept)
    · exact fun _ _ => blocks _ (.same kept)
  · intro (first : sendOutcome packHeadLen w.sends = some false) wire
    apply wp_tcpSendData_outcome
    · rfl
    · rfl
    · rfl
    · intro (second : sendOutcome packHeadLen (leftAfter packHeadLen w.sends) = some true) _ _ _
      exact returns _ (.push ⟨first, by rw [second]; rfl⟩ .seekCmpd)
    · intro (second : sendOutcome packHeadLen (leftAfter packHeadLen w.sends) = some false) _
      exact returns _ (.push ⟨first, by rw [second]; rfl⟩ .seekCmpd)
    · intro (second : sendOutcome packHeadLen (leftAfter packHeadLen w.sends) = none) _ _
      have kept : ¬ ReplyLost w.sends := fun lost => by
        rw [ReplyLost, second] at lost
        cases lost.2
      exact blocks _ (.same kept)
  · intro (first : sendOutcome packHeadLen w.sends = none) _ _
    exact blocks _ (.same (kept_of_first (by rw [first]; nofun)))

/-- A complete frame appends the reply of a seek, if it requests one and its reply is lost. -/
theorem dispatch_queue :
    wp dispatch
      (fun r t => r = none ∧
        QueueTurn (RequestsSeek w.obj.mRecvBuffer.buff ∧ ReplyLost w.sends) w.obj.mMsgQueue t.obj.mMsgQueue)
      (fun _ t =>
        QueueTurn (RequestsSeek w.obj.mRecvBuffer.buff ∧ ReplyLost w.sends) w.obj.mMsgQueue t.obj.mMsgQueue) w := by
  by_cases requests : RequestsSeek w.obj.mRecvBuffer.buff
  · have same : RequestsSeek w.obj.mRecvBuffer.buff ∧ ReplyLost w.sends ↔ ReplyLost w.sends := and_iff_right requests
    rw [same]
    apply wp_dispatch_seek requests
    intro v
    apply seek_queue (Q := fun t => none = none ∧ QueueTurn (ReplyLost w.sends) w.obj.mMsgQueue t.obj.mMsgQueue)
    · exact fun t turn => ⟨rfl, turn⟩
    · exact fun t turn => turn
  · have quiet : ¬ (RequestsSeek w.obj.mRecvBuffer.buff ∧ ReplyLost w.sends) := fun both => requests both.1
    apply wp_dispatch
    · exact ⟨rfl, .same quiet⟩
    · exact .same quiet
    · exact .same quiet
    · rintro _ (rfl | rfl)
      · exact ⟨rfl, .same quiet⟩
      · exact ⟨rfl, .same quiet⟩
    · exact fun _ _ => ⟨rfl, .same quiet⟩
    · exact ⟨rfl, .same quiet⟩
    · exact fun _ requests' => absurd requests' requests

/-- A read callback appends the reply of the seek it completes, if this reply is lost. -/
theorem readBuffer_queue :
    wp readBuffer (fun _ t => QueueTurn (SeekDue w w.recvs ∧ ReplyLost w.sends) w.obj.mMsgQueue t.obj.mMsgQueue)
      (fun _ t => QueueTurn (SeekDue w w.recvs ∧ ReplyLost w.sends) w.obj.mMsgQueue t.obj.mMsgQueue) w := by
  apply wp_readBuffer_done
  · intro open' ret b rest recvs obs _
    have quiet : ¬ (SeekDue w w.recvs ∧ ReplyLost w.sends) := fun both => open' both.1.1
    exact ⟨.same quiet, .same quiet⟩
  · intro done b rest recvs obs f memory _
    have same : SeekDue w w.recvs ∧ ReplyLost w.sends ↔ RequestsSeek b.buff ∧ ReplyLost w.sends := by
      rw [SeekDue, memory]
      exact and_congr_left fun _ => and_iff_right done
    apply (dispatch_queue (w := w.read b rest recvs (obs ++ [Obs.frame f]))).mono
    · rintro _ t ⟨rfl, turn⟩ ret _
      exact turn.congr same
    · exact fun _ t turn => turn.congr same

/-- A write callback takes the first message, if it takes one. -/
theorem writeBuffer_queue :
    wp writeBuffer (fun _ t => QueueTurn False w.obj.mMsgQueue t.obj.mMsgQueue)
      (fun _ t => QueueTurn False w.obj.mMsgQueue t.obj.mMsgQueue) w := by
  have silent : QueueTurn False w.obj.mMsgQueue w.obj.mMsgQueue := .same not_false
  apply wp_writeBuffer
  · intro _
    apply wp_tcpSendData_frame
    · exact fun _ _ _ _ => silent
    · exact fun _ _ => silent
  · intro _ val rest waits
    have popped : QueueTurn False w.obj.mMsgQueue rest := by
      rw [waits]
      exact .pop not_false val
    apply wp_tcpSendData_frame
    · exact fun _ _ _ _ => popped
    · exact fun _ _ => popped
  · exact fun _ _ _ => silent
  · intro _ _ _ _ p _
    apply wp_tcpSendData_frame
    · exact fun _ _ _ _ => silent
    · exact fun _ _ => silent
  · intro _ _ _ _ _
    apply wp_tcpSendData_frame
    · exact fun _ _ _ _ => silent
    · exact fun _ _ => silent
  · intro _ _ _ _
    apply wp_tcpSendData_frame
    · exact fun _ _ _ _ => silent
    · exact fun _ _ => silent

/-- A tick appends a heartbeat. -/
theorem setHeartCount_queue :
    wp (setHeartCount : Act TaskPlayback Int) (fun _ t => QueueTurn True w.obj.mMsgQueue t.obj.mMsgQueue)
      (fun _ t => QueueTurn True w.obj.mMsgQueue t.obj.mMsgQueue) w := by
  have beat : QueueTurn True w.obj.mMsgQueue (w.obj.mMsgQueue ++ [.ping]) := .push trivial .ping
  simp only [setHeartCount, wp_bind, wp_modifySelf, wp_get, wp_ite, wp_addWriteEvent, wp_self, wp_pure]
  split
  · split
    · exact beat
    · exact beat
  · exact beat

/-- The methods of a playback task, as the queue sees them. -/
theorem method_queue (e : Event) (reads : w.recvs = e.recvs) (results : w.sends = e.sends) :
    wp (e.method : Act TaskPlayback Int) (fun _ t => QueueTurn (Appends w e) w.obj.mMsgQueue t.obj.mMsgQueue)
      (fun _ t => QueueTurn (Appends w e) w.obj.mMsgQueue t.obj.mMsgQueue) w := by
  cases e with
  | read recvs sends =>
    obtain rfl : w.recvs = recvs := reads
    obtain rfl : w.sends = sends := results
    exact readBuffer_queue
  | write sends => exact writeBuffer_queue
  | timer => exact setHeartCount_queue
  | readTimeout => exact .same not_false
  | writeTimeout => exact .same not_false

end

/-- **One turn appends one message, or takes one, or leaves the queue alone.** -/
theorem fire_queue {w w' : World TaskPlayback} {e : Event} (fired : fire w e = some w') :
    QueueTurn (Appends w e) w.obj.mMsgQueue w'.obj.mMsgQueue := by
  apply fire_keeps (P := fun c => QueueTurn (Appends w e) w.obj.mMsgQueue c.obj.mMsgQueue) fired
  · exact fun c by' turn => turn
  · intro d same reads results _
    have obj : d.obj = w.obj := congrArg Core.obj same
    have inp : d.inp = w.inp := congrArg Core.inp same
    have appends : Appends d e ↔ Appends w e := by
      cases e <;> simp only [Appends, SeekDue, obj, inp]
    have method := method_queue e reads results
    rw [obj, appends] at method
    exact method

/-- An event that appends a message finds the queue below the limit. -/
def HasRoom (w : World TaskPlayback) (e : Event) : Prop := Appends w e → w.obj.mMsgQueue.length < msgLimit

instance (w : World TaskPlayback) (e : Event) : Decidable (HasRoom w e) := inferInstanceAs (Decidable (_ → _))

theorem queue_start (raw : TagSendBuffer) (mFfmpeg : FfmpegContext) (inp : List Byte)
    (sends : List SendResult) : (start raw mFfmpeg inp sends).obj.mMsgQueue = [] := by
  obtain ⟨free, same⟩ := pace_start raw mFfmpeg inp sends
  exact congrArg Pace.queue same

/-- **The queue stays within the limit exactly in the runs in which no tick, and no seek whose reply is
lost, finds it full.** -/
theorem heart_queue_iff {raw : TagSendBuffer} {mFfmpeg : FfmpegContext} {inp : List Byte}
    {sends : List SendResult} {es : List Event} {w : World TaskPlayback} :
    Runs fire (fun w e _ => HasRoom w e) (start raw mFfmpeg inp sends) es w ↔
      Runs fire (fun _ _ w' => w'.obj.mMsgQueue.length ≤ msgLimit) (start raw mFfmpeg inp sends) es w := by
  apply Runs.exact_iff (P := fun w : World TaskPlayback => w.obj.mMsgQueue.length ≤ msgLimit)
  · rw [queue_start]
    exact Nat.zero_le _
  · exact fun _ _ _ within fired => (fire_queue fired).within_iff within

/-- The queue is within the limit after every run of registered events. -/
def QueueBounded : Prop :=
  ∀ raw mFfmpeg inp sends es w,
    Runs fire (fun w e _ => w.Registered e) (start raw mFfmpeg inp sends) es w →
      w.obj.mMsgQueue.length ≤ msgLimit

/-- **Eleven ticks before the write event is served**: eleven heartbeats wait. -/
theorem ticks_pile_up :
    (∃ w, Runs fire (fun w e _ => w.Registered e) (start sampleRaw sampleFfmpeg [] [.sent 2000])
      (List.replicate 11 .timer) w ∧ w.writeEvent = true ∧ w.obj.mMsgQueue.length = 11) ∧ ¬ QueueBounded := by
  have finished : (exec fire (fun w e _ => w.Registered e) (start sampleRaw sampleFfmpeg [] [.sent 2000])
      (List.replicate 11 .timer)).map (fun w => (w.writeEvent, w.obj.mMsgQueue.length)) = some (true, 11) := by
    decide +kernel
  obtain ⟨w, ran, piled⟩ := Option.map_eq_some_iff.mp finished
  obtain ⟨pending, length⟩ := Prod.mk.inj piled
  refine ⟨⟨w, .of_exec ran, pending, length⟩, fun always => ?_⟩
  have within := always _ _ _ _ _ w (.of_exec ran)
  rw [length] at within
  exact absurd within (by decide)

end TaskPlayback

end GreatEvent
