import GreatEvent.Lib.Traces
import GreatEvent.Server.EventCall

/-!
# How a playback task is meant to be paced

`Pace` is a playback task with its media taken away: what waits in the
message queue, how far the segment has come, whether media may be sent, and
the log. Its moves say what a heartbeat, a write and a command may do to it;
which packet a frame carries, how it is cut into sends and whether they
succeed is left open. The properties of the log that a client relies on are
proved here from the moves alone: at most `segFrameCount` media frames in a
segment, silence after the end of a segment or of the file until the client
asks for more, and, under the conditions under which the code keeps them,
silence while paused and before the start.
-/

namespace GreatEvent

open Lib

namespace Obs

/-- A queued frame with this message in its header. -/
def queues (msg : ModuleMsg) : Obs → Bool
  | .queued f => f.cmd.dwCmd == msg.code
  | _ => false

/-- A `MODULE_MSG_VIDEO` header. -/
def isVideo (o : Obs) : Bool := o.queues .video

/-- The end of a segment. -/
def isSectionEnd (o : Obs) : Bool := o.queues .sectionEnd

/-- The end of a segment or of the file. -/
def isEnd (o : Obs) : Bool := o.queues .sectionEnd || o.queues .dataEnd

/-- A frame that may go out before any command: the login reply or a heartbeat. -/
def isHeartbeat (o : Obs) : Bool := o.queues .loginRet || o.queues .ping

/-- A frame that is neither the login reply nor a heartbeat. -/
def isContent : Obs → Bool
  | .queued f => !(Obs.queued f).isHeartbeat
  | _ => false

/-- A command that asks for media again: `setpause` with value 0, or `seek`. -/
def isResume : Obs → Bool
  | .command (.setpause v) => v == 0
  | .command (.seek _) => true
  | _ => false

def isSeek : Obs → Bool
  | .command (.seek _) => true
  | _ => false

/-- A command that pauses: `setpause` with another value. -/
def isPause : Obs → Bool
  | .command (.setpause v) => v != 0
  | _ => false

/-- A command that lets media begin: `start`, `setpause` with value 0, or `seek`. -/
def isRelease : Obs → Bool
  | .command .start => true
  | o => o.isResume

/-- An observation that is no frame and no command. -/
def isIdle : Obs → Bool
  | .queued _ => false
  | .command _ => false
  | _ => true

@[simp] theorem isVideo_command (c : Control) : (Obs.command c).isVideo = false := rfl

@[simp] theorem isContent_command (c : Control) : (Obs.command c).isContent = false := rfl

@[simp] theorem isVideo_frame (p : Packet) (stale : UInt32) :
    (Obs.queued (p.frame stale)).isVideo = true := rfl

theorem isVideo_of_idle {o : Obs} (idle : o.isIdle = true) : o.isVideo = false := by
  cases o <;> first | rfl | cases idle

end Obs

/-- What pacing is about. `free` says that nothing is left to send of an earlier frame. -/
structure Pace where
  free : Bool
  queue : List ModuleMsg
  frameCount : Nat
  sending : Bool
  trace : List Obs

namespace Pace

/-- Observations are added to the log. -/
def log (p : Pace) (obs : List Obs) : Pace := { p with trace := p.trace ++ obs }

@[simp] theorem log_nil (p : Pace) : p.log [] = p := by
  simp [log]

theorem log_log (p : Pace) (obs obs' : List Obs) : (p.log obs).log obs' = p.log (obs ++ obs') := by
  simp [log]

/-- A frame is queued. -/
def queueFrame (p : Pace) (f : Frame) : Pace := p.log [.queued f]

/-- What a write may do. Afterwards the frame may have gone out or not. -/
inductive Writes (p : Pace) : Pace → Prop where
  /-- an earlier frame is continued -/
  | resumes (free : Bool) (busy : p.free = false) : Writes p { p with free := free }
  /-- a waiting message goes first -/
  | message (free : Bool) (val : ModuleMsg) (rest : List ModuleMsg) (isFree : p.free = true)
      (waits : p.queue = val :: rest) :
      Writes p { p.queueFrame (Frame.ofCmd val 0) with free := free, queue := rest }
  | media (free : Bool) (packet : Packet) (stale : UInt32) (isFree : p.free = true)
      (noMessage : p.queue = []) (sending : p.sending = true) (more : p.frameCount < segFrameCount) :
      Writes p { p.queueFrame (packet.frame stale) with
        free := free, frameCount := p.frameCount + 1 }
  /-- the end of the file -/
  | fileEnds (free : Bool) (isFree : p.free = true) (noMessage : p.queue = [])
      (sending : p.sending = true) (more : p.frameCount < segFrameCount) :
      Writes p { p.queueFrame (Frame.ofCmd .dataEnd 0) with
        free := free, frameCount := p.frameCount + 1, sending := false }
  /-- the end of a segment -/
  | segmentEnds (free : Bool) (isFree : p.free = true) (noMessage : p.queue = [])
      (sending : p.sending = true) (full : ¬ p.frameCount < segFrameCount) :
      Writes p { p.queueFrame (Frame.ofCmd .sectionEnd 0) with
        free := free, frameCount := 0, sending := false }

/-- What a command may do. -/
inductive Obeys (p : Pace) : Pace → Prop where
  | start : Obeys p (p.log [.command .start])
  | pause (v : Int) (nonzero : v ≠ 0) : Obeys p (p.log [.command (.setpause v)])
  | resume : Obeys p { p.log [.command (.setpause 0)] with sending := true }
  /-- a seek is answered with up to two frames, and may leave a message behind -/
  | seek (v : Int) (index : UInt32) (free sending : Bool) (replies : List Obs)
      (queue : List ModuleMsg)
      (answered : replies <+: [.queued (Frame.ofCmd .seekCmpd index),
        .queued (Frame.ofCmd .exeRet index)])
      (leaves : queue = p.queue ∨ queue = p.queue ++ [.seekCmpd]) :
      Obeys p { p.log (.command (.seek v) :: replies) with
        free := free, sending := sending, queue := queue }

/-- A state that differs from the one before as a seek may leave it. -/
theorem Obeys.of_seek {p q : Pace} (v : Int) (index : UInt32) (replies : List Obs)
    (logged : q.trace = p.trace ++ .command (.seek v) :: replies)
    (answered : replies <+: [.queued (Frame.ofCmd .seekCmpd index),
      .queued (Frame.ofCmd .exeRet index)])
    (leaves : q.queue = p.queue ∨ q.queue = p.queue ++ [.seekCmpd])
    (same : q.frameCount = p.frameCount) : Obeys p q := by
  obtain ⟨free, queue, frameCount, sending, trace⟩ := q
  obtain rfl : trace = _ := logged
  obtain rfl : frameCount = _ := same
  exact .seek v index free sending replies queue answered leaves

/-- The move an event causes, if any. -/
inductive Moves (p : Pace) : Event → Pace → Prop where
  | rests (e : Event) : Moves p e p
  | beats : Moves p .timer { p with queue := p.queue ++ [.ping] }
  | writes {sends : List SendResult} {q : Pace} : Writes p q → Moves p (.write sends) q
  | obeys {recvs : List RecvResult} {sends : List SendResult} {q : Pace} :
      Obeys p q → Moves p (.read recvs sends) q

/-- One turn: a move, with observations around it that pacing does not care about. -/
def Turn (p : Pace) (e : Event) (q : Pace) : Prop :=
  ∃ before m after, (∀ o ∈ before, o.isIdle = true) ∧ (∀ o ∈ after, o.isIdle = true) ∧
    Moves (p.log before) e m ∧ q = m.log after

/-! ## The message queue -/

/-- Only heartbeats and late seek replies wait in the queue. -/
def Messages (p : Pace) : Prop := ∀ m ∈ p.queue, m = .ping ∨ m = .seekCmpd

theorem Messages.move {p q : Pace} {e : Event} (ok : Messages p) (moved : Moves p e q) : Messages q := by
  intro m member
  cases moved with
  | rests => exact ok m member
  | beats =>
    rcases List.mem_append.mp member with old | new
    · exact ok m old
    · exact .inl (List.mem_singleton.mp new)
  | writes written =>
    cases written with
    | resumes => exact ok m member
    | message _ _ _ _ waits => exact ok m (waits ▸ List.mem_cons_of_mem _ member)
    | media => exact ok m member
    | fileEnds => exact ok m member
    | segmentEnds => exact ok m member
  | obeys obeyed =>
    cases obeyed with
    | start => exact ok m member
    | pause => exact ok m member
    | resume => exact ok m member
    | seek _ _ _ _ _ _ _ leaves =>
      rcases leaves with rfl | rfl
      · exact ok m member
      · rcases List.mem_append.mp member with old | new
        · exact ok m old
        · exact .inr (List.mem_singleton.mp new)

/-! ## Segments -/

/-- The log keeps the segment bound, and the counter is ahead of the media frames since the last
segment end. -/
structure Segmented (trace : List Obs) (frameCount : Nat) : Prop where
  bound : AtMostBetween segFrameCount Obs.isVideo Obs.isSectionEnd trace
  counted : countSince Obs.isVideo Obs.isSectionEnd trace ≤ frameCount
  within : frameCount ≤ segFrameCount

theorem Segmented.nil (count : Nat) (within : count ≤ segFrameCount) : Segmented [] count :=
  ⟨.nil, Nat.zero_le _, within⟩

theorem Segmented.snoc {trace : List Obs} {o : Obs} {count count' : Nat}
    (segmented : Segmented trace count) (within : count' ≤ segFrameCount)
    (counts : o.isSectionEnd = true ∨ if o.isVideo then count < count' else count ≤ count') :
    Segmented (trace ++ [o]) count' := by
  have counted := segmented.counted
  have since : countSince Obs.isVideo Obs.isSectionEnd (trace ++ [o]) ≤ count' := by
    rw [countSince_snoc]
    rcases counts with ends | counts
    · rw [if_pos ends]
      exact Nat.zero_le _
    · split
      · exact Nat.zero_le _
      · split
        · rw [if_pos ‹_›] at counts
          omega
        · rw [if_neg ‹_›] at counts
          omega
  exact ⟨segmented.bound.snoc (Nat.le_trans since within), since, within⟩

/-- Observations that are neither media nor segment ends do not matter. -/
theorem Segmented.append {trace obs : List Obs} {count : Nat} (segmented : Segmented trace count)
    (others : ∀ o ∈ obs, o.isVideo = false) : Segmented (trace ++ obs) count := by
  induction obs generalizing trace with
  | nil => rwa [List.append_nil]
  | cons o rest ih =>
    rw [List.append_cons]
    refine ih (segmented.snoc segmented.within (.inr ?_)) fun x hx =>
      others x (List.mem_cons_of_mem _ hx)
    simp [others o List.mem_cons_self]

theorem Segmented.move {p q : Pace} {e : Event} (segmented : Segmented p.trace p.frameCount)
    (messages : Messages p) (moved : Moves p e q) : Segmented q.trace q.frameCount := by
  have within := segmented.within
  cases moved with
  | rests => exact segmented
  | beats => exact segmented
  | writes written =>
    cases written with
    | resumes => exact segmented
    | message _ val _ _ waits =>
      refine segmented.append ?_
      intro o member
      rw [List.mem_singleton.mp member]
      rcases messages val (waits ▸ List.mem_cons_self) with rfl | rfl <;> rfl
    | media _ _ _ _ _ _ more =>
      exact segmented.snoc more (.inr (by simp))
    | fileEnds _ _ _ _ more =>
      exact segmented.snoc more (.inr (by rw [if_neg (by decide)]; exact Nat.le_succ _))
    | segmentEnds => exact segmented.snoc (Nat.zero_le _) (.inl rfl)
  | obeys obeyed =>
    cases obeyed with
    | start => exact segmented.append (by simp [Obs.isVideo, Obs.queues])
    | pause => exact segmented.append (by simp [Obs.isVideo, Obs.queues])
    | resume => exact segmented.append (by simp [Obs.isVideo, Obs.queues])
    | seek _ _ _ _ replies _ answered =>
      refine segmented.append ?_
      intro o member
      rcases List.mem_cons.mp member with rfl | reply
      · rfl
      · have := answered.subset reply
        simp only [List.mem_cons, List.not_mem_nil, or_false] at this
        rcases this with rfl | rfl <;> rfl

/-! ## Silence -/

/-- After a stop no media header follows before a resume, and while a stop stands media is not being
sent. -/
structure Silent (stop : Obs → Bool) (trace : List Obs) (sending : Bool) : Prop where
  quiet : QuietUntil stop Obs.isVideo Obs.isResume trace
  held : Stopped stop Obs.isResume trace → sending = false

theorem Silent.nil (stop : Obs → Bool) (sending : Bool) : Silent stop [] sending :=
  ⟨.nil, (absurd · not_stopped_nil)⟩

theorem Silent.snoc {stop : Obs → Bool} {trace : List Obs} {o : Obs} {sending sending' : Bool}
    (silent : Silent stop trace sending) (video : o.isVideo = true → sending = true)
    (stops : stop o = true → sending' = false)
    (holds : o.isResume = true ∨ (sending = false → sending' = false)) :
    Silent stop (trace ++ [o]) sending' := by
  refine ⟨silent.quiet.snoc fun isVideo stopped => ?_, fun stopped => ?_⟩
  · rw [silent.held stopped] at video
    exact Bool.false_ne_true (video isVideo)
  · rcases stopped.of_snoc with isStop | ⟨before, unresumed⟩
    · exact stops isStop
    · rcases holds with resumed | holds
      · rw [resumed] at unresumed
        cases unresumed
      · exact holds (silent.held before)

theorem Silent.append {stop : Obs → Bool} {trace obs : List Obs} {sending : Bool}
    (silent : Silent stop trace sending)
    (others : ∀ o ∈ obs, o.isVideo = false ∧ (stop o = true → sending = false)) :
    Silent stop (trace ++ obs) sending := by
  induction obs generalizing trace with
  | nil => rwa [List.append_nil]
  | cons o rest ih =>
    rw [List.append_cons]
    obtain ⟨noVideo, stops⟩ := others o List.mem_cons_self
    refine ih (silent.snoc ?_ stops (.inr id)) fun x hx => others x (List.mem_cons_of_mem _ hx)
    simp [noVideo]

/-- A move keeps silent if whatever it logs that stops leaves sending off. -/
theorem Silent.move {stop : Obs → Bool} {p q : Pace} {e : Event}
    (silent : Silent stop p.trace p.sending) (messages : Messages p) (moved : Moves p e q)
    (stops : ∀ new, q.trace = p.trace ++ new → ∀ o ∈ new, stop o = true → q.sending = false) :
    Silent stop q.trace q.sending := by
  cases moved with
  | rests => exact silent
  | beats => exact silent
  | writes written =>
    cases written with
    | resumes => exact silent
    | message _ val _ _ waits =>
      refine silent.snoc ?_ (stops _ rfl _ (List.mem_singleton.mpr rfl)) (.inr id)
      rcases messages val (waits ▸ List.mem_cons_self) with rfl | rfl <;> exact nofun
    | media _ _ _ _ _ sending =>
      exact silent.snoc (fun _ => sending) (stops _ rfl _ (List.mem_singleton.mpr rfl)) (.inr id)
    | fileEnds => exact silent.snoc nofun (fun _ => rfl) (.inr fun _ => rfl)
    | segmentEnds => exact silent.snoc nofun (fun _ => rfl) (.inr fun _ => rfl)
  | obeys obeyed =>
    cases obeyed with
    | start => exact silent.snoc (by simp) (stops _ rfl _ (List.mem_singleton.mpr rfl)) (.inr id)
    | pause => exact silent.snoc (by simp) (stops _ rfl _ (List.mem_singleton.mpr rfl)) (.inr id)
    | resume => exact silent.snoc (by simp) (stops _ rfl _ (List.mem_singleton.mpr rfl)) (.inl rfl)
    | seek v index free sending replies queue answered =>
      show Silent stop (p.trace ++ .command (.seek v) :: replies) sending
      rw [List.append_cons]
      refine (silent.snoc (by simp) (stops _ rfl _ List.mem_cons_self) (.inl rfl)).append ?_
      intro o member
      refine ⟨?_, stops _ rfl _ (List.mem_cons_of_mem _ member)⟩
      have := answered.subset member
      simp only [List.mem_cons, List.not_mem_nil, or_false] at this
      rcases this with rfl | rfl <;> rfl

/-! ## Nothing before the release -/

/-- Before a release only the login reply and heartbeats are queued, and only heartbeats wait. -/
structure Withheld (trace : List Obs) (queue : List ModuleMsg) : Prop where
  none : NoneBefore Obs.isContent Obs.isRelease trace
  waiting : (∃ r ∈ trace, r.isRelease = true) ∨ ∀ m ∈ queue, m = .ping

theorem Withheld.snoc {trace : List Obs} {o : Obs} {queue queue' : List ModuleMsg}
    (withheld : Withheld trace queue)
    (allowed : o.isContent = true → ∃ r ∈ trace, r.isRelease = true)
    (queued : o.isRelease = true ∨ ((∀ m ∈ queue, m = .ping) → ∀ m ∈ queue', m = .ping)) :
    Withheld (trace ++ [o]) queue' := by
  refine ⟨withheld.none.snoc allowed, ?_⟩
  rcases withheld.waiting with ⟨r, member, isRelease⟩ | waiting
  · exact .inl ⟨r, List.mem_append_left _ member, isRelease⟩
  · rcases queued with isRelease | queued
    · exact .inl ⟨o, List.mem_append_right _ (List.mem_singleton.mpr rfl), isRelease⟩
    · exact .inr (queued waiting)

theorem Withheld.append {trace obs : List Obs} {queue : List ModuleMsg}
    (withheld : Withheld trace queue)
    (allowed : ∀ o ∈ obs, o.isContent = true → ∃ r ∈ trace, r.isRelease = true) :
    Withheld (trace ++ obs) queue := by
  induction obs generalizing trace with
  | nil => rwa [List.append_nil]
  | cons o rest ih =>
    rw [List.append_cons]
    refine ih (withheld.snoc (allowed o List.mem_cons_self) (.inr id)) fun x hx isContent => ?_
    obtain ⟨r, member, isRelease⟩ := allowed x (List.mem_cons_of_mem _ hx) isContent
    exact ⟨r, List.mem_append_left _ member, isRelease⟩

/-- A move that takes new media only after a release withholds. -/
theorem Withheld.move {p q : Pace} {e : Event} (withheld : Withheld p.trace p.queue)
    (moved : Moves p e q)
    (released : (∃ sends, e = .write sends) → p.free = true → p.queue = [] →
      ∃ r ∈ p.trace, r.isRelease = true) :
    Withheld q.trace q.queue := by
  cases moved with
  | rests => exact withheld
  | beats =>
    refine ⟨withheld.none, withheld.waiting.imp id fun waiting m member => ?_⟩
    rcases List.mem_append.mp member with old | new
    · exact waiting m old
    · exact List.mem_singleton.mp new
  | writes written =>
    cases written with
    | resumes => exact withheld
    | message _ val rest _ waits =>
      refine withheld.snoc (fun isContent => ?_) (.inr fun waiting m member =>
        waiting m (waits ▸ List.mem_cons_of_mem _ member))
      rcases withheld.waiting with isReleased | waiting
      · exact isReleased
      · obtain rfl := waiting val (waits ▸ List.mem_cons_self)
        cases isContent
    | media _ _ _ free empty =>
      exact withheld.snoc (fun _ => released ⟨_, rfl⟩ free empty) (.inr id)
    | fileEnds _ free empty =>
      exact withheld.snoc (fun _ => released ⟨_, rfl⟩ free empty) (.inr id)
    | segmentEnds _ free empty =>
      exact withheld.snoc (fun _ => released ⟨_, rfl⟩ free empty) (.inr id)
  | obeys obeyed =>
    cases obeyed with
    | start => exact withheld.snoc (by simp) (.inl rfl)
    | pause => exact withheld.snoc (by simp) (.inr id)
    | resume => exact withheld.snoc (by simp) (.inl rfl)
    | seek v index free sending replies queue answered =>
      show Withheld (p.trace ++ .command (.seek v) :: replies) queue
      rw [List.append_cons]
      refine (withheld.snoc (o := .command (.seek v)) (by simp) (.inl rfl)).append fun _ _ _ => ?_
      exact ⟨.command (.seek v), by simp, rfl⟩

/-! ## Turns -/

theorem Messages.turn {p q : Pace} {e : Event} (ok : Messages p) (turn : Turn p e q) :
    Messages q := by
  obtain ⟨before, m, after, -, -, moved, rfl⟩ := turn
  have started : Messages (p.log before) := ok
  exact (show Messages m from started.move moved)

theorem Segmented.turn {p q : Pace} {e : Event} (segmented : Segmented p.trace p.frameCount)
    (messages : Messages p) (turn : Turn p e q) : Segmented q.trace q.frameCount := by
  obtain ⟨before, m, after, idleBefore, idleAfter, moved, rfl⟩ := turn
  have started : Segmented (p.log before).trace (p.log before).frameCount :=
    segmented.append fun o member => Obs.isVideo_of_idle (idleBefore o member)
  exact (started.move messages moved).append fun o member => Obs.isVideo_of_idle (idleAfter o member)

/-- A turn keeps silent if its move turns sending off whenever it logs a stop. -/
theorem Silent.turn {stop : Obs → Bool} {p q : Pace} {e : Event}
    (silent : Silent stop p.trace p.sending) (messages : Messages p) (turn : Turn p e q)
    (idle : ∀ o, o.isIdle = true → stop o = false)
    (stops : ∀ p' m new, p'.queue = p.queue → p'.sending = p.sending → Moves p' e m →
      m.trace = p'.trace ++ new → (∃ before after, q.trace = p.trace ++ (before ++ new ++ after)) →
      ∀ o ∈ new, stop o = true → m.sending = false) :
    Silent stop q.trace q.sending := by
  obtain ⟨before, m, after, idleBefore, idleAfter, moved, rfl⟩ := turn
  have quiet : ∀ {obs : List Obs} {sending : Bool}, (∀ o ∈ obs, o.isIdle = true) →
      ∀ o ∈ obs, o.isVideo = false ∧ (stop o = true → sending = false) := by
    intro obs sending isIdle o member
    refine ⟨Obs.isVideo_of_idle (isIdle o member), fun isStop => ?_⟩
    rw [idle o (isIdle o member)] at isStop
    cases isStop
  have started : Silent stop (p.log before).trace (p.log before).sending :=
    silent.append (quiet idleBefore)
  refine (started.move messages moved fun new logged => ?_).append (quiet idleAfter)
  refine stops (p.log before) m new rfl rfl moved logged ⟨before, after, ?_⟩
  show m.trace ++ after = _
  rw [logged]
  simp [log]

/-- Every segment or file end turns sending off. -/
theorem Moves.off_at_end {p q : Pace} {e : Event} (messages : Messages p) (moved : Moves p e q)
    {new : List Obs} (logged : q.trace = p.trace ++ new) :
    ∀ o ∈ new, o.isEnd = true → q.sending = false := by
  intro o member isEnd
  have only : ∀ {new' : List Obs}, q.trace = p.trace ++ new' → o ∈ new' := by
    intro new' logged'
    rw [List.append_cancel_left (logged'.symm.trans logged)]
    exact member
  cases moved with
  | rests => cases only (List.append_nil _).symm
  | beats => cases only (List.append_nil _).symm
  | writes written =>
    cases written with
    | resumes => cases only (List.append_nil _).symm
    | message _ val _ _ waits =>
      obtain rfl := List.mem_singleton.mp (only rfl)
      rcases messages val (waits ▸ List.mem_cons_self) with rfl | rfl <;> cases isEnd
    | media =>
      obtain rfl := List.mem_singleton.mp (only rfl)
      cases isEnd
    | fileEnds => rfl
    | segmentEnds => rfl
  | obeys obeyed =>
    cases obeyed with
    | start =>
      obtain rfl := List.mem_singleton.mp (only rfl)
      cases isEnd
    | pause =>
      obtain rfl := List.mem_singleton.mp (only rfl)
      cases isEnd
    | resume =>
      obtain rfl := List.mem_singleton.mp (only rfl)
      cases isEnd
    | seek v index free sending replies queue answered =>
      rcases List.mem_cons.mp (only rfl) with rfl | reply
      · cases isEnd
      · have := answered.subset reply
        simp only [List.mem_cons, List.not_mem_nil, or_false] at this
        rcases this with rfl | rfl <;> cases isEnd

/-- A pause changes nothing but the log. -/
theorem Moves.unchanged_at_pause {p q : Pace} {e : Event} (moved : Moves p e q) {new : List Obs}
    (logged : q.trace = p.trace ++ new) : ∀ o ∈ new, o.isPause = true → q.sending = p.sending := by
  intro o member isPause
  have only : ∀ {new' : List Obs}, q.trace = p.trace ++ new' → o ∈ new' := by
    intro new' logged'
    rw [List.append_cancel_left (logged'.symm.trans logged)]
    exact member
  cases moved with
  | rests => rfl
  | beats => rfl
  | writes written =>
    cases written with
    | resumes => rfl
    | message => rfl
    | media => rfl
    | fileEnds =>
      obtain rfl := List.mem_singleton.mp (only rfl)
      cases isPause
    | segmentEnds =>
      obtain rfl := List.mem_singleton.mp (only rfl)
      cases isPause
  | obeys obeyed =>
    cases obeyed with
    | start => rfl
    | pause => rfl
    | resume =>
      obtain rfl := List.mem_singleton.mp (only rfl)
      cases isPause
    | seek v index free sending replies queue answered =>
      rcases List.mem_cons.mp (only rfl) with rfl | reply
      · cases isPause
      · have := answered.subset reply
        simp only [List.mem_cons, List.not_mem_nil, or_false] at this
        rcases this with rfl | rfl <;> cases isPause

/-- **A segment end or file end is followed by silence** until a resume. -/
theorem Silent.turn_end {p q : Pace} {e : Event} (silent : Silent Obs.isEnd p.trace p.sending)
    (messages : Messages p) (turn : Turn p e q) : Silent Obs.isEnd q.trace q.sending := by
  refine silent.turn messages turn ?_ ?_
  · intro o idle
    cases o <;> first | rfl | cases idle
  · intro p' m new sameQueue _ moved logged _
    exact moved.off_at_end (fun m member => messages m (sameQueue ▸ member)) logged

/-- A pause that comes while nothing is sent anyway is followed by silence until a resume. -/
theorem Silent.turn_pause {p q : Pace} {e : Event} (silent : Silent Obs.isPause p.trace p.sending)
    (messages : Messages p) (turn : Turn p e q)
    (off : (∃ o ∈ q.trace.drop p.trace.length, o.isPause = true) → p.sending = false) :
    Silent Obs.isPause q.trace q.sending := by
  refine silent.turn messages turn ?_ ?_
  · intro o idle
    cases o <;> first | rfl | cases idle
  · rintro p' m new _ sameSending moved logged ⟨before, after, all⟩ o member isPause
    rw [moved.unchanged_at_pause logged o member isPause, sameSending]
    refine off ⟨o, ?_, isPause⟩
    rw [all, List.drop_left]
    simp [member]

/-- A turn in which no write finds the task free, without messages and not yet released, withholds. -/
theorem Withheld.turn {p q : Pace} {e : Event} (withheld : Withheld p.trace p.queue)
    (turn : Turn p e q)
    (released : (∃ sends, e = .write sends) → p.free = true → p.queue = [] →
      ∃ r ∈ p.trace, r.isRelease = true) : Withheld q.trace q.queue := by
  obtain ⟨before, m, after, idleBefore, idleAfter, moved, rfl⟩ := turn
  have idle : ∀ {obs : List Obs} {t : List Obs}, (∀ o ∈ obs, o.isIdle = true) → ∀ o ∈ obs,
      o.isContent = true → ∃ r ∈ t, r.isRelease = true := by
    intro obs t isIdle o member isContent
    have := isIdle o member
    cases o <;> first | cases isContent | cases this
  have started : Withheld (p.log before).trace (p.log before).queue := withheld.append (idle idleBefore)
  refine (started.move moved fun write free empty => ?_).append (idle idleAfter)
  obtain ⟨r, member, isRelease⟩ := released write free empty
  exact ⟨r, List.mem_append_left _ member, isRelease⟩

end Pace

end GreatEvent
