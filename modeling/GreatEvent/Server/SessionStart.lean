import GreatEvent.Server.PlaybackPacing
import GreatEvent.Server.SessionSteps

/-!
# A session up to the start of playback

Before login a session queues nothing, and from login on it is paced like
the task it has created, so what holds of the task's turns holds of the
session's. Playback begins with the client's first command only if no write
callback comes earlier: the timer's heartbeats arm the write event, and
`mbSendingData` is set from the beginning.
-/

namespace GreatEvent

open Lib FrameReader

namespace Session

/-- Before login nothing has been queued or commanded; after it, a playback task withholds. -/
def Withholds (c : Core Session) : Prop :=
  match c.obj.mTaskBase with
  | none => ∀ o ∈ c.trace, o.isIdle = true
  | some (.playback t) => Pace.Withheld c.trace t.mMsgQueue
  | some _ => True

section
variable {w : World Session}

theorem Withholds.of_idle {c : Core Session} (before : c.obj.mTaskBase = none)
    (idle : ∀ o ∈ c.trace, o.isIdle = true) : Withholds c := by
  simpa only [Withholds, before] using idle

theorem Withholds.of_playback {c : Core Session} {t : TaskPlayback}
    (playing : c.obj.mTaskBase = some (.playback t)) (withheld : Pace.Withheld c.trace t.mMsgQueue) :
    Withholds c := by
  simpa only [Withholds, playing] using withheld

theorem Withholds.of_fileSend {c : Core Session} {t : TaskFileSend}
    (sending : c.obj.mTaskBase = some (.fileSend t)) : Withholds c := by
  simp only [Withholds, sending]

/-- What a new playback task has logged is its creation and its login reply. -/
theorem newPlayback_withholds (filename : List Byte) (idle : ∀ o ∈ w.trace, o.isIdle = true)
    (before : w.obj.mTaskBase = none) :
    wp (newPlayback filename) (fun _ t => Withholds t.core) (fun _ t => Withholds t.core) w := by
  have created : ∀ o ∈ w.trace ++ [.create .playback filename], o.isIdle = true := by
    intro o member
    rcases List.mem_append.mp member with old | new
    · exact idle o old
    · rw [List.mem_singleton.mp new]
      rfl
  have new : ∀ f : Frame, (Obs.queued f).isHeartbeat = true → Pace.Withheld (w.trace ++
      [.create .playback filename, .queued f]) [] := by
    intro f isHeartbeat
    rw [List.append_cons]
    refine ⟨NoneBefore.snoc ?_ ?_, .inr nofun⟩
    · intro early o late same isContent
      have := created o (same ▸ by simp)
      cases o <;> first | cases isContent | cases this
    · simp [Obs.isContent, isHeartbeat]
  exact wp_newPlayback filename (fun _ => .of_idle before created)
    (fun _ _ _ _ _ _ => .of_playback rfl (new _ rfl))
    (fun _ _ _ _ _ => .of_playback rfl (new _ rfl))

theorem newFileSend_withholds (filename : List Byte) :
    wp (newFileSend filename) (fun _ t => Withholds t.core) (fun _ t => Withholds t.core) w := by
  exact wp_newFileSend filename (fun _ _ _ _ => .of_fileSend rfl) (fun _ _ _ _ => .of_fileSend rfl)

/-- Before login a read leaves the session without task, or creates one. -/
theorem readBuffer_withholds (before : w.obj.mTaskBase = none)
    (idle : ∀ o ∈ w.trace, o.isIdle = true) :
    wp (GreatEvent.readBuffer dispatch) (fun _ t => Withholds t.core) (fun _ t => Withholds t.core)
      w := by
  have still : ∀ {obs : List Obs}, AllReading obs → ∀ o ∈ w.trace ++ obs, o.isIdle = true := by
    intro obs reading o member
    rcases List.mem_append.mp member with old | new
    · exact idle o old
    · exact TaskPlayback.idle_of_reading reading o new
  -- resetting the reader changes neither the task nor the log
  have finishes : ∀ (r : Option Int) (t : World Session), Withholds t.core →
      Finishes (fun _ t => Withholds t.core) r t := by
    intro r t post
    cases r with
    | some r => exact post
    | none => exact fun _ _ => post
  refine wp_readBuffer ?_ ?_ ?_
  · intro ret b rest recvs obs _ reading
    exact .of_idle before (still reading)
  · intro b rest recvs obs _ reading
    exact .of_idle before (still reading)
  · intro b rest recvs obs _ reading
    refine wp.mono ?_ finishes fun _ _ stopped => stopped
    refine wp_dispatch ?_ ?_ ?_ ?_ ?_
    · exact fun _ => .of_idle before (still reading)
    · exact fun _ _ _ _ => .of_idle before (still reading)
    · exact fun _ _ _ => .of_idle before (still reading)
    · exact fun filename _ _ => newPlayback_withholds filename (still reading) before
    · exact fun filename _ _ => newFileSend_withholds filename

/-- A playback task with an empty send buffer and no message waiting. -/
def isUnoccupied (s : Session) : Bool :=
  match s.mTaskBase with
  | some (.playback t) => t.mSendBuffer.totalLen == 0 && t.mMsgQueue.isEmpty
  | _ => false

theorem exists_of_isUnoccupied {s : Session} (unoccupied : s.isUnoccupied = true) :
    ∃ t, s.mTaskBase = some (.playback t) := by
  unfold isUnoccupied at unoccupied
  split at unoccupied
  · exact ⟨_, ‹_›⟩
  · cases unoccupied

/-- A write callback that finds a playback task unoccupied comes after a release. -/
def Heeded (w : World Session) (e : Event) (_ : World Session) : Prop :=
  w.obj.isUnoccupied = true → e.isWrite = true → ∃ r ∈ w.trace, r.isRelease = true

instance (w : World Session) (e : Event) (w' : World Session) : Decidable (Heeded w e w') :=
  inferInstanceAs (Decidable (_ → _ → ∃ _ ∈ _, _))

/-- What the playback task's method does to its pacing, the session's does to what it withholds. -/
theorem inTask_withholds {t : TaskPlayback} {act : Act TaskPlayback Int} {e : Event}
    (playing : w.obj.mTaskBase = some (.playback t)) (withholds : Withholds w.core)
    (heeded : Heeded w e w)
    (turns : wp act (fun _ u => (TaskPlayback.pace (w.withObj t).core).Turn e (TaskPlayback.pace u.core))
      (fun _ u => (TaskPlayback.pace (w.withObj t).core).Turn e (TaskPlayback.pace u.core))
      (w.withObj t)) :
    wp (inTask .playback t act) (fun _ u => Withholds u.core) (fun _ u => Withholds u.core) w := by
  have before : Pace.Withheld w.trace t.mMsgQueue := by
    simpa only [Withholds, World.core, playing] using withholds
  have turned : ∀ u : World TaskPlayback,
      (TaskPlayback.pace (w.withObj t).core).Turn e (TaskPlayback.pace u.core) →
      Pace.Withheld u.trace u.obj.mMsgQueue := by
    intro u turn
    refine before.turn turn ?_
    rintro ⟨sends, write⟩ free empty
    have sent : t.mSendBuffer.totalLen = 0 := of_decide_eq_true free
    have noMessage : t.mMsgQueue = [] := empty
    exact heeded (by simp [isUnoccupied, playing, sent, noMessage]) (by rw [write]; rfl)
  rw [wp_inTask]
  exact turns.mono (fun _ u turn => .of_playback rfl (turned u turn))
    (fun _ u turn => .of_playback rfl (turned u turn))

/-- The methods of a session withhold when they are heeded. -/
theorem method_withholds {e : Event} (withholds : Withholds w.core) (heeded : Heeded w e w) :
    wp (e.method : Act Session Int) (fun _ t => Withholds t.core) (fun _ t => Withholds t.core) w := by
  cases task : w.obj.mTaskBase with
  | none =>
    have idle : ∀ o ∈ w.trace, o.isIdle = true := by
      simpa only [Withholds, World.core, task] using withholds
    exact wp_method_none task (fun _ => withholds) fun _ => readBuffer_withholds task idle
  | some task' =>
    cases task' with
    | playback t =>
      exact (wp_method task).mpr
        (inTask_withholds task withholds heeded (TaskPlayback.method_turn e))
    | fileSend t =>
      exact (wp_method task).mpr ((wp_inTask ..).mpr
        (wp_of_forall (fun _ _ => trivial) (fun _ _ => trivial)))
    | fileRecv t =>
      exact (wp_method task).mpr ((wp_inTask ..).mpr
        (wp_of_forall (fun _ _ => trivial) (fun _ _ => trivial)))

theorem fire_withholds {w' : World Session} {e : Event} (fired : fire w e = some w')
    (withholds : Withholds w.core) (heeded : Heeded w e w') : Withholds w'.core := by
  refine fire_keeps fired (P := Withholds) ?_ ?_
  · intro c by' before
    have torn : (Obs.teardown by').isContent = false := rfl
    unfold Withholds at before ⊢
    dsimp only
    cases task : c.obj.mTaskBase with
    | none =>
      rw [task] at before
      intro o member
      rcases List.mem_append.mp member with old | new
      · exact before o old
      · rw [List.mem_singleton.mp new]
        rfl
    | some task' =>
      rw [task] at before
      cases task' with
      | playback t => exact Pace.Withheld.snoc before (by simp [torn]) (.inr id)
      | fileSend t => trivial
      | fileRecv t => trivial
  · intro d same _ _ _
    refine method_withholds (same ▸ withholds) ?_
    have sameObj : d.obj = w.obj := congrArg Core.obj same
    have sameTrace : d.trace = w.trace := congrArg Core.trace same
    rwa [Heeded, sameObj, sameTrace]

end

/-- **Nothing but heartbeats before the release**: in every run from a connection's first byte in
which no write comes too early, neither media nor any other frame than the login reply and heartbeats
is queued before a `start`, a `setpause` 0 or a `seek`. -/
theorem nothing_before_release {host : Host} {raw : RawBuffer} {inp : List Byte} {es : List Event}
    {w : World Session} (run : Runs fire Heeded (accepted (init host raw) inp) es w)
    {t : TaskPlayback} (playing : w.obj.mTaskBase = some (.playback t)) :
    NoneBefore Obs.isVideo Obs.isRelease w.trace ∧ NoneBefore Obs.isContent Obs.isRelease w.trace := by
  have withholds : Withholds w.core :=
    run.invariant (P := fun w => Withholds w.core) (.of_idle rfl nofun)
      fun a e b before fired heeded => fire_withholds fired before heeded
  have withheld : Pace.Withheld w.trace t.mMsgQueue := by
    simpa only [Withholds, World.core, playing] using withholds
  refine ⟨fun before o after same isVideo => withheld.none before o after same ?_, withheld.none⟩
  cases o with
  | queued f =>
    have code : f.cmd.dwCmd = ModuleMsg.video.code := eq_of_beq isVideo
    have isHeartbeat : (Obs.queued f).isHeartbeat = false := by
      simp only [Obs.isHeartbeat, Obs.queues, code]
      decide
    simp only [Obs.isContent, isHeartbeat, Bool.not_false]
  | _ => cases isVideo

/-! ## A login, and a heartbeat before the start -/

/-- A server whose every path is a small media file. -/
def sampleHost : Host where
  access _ := true
  openMedia _ := some TaskPlayback.sampleFfmpeg
  fopen _ := none
  st_size _ := 0
  raw := TaskPlayback.sampleRaw

def sampleRaw : RawBuffer := ⟨List.replicate cmdLen 0, length_zeros⟩

/-- A login frame. -/
def loginBytes (request : String) : List Byte :=
  NetCmd.bytes ⟨netFlag, ModuleMsg.login.code, 0, UInt32.ofNat request.length⟩ ++ ascii request

def playBytes : List Byte := loginBytes "<play path=\"ab\"/>"

/-- A frame that arrives whole, the reply to it going out at once. -/
def readReply : Event := .read [.got 1500, .got 1500] [.sent 2000]

/-- A client that starts after the first heartbeat. -/
theorem nothing_before_release_sample : ∃ w t,
    Runs fire Heeded (accepted (init sampleHost sampleRaw) (playBytes ++ TaskPlayback.startBytes))
      [readReply, .timer, .write [.sent 20], readReply, .timer, .write [.sent 20], .write [.sent 40],
        .write [.sent 40]] w ∧
    w.obj.mTaskBase = some (.playback t) ∧ NoneBefore Obs.isVideo Obs.isRelease w.trace ∧
    NoneBefore Obs.isContent Obs.isRelease w.trace := by
  have finished : (exec fire Heeded
      (accepted (init sampleHost sampleRaw) (playBytes ++ TaskPlayback.startBytes))
      [readReply, .timer, .write [.sent 20], readReply, .timer, .write [.sent 20], .write [.sent 40],
        .write [.sent 40]]).map (fun w => w.obj.isUnoccupied) = some true := by
    decide +kernel
  obtain ⟨w, ran, unoccupied⟩ := Option.map_eq_some_iff.mp finished
  obtain ⟨t, playing⟩ := exists_of_isUnoccupied unoccupied
  exact ⟨w, t, .of_exec ran, playing, nothing_before_release (.of_exec ran) playing⟩

/-- A heartbeat before the start arms the write event, and the write after it takes media. -/
theorem media_before_start : ∃ w t, Runs fire (fun w e _ => w.Registered e ∧ e.NoFatal)
    (accepted (init sampleHost sampleRaw) playBytes)
    [readReply, .timer, .write [.sent 20], .write [.sent 40], .write [.sent 40]] w ∧
    w.obj.mTaskBase = some (.playback t) ∧ ¬ NoneBefore Obs.isVideo Obs.isRelease w.trace := by
  have early : (exec fire (fun w e _ => w.Registered e ∧ e.NoFatal)
      (accepted (init sampleHost sampleRaw) playBytes)
      [readReply, .timer, .write [.sent 20], .write [.sent 40], .write [.sent 40]]).map
      (fun w => (w.obj.isUnoccupied, noneMonitor Obs.isVideo Obs.isRelease w.trace)) =
      some (true, false) := by
    decide +kernel
  obtain ⟨w, ran, facts⟩ := Option.map_eq_some_iff.mp early
  obtain ⟨unoccupied, failed⟩ := Prod.mk.inj facts
  obtain ⟨t, playing⟩ := exists_of_isUnoccupied unoccupied
  refine ⟨w, t, .of_exec ran, playing, fun none => ?_⟩
  rw [none.monitor] at failed
  cases failed

end Session

end GreatEvent
