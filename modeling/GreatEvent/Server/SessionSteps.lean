import GreatEvent.Server.FileSendSteps
import GreatEvent.Server.PlaybackPacing

/-!
# What a session's callbacks can do

With a task, every method of the session is the task's; without one, only
reading does anything, and a complete frame may create a task.
-/

namespace GreatEvent

open Lib FrameReader

namespace Session

section
variable {τ α : Type} {Q : α → World Session → Prop} {E : Stop → World Session → Prop}
  {w : World Session}

/-- A task's method runs in the task's world. -/
theorem wp_inTask (mk : τ → Task) (t : τ) (act : Act τ α) : wp (inTask mk t act) Q E w ↔
    wp act (fun a w' => Q a (w'.withObj { w.obj with mTaskBase := some (mk w'.obj) }))
      (fun e w' => E e (w'.withObj { w.obj with mTaskBase := some (mk w'.obj) })) (w.withObj t) := by
  simp only [inTask, wp_bind, wp_self, wp_inMember]

/-- The request that a complete frame in `buff` makes: the path and the task asked for; `none`, a
lookup leaves the buffer, or `access` leaves `acValue`. -/
def requestIn (buff : List Byte) : Option (List Byte × Option TaskKind) := do
  let play ← protoGetValueByName buff (ascii "play path")
  if 0 < play.pValueLen then
    let filename ← stringIn (play.store acValueZero)
    some (filename, some .playback)
  else
    let get ← protoGetValueByName buff (ascii "get path")
    let filename ← stringIn (get.store (play.store acValueZero))
    some (filename, if 0 < get.pValueLen then some .fileSend else none)

theorem wp_fileName {acValue : List Byte} {Q : List Byte → World Session → Prop}
    (faults : stringIn acValue = none → E .fault w)
    (returns : ∀ filename, stringIn acValue = some filename → Q filename w) : wp (fileName acValue) Q E w := by
  unfold fileName
  cases name : stringIn acValue with
  | none => exact faults name
  | some filename => exact returns filename name

theorem wp_loginRequest {Q : List Byte × Option TaskKind → World Session → Prop}
    (faults : requestIn w.obj.mRead.buff = none → E .fault w)
    (returns : ∀ r, requestIn w.obj.mRead.buff = some r → Q r w) : wp loginRequest Q E w := by
  simp only [loginRequest, lookup, wp_bind, wp_readerBuf]
  unfold requestIn at faults returns
  cases play : protoGetValueByName w.obj.mRead.buff (ascii "play path") with
  | none =>
    rw [play] at faults
    exact faults rfl
  | some l =>
    rw [play] at faults returns
    simp only [FrameReader.buf, wp_pure, wp_ite, wp_bind, wp_readerBuf]
    split
    case isTrue found =>
      refine wp_fileName (fun none' => faults ?_) fun filename name => returns _ ?_
      · simp [found, none']
      · simp [found, name]
    case isFalse absent =>
      cases get : protoGetValueByName w.obj.mRead.buff (ascii "get path") with
      | none =>
        simp only [wp_throw]
        exact faults (by simp [absent, get])
      | some l' =>
        refine wp_fileName (fun none' => faults ?_) fun filename name => returns _ ?_
        · simp [absent, get, none']
        · simp [absent, get, name]

/-- What `dispatch` does with a complete frame before login: a lookup faults, or the path is
refused, or a task is created, or none is asked for. -/
theorem wp_dispatch {Q : Option Int → World Session → Prop}
    (faults : requestIn w.obj.mRead.buff = none → E .fault w)
    (refuses : ∀ path kind, requestIn w.obj.mRead.buff = some (path, kind) →
      w.obj.host.access path = false → Q (some 0) w)
    (other : ∀ path, requestIn w.obj.mRead.buff = some (path, none) →
      w.obj.host.access path = true → Q none w)
    (playback : ∀ path, requestIn w.obj.mRead.buff = some (path, some .playback) →
      w.obj.host.access path = true → wp (newPlayback path) (fun _ t => Q none t) E w)
    (fileSend : ∀ path, requestIn w.obj.mRead.buff = some (path, some .fileSend) →
      w.obj.host.access path = true → wp (newFileSend path) (fun _ t => Q none t) E w) :
    wp dispatch Q E w := by
  simp only [dispatch, wp_bind]
  refine wp_loginRequest faults ?_
  rintro ⟨acValue, dataType⟩ request
  simp only [wp_bind, wp_self, wp_ite, wp_pure]
  split
  case isTrue granted =>
    rcases dataType with _ | _ | _
    · exact other acValue request granted
    · exact playback acValue request granted
    · exact fileSend acValue request granted
  case isFalse denied => exact refuses acValue dataType request (Bool.eq_false_iff.mpr denied)

/-- A session with a new playback task, its login reply queued. -/
def withPlayback (w : World Session) (filename : List Byte) (mFfmpeg : FfmpegContext)
    (b : TagSendBuffer) (wire : List Byte) (sends : List SendResult) : World Session :=
  { w with
    obj := { w.obj with
      mTaskBase := some (.playback { TaskPlayback.init w.obj.host.raw
        { mFfmpeg with mFilename := filename } with mSendBuffer := b }) }
    wire := wire, sends := sends
    trace := w.trace ++ [.create .playback filename, .queued (loginRetFrame mFfmpeg.info)] }

/-- A session with a new file sending task, its login reply queued. -/
def withFileSend (w : World Session) (filename : List Byte) (b : TagFileSendBuffer)
    (wire : List Byte) (sends : List SendResult) : World Session :=
  let t := TaskFileSend.init filename (w.obj.host.fopen filename) (w.obj.host.st_size filename)
  { w with
    obj := { w.obj with mTaskBase := some (.fileSend { t with mSendBuffer := b }) }
    wire := wire, sends := sends
    trace := w.trace ++ [.create .fileSend filename,
      .queued (loginRetFrame (TaskFileSend.fileInfo t.mFileLen))] }

theorem wp_newPlayback (filename : List Byte) {Q : Unit → World Session → Prop}
    (faults : w.obj.host.openMedia filename = none →
      E .fault { w with trace := w.trace ++ [.create .playback filename] })
    (returns : ∀ mFfmpeg b wire sends, w.obj.host.openMedia filename = some mFfmpeg → w.Answers →
      Q () (withPlayback w filename mFfmpeg b wire sends))
    (blocks : ∀ mFfmpeg b wire sends, ¬ w.Answers →
      E .blocked (withPlayback w filename mFfmpeg b wire sends)) :
    wp (newPlayback filename) Q E w := by
  have joined : ∀ f : Frame, (w.trace ++ [.create .playback filename]) ++ [.queued f] =
      w.trace ++ [.create .playback filename, .queued f] := by simp
  simp only [newPlayback, wp_bind, wp_emit, wp_self]
  split
  case h_1 none => exact faults none
  case h_2 mFfmpeg opened =>
    rw [wp_inTask]
    refine TaskPlayback.wp_construct_fresh rfl (fun b wire sends answers => ?_)
      (fun b wire sends waits => ?_)
    · have post := returns mFfmpeg b wire sends opened answers
      rwa [withPlayback, ← joined] at post
    · have post := blocks mFfmpeg b wire sends waits
      rwa [withPlayback, ← joined] at post

theorem wp_newFileSend (filename : List Byte) {Q : Unit → World Session → Prop}
    (returns : ∀ b wire sends, w.Answers → Q () (withFileSend w filename b wire sends))
    (blocks : ∀ b wire sends, ¬ w.Answers → E .blocked (withFileSend w filename b wire sends)) :
    wp (newFileSend filename) Q E w := by
  have joined : ∀ f : Frame, (w.trace ++ [.create .fileSend filename]) ++ [.queued f] =
      w.trace ++ [.create .fileSend filename, .queued f] := by simp
  simp only [newFileSend, wp_bind, wp_emit, wp_self]
  rw [wp_inTask]
  refine TaskFileSend.wp_construct_fresh rfl (fun b wire sends answers => ?_)
    (fun b wire sends waits => ?_)
  · have post := returns b wire sends answers
    rwa [withFileSend, ← joined] at post
  · have post := blocks b wire sends waits
    rwa [withFileSend, ← joined] at post

end

/-! ## Whose method it is -/

section
variable {Q : Int → World Session → Prop} {E : Stop → World Session → Prop} {w : World Session}
  {e : Event}

private theorem withTask {task : Option Task} (same : w.obj.mTaskBase = task) :
    { w.obj with mTaskBase := task } = w.obj := by
  rw [← same]

/-- A task's method, run in the session. -/
def taskMethod (e : Event) : Task → Act Session Int
  | .playback t => inTask .playback t (e.method : Act TaskPlayback Int)
  | .fileSend t => inTask .fileSend t (e.method : Act TaskFileSend Int)
  | .fileRecv t => inTask .fileRecv t (e.method : Act TaskFileRecv Int)

/-- With a task the session's method is the task's. -/
theorem wp_method {task : Task} (has : w.obj.mTaskBase = some task) :
    wp (e.method : Act Session Int) Q E w ↔ wp (taskMethod e task) Q E w := by
  cases task
  all_goals
    cases e <;> simp only [taskMethod, Event.method, Callbacks.readBuffer, readBuffer, Callbacks.writeBuffer,
      writeBuffer, Callbacks.setHeartBeat, setHeartBeat, wp_bind, wp_self, has]
  all_goals simp only [wp_inTask, wp_pure, World.withObj, withTask has]

/-- Before login only reading does anything. -/
theorem wp_method_none (task : w.obj.mTaskBase = none) (rests : ∀ r, Q r w)
    (reads : (∃ recvs sends, e = .read recvs sends) → wp (GreatEvent.readBuffer dispatch) Q E w) :
    wp (e.method : Act Session Int) Q E w := by
  cases e with
  | read recvs sends =>
    simp only [Event.method, Callbacks.readBuffer, readBuffer, wp_bind, wp_self, task]
    exact reads ⟨recvs, sends, rfl⟩
  | write sends =>
    simp only [Event.method, Callbacks.writeBuffer, writeBuffer, wp_bind, wp_self, task]
    exact rests 0
  | timer =>
    simp only [Event.method, Callbacks.setHeartBeat, setHeartBeat, wp_bind, wp_self, task]
    exact rests 0
  | readTimeout => exact rests 0
  | writeTimeout => exact rests 0

end

end Session

end GreatEvent
