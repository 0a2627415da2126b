import GreatEvent.Server.TaskFileRecv
import GreatEvent.Server.TaskFileSend
import GreatEvent.Server.TaskPlayback

/-!
# `Session`: one connection, before and after login

A server session starts without a task. It reads frames with its own copy of
the reader until one is a login: `recvPackData` looks for `play path` and
then for `get path` in the payload, checks that the file exists and creates
the task, which from then on does the reading and writing. A client session
is built around its `TaskFileRecv`.
-/

namespace GreatEvent

open Lib

/-- What the operating system and the media library answer for a path, and the uninitialised memory
a new task is built in. -/
structure Host where
  /-- `access(path, F_OK) == 0` -/
  access : List Byte → Bool
  /-- the demuxer on a path; `none`, it cannot be opened and `getFileInfo` crashes -/
  openMedia : List Byte → Option FfmpegContext
  /-- `fopen(path, "rb")` -/
  fopen : List Byte → Option FileStream
  /-- `stat(path).st_size` -/
  st_size : List Byte → Nat
  raw : TagSendBuffer

/-- The tasks behind `TaskBase *mTaskBase`. -/
inductive Task where
  | playback (t : TaskPlayback)
  | fileSend (t : TaskFileSend)
  | fileRecv (t : TaskFileRecv)

/-- The task of a server session and the file name it was created with. -/
def Task.request : Task → Option (TaskKind × List Byte)
  | .playback t => some (.playback, t.mFfmpeg.mFilename)
  | .fileSend t => some (.fileSend, t.filename)
  | .fileRecv _ => none

/-- `Session`; `mRead` is `mReadBuff`, `mbRecvHead`, `mHasRecvLen` and `mTotalDataLen`. -/
structure Session where
  mRead : RecvBuffer
  mTaskBase : Option Task
  host : Host

namespace Session

/-- What `recvPackData` puts back after a complete frame: `mReadBuff` is kept. -/
def resetRead (b : RecvBuffer) : RecvBuffer where
  buff := b.buff
  bProcHead := true
  hasRecvLen := 0
  totalLen := 0

end Session

instance : FrameReader Session where
  buf := Session.mRead
  setBuf b s := { s with mRead := b }
  size := cmdLen
  reset := Session.resetRead
  buf_setBuf _ _ := rfl
  setBuf_setBuf _ _ _ := rfl
  setBuf_buf _ := rfl
  reset_head _ := ⟨rfl, rfl⟩
  reset_size _ h := h
  head_le_size := packHeadLen_le_cmdLen
  size_lt := cmdLen_lt

namespace Session

/-- A method of the task, `mk` saying which task it is. -/
def inTask {τ α : Type} (mk : τ → Task) (t : τ) (act : Act τ α) : Act Session α := do
  let s ← self
  inMember t (fun t => { s with mTaskBase := some (mk t) }) act

/-- The string in `acValue`, which `access` reads. -/
def fileName (acValue : List Byte) : Act Session (List Byte) :=
  match stringIn acValue with
  | some filename => return filename
  | none => throw .fault

/-- The two lookups of a login: `acValue` and the task asked for. -/
def loginRequest : Act Session (List Byte × Option TaskKind) := do
  let play ← lookup (ascii "play path")
  let acValue := play.store acValueZero
  if 0 < play.pValueLen then
    return (← fileName acValue, some .playback)
  else
    let get ← lookup (ascii "get path")
    let acValue := get.store acValue
    return (← fileName acValue, if 0 < get.pValueLen then some .fileSend else none)

/-- `new TaskPlayback(this, mSid, filename)` -/
def newPlayback (filename : List Byte) : Act Session Unit := do
  emit (.create .playback filename)
  let host := (← self).host
  match host.openMedia filename with
  | none => throw .fault
  | some mFfmpeg =>
    -- `new FfmpegContext(filename)` keeps the name
    inTask .playback (TaskPlayback.init host.raw { mFfmpeg with mFilename := filename })
      TaskPlayback.construct

/-- `new TaskFileSend(this, mSid, filename)` -/
def newFileSend (filename : List Byte) : Act Session Unit := do
  emit (.create .fileSend filename)
  let host := (← self).host
  inTask .fileSend (TaskFileSend.init filename (host.fopen filename) (host.st_size filename))
    TaskFileSend.construct

/-- `switch(dataType)`: the task asked for is created. -/
def createTask (dataType : Option TaskKind) (filename : List Byte) : Act Session Unit :=
  match dataType with
  | some .playback => newPlayback filename
  | some .fileSend => newFileSend filename
  | none => pure ()

/-- `recvPackData`, what it does with a complete frame. -/
def dispatch : Act Session (Option Int) := do
  let (acValue, dataType) ← loginRequest
  if (← self).host.access acValue then
    createTask dataType acValue
    return none
  else return some 0

/-- `readBuffer` -/
def readBuffer : Act Session Int := do
  match (← self).mTaskBase with
  | some (.playback t) => inTask .playback t TaskPlayback.readBuffer
  | some (.fileSend t) => inTask .fileSend t TaskFileSend.readBuffer
  | some (.fileRecv t) => inTask .fileRecv t TaskFileRecv.readBuffer
  | none => GreatEvent.readBuffer dispatch

/-- `writeBuffer` -/
def writeBuffer : Act Session Int := do
  match (← self).mTaskBase with
  | some (.playback t) => inTask .playback t TaskPlayback.writeBuffer
  | some (.fileSend t) => inTask .fileSend t TaskFileSend.writeBuffer
  | some (.fileRecv t) => inTask .fileRecv t TaskFileRecv.writeBuffer
  | none => return 0

/-- `setHeartBeat` -/
def setHeartBeat : Act Session Int := do
  match (← self).mTaskBase with
  | some (.playback t) => inTask .playback t TaskPlayback.setHeartCount
  | some (.fileSend t) => inTask .fileSend t TaskFileSend.setHeartCount
  | some (.fileRecv t) => inTask .fileRecv t TaskFileRecv.setHeartCount
  | none => return 0

/-- The uninitialised `mReadBuff` of a new session. -/
def RawBuffer : Type := { bytes : List Byte // bytes.length = cmdLen }

/-- `Session(sid)`: the server's side of a connection just accepted. -/
def init (host : Host) (raw : RawBuffer) : Session where
  mRead := ⟨raw.1, true, 0, 0⟩
  mTaskBase := none
  host := host

end Session

end GreatEvent
