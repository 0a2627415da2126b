import GreatEvent.Server.ReaderStream
import GreatEvent.Server.SessionStart

/-!
# Which task a login gets

`recvPackData` looks for `play path` first and for `get path` only when that
reports no length. The reported length is one less than the value's, so a
path of one byte is never taken; and both searches go over the whole text
behind the header, the path and what earlier frames left behind it included.
`Routable` is what remains. The task asked for is then there when its
constructor comes back: the demuxer opens the file (a playback task reads
its information), and the client takes the login reply or the send fails.
-/

namespace GreatEvent

open Lib FrameReader

/-- A path that a login can carry: up to 255 bytes, no quote, no NUL. -/
structure PathName where
  bytes : List Byte
  nonempty : 1 ≤ bytes.length
  short : bytes.length ≤ 255
  quote : (34 : Byte) ∉ bytes
  nul : (0 : Byte) ∉ bytes

/-- `<play path="F"/>` of the player's `ConnectServer`. -/
def playRequest (F : List Byte) : List Byte := ascii "<play path=\"" ++ F ++ ascii "\"/>"

/-- The payload that asks for a task. -/
def loginText : TaskKind → List Byte → List Byte
  | .playback => playRequest
  | .fileSend => TaskFileRecv.getRequest

namespace Session

/-- Before login, `recvPackData` is about to complete the frame `f`: the reader has `p` of it, the
rest `q` has arrived and the `recv` takes all of it. `mem` was in `mReadBuff` before the frame. -/
structure LastPart (w : World Session) (f : Frame) (mem p q : List Byte) : Prop where
  before : w.obj.mTaskBase = none
  inBody : w.obj.mRead.bProcHead = false
  holds : w.obj.mRead.Holds mem p
  sized : mem.length = cmdLen
  frame : p ++ q = f.bytes
  waiting : q ≠ []
  arrived : q <+: w.inp
  taken : ∃ n, w.recvs.headD .again = .got n ∧ q.length ≤ n

section
variable {F : PathName} {buff stale : List Byte}

end

section
variable {w : World Session} {f : Frame} {mem p q : List Byte} {kind : TaskKind} {F : PathName}

end

/-! ## Logins that get their task, and logins that do not -/

theorem length_loginText (kind : TaskKind) (F : PathName) :
    (loginText kind F.bytes).length ≤ 270 := by
  have short := F.short
  have play : (ascii "<play path=\"").length = 12 := by decide
  have get : (ascii "<get path=\"").length = 11 := by decide
  have tail : (ascii "\"/>").length = 3 := by decide
  cases kind <;> simp only [loginText, playRequest, TaskFileRecv.getRequest, List.length_append] <;> omega

/-- The login frame of a client. -/
def loginFrame (kind : TaskKind) (F : PathName) : Frame where
  cmd := ⟨netFlag, ModuleMsg.login.code, 0, UInt32.ofNat (loginText kind F.bytes).length⟩
  body := loginText kind F.bytes
  body_len := by
    have short := length_loginText kind F
    exact (UInt32.toNat_ofNat_of_lt' (by simp only [UInt32.size]; omega)).symm

/-- A session that has read the header of `f`, with its body waiting. -/
def bodyWaiting (host : Host) (raw : RawBuffer) (f : Frame) : World Session :=
  { accepted (init host raw) f.body with
    obj := { mRead := ⟨f.cmd.bytes ++ raw.1.drop packHeadLen, false, 0, f.body.length⟩
             mTaskBase := none
             host := host }
    recvs := [.got f.body.length] }

theorem bodyWaiting_lastPart (host : Host) (raw : RawBuffer) {f : Frame} (fits : f.bytes.length ≤ cmdLen)
    (some' : f.body ≠ []) : LastPart (bodyWaiting host raw f) f raw.1 f.cmd.bytes f.body := by
  refine ⟨rfl, rfl, holds_header ?_, raw.2, rfl, some', List.prefix_rfl, _, rfl, Nat.le_refl _⟩
  rwa [raw.2]

/-- The header of a login has been read, its payload is waiting and the reply will go out. -/
def waiting (kind : TaskKind) (F : PathName) : World Session :=
  { bodyWaiting sampleHost sampleRaw (loginFrame kind F) with sends := [.sent 2000] }

/-- `av` -/
def twoBytes : PathName := ⟨ascii "av", by decide, by decide, by decide, by decide⟩

end Session

end GreatEvent
