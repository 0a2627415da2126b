import GreatEvent.Net.NetProtocol
import GreatEvent.Server.World

/-!
# The frame reader of the server

`Session`, `TaskPlayback`, `TaskFileSend` and `TaskFileRecv` each read their
frames with the same pair of functions: `readBuffer` collects the 16-byte
header, takes `dwLength` from it and goes straight on to `recvPackData`,
which collects the body and, when it is complete, acts on the frame and
resets the buffer. The pair is written once here, over the members that
differ: the buffer, its size, what a complete frame does, the reset. Each
class's own `readBuffer` is this one applied to its members.
-/

namespace GreatEvent

open Lib

/-- `tagRecvBuffer` (`mRecvBuffer` of the playback and the file sending task), the receiving fields
of `tagFileProcBuffer` (`hasProcLen` is `hasRecvLen`), and `mReadBuff`, `mbRecvHead`,
`mHasRecvLen`, `mTotalDataLen` of `Session`. -/
structure RecvBuffer where
  buff : List Byte
  bProcHead : Bool
  hasRecvLen : Int
  totalLen : Int

/-- What `tagRecvBuffer::reset` makes of any buffer. -/
def RecvBuffer.initial : RecvBuffer where
  buff := List.replicate cmdLen 0
  bProcHead := true
  hasRecvLen := 0
  totalLen := packHeadLen

theorem RecvBuffer.initial_head :
    RecvBuffer.initial.bProcHead = true ∧ RecvBuffer.initial.hasRecvLen = 0 := ⟨rfl, rfl⟩

theorem RecvBuffer.length_initial : RecvBuffer.initial.buff.length = cmdLen := length_zeros

/-- `LPNET_CMD` on the receive buffer. -/
def RecvBuffer.head (b : RecvBuffer) : NetCmd := NetCmd.ofBytes b.buff

/-- A class with a frame reader: the reader's state, the size of its buffer and its reset. The
reset goes back to the header state and keeps the buffer's size. -/
class FrameReader (τ : Type) where
  buf : τ → RecvBuffer
  setBuf : RecvBuffer → τ → τ
  size : Nat
  reset : RecvBuffer → RecvBuffer
  buf_setBuf : ∀ b t, buf (setBuf b t) = b
  setBuf_setBuf : ∀ b c t, setBuf b (setBuf c t) = setBuf b t
  setBuf_buf : ∀ t, setBuf (buf t) t = t
  reset_head : ∀ b, (reset b).bProcHead = true ∧ (reset b).hasRecvLen = 0
  reset_size : ∀ b, b.buff.length = size → (reset b).buff.length = size
  head_le_size : packHeadLen ≤ size
  size_lt : size < 2 ^ 31

section
variable {τ : Type} [FrameReader τ]

open FrameReader

/-- The reader's buffer. -/
def readerBuf : Act τ RecvBuffer := do return buf (← get).obj

def modifyBuf (f : RecvBuffer → RecvBuffer) : Act τ Unit :=
  modifySelf fun t => setBuf (f (buf t)) t

section
variable {E : Stop → World τ → Prop} {w : World τ}

@[simp] theorem wp_readerBuf {Q : RecvBuffer → World τ → Prop} :
    wp readerBuf Q E w ↔ Q (buf w.obj) w := Iff.rfl

@[simp] theorem wp_modifyBuf (f : RecvBuffer → RecvBuffer) {Q : Unit → World τ → Prop} :
    wp (modifyBuf f) Q E w ↔ Q () { w with obj := setBuf (f (buf w.obj)) w.obj } := Iff.rfl

end

/-- `PROTO_GetValueByName(buff, pName, ...)` on a complete frame. -/
def lookup (pName : List Byte) : Act τ Lookup := do
  match protoGetValueByName (← readerBuf).buff pName with
  | some l => return l
  | none => throw .fault

/-- The string a lookup into a zeroed `acValue` leaves there. -/
def getValue (pName : List Byte) : Act τ (List Byte) := do
  return cstr ((← lookup pName).store acValueZero)

/-- `recvPackData`. `dispatch` acts on a complete frame; `some r` is its early `return r`. -/
def recvPackData (dispatch : Act τ (Option Int)) : Act τ Int := do
  let b ← readerBuf
  let (ret, bytes) ← recv (size τ) (packHeadLen + b.hasRecvLen) (b.totalLen - b.hasRecvLen)
  modifyBuf fun b => { b with buff := poke b.buff (packHeadLen + b.hasRecvLen).toNat bytes }
  if 0 < ret then
    modifyBuf fun b => { b with hasRecvLen := b.hasRecvLen + ret }
    let b ← readerBuf
    if b.hasRecvLen = b.totalLen then
      emit (.frame (b.buff.take (packHeadLen + b.totalLen.toNat)))
      match ← dispatch with
      | some r => return r
      | none =>
        modifyBuf (reset τ)
        return ret
    else return ret
  else return ret

/-- `readBuffer` -/
def readBuffer (dispatch : Act τ (Option Int)) : Act τ Int := do
  let b ← readerBuf
  if b.bProcHead then
    let (ret, bytes) ← recv (size τ) b.hasRecvLen (packHeadLen - b.hasRecvLen)
    modifyBuf fun b => { b with buff := poke b.buff b.hasRecvLen.toNat bytes }
    if 0 < ret then
      modifyBuf fun b => { b with hasRecvLen := b.hasRecvLen + ret }
      let b ← readerBuf
      if b.hasRecvLen = packHeadLen then
        modifyBuf fun b =>
          { b with totalLen := asInt b.head.dwLength, bProcHead := false, hasRecvLen := 0 }
        recvPackData dispatch
      else return ret
    else return ret
  else recvPackData dispatch

end

end GreatEvent
