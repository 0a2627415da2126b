import GreatEvent.Lib.Decimal
import GreatEvent.Server.RecvBuffer

/-!
# `TaskFileRecv`: the client's end of a file transfer

The constructor asks for the file with a login request, the login reply is
answered with a `start` command, and every `MODULE_MSG_VIDEO` frame's chunk
is appended to the local file. Chunks are read into a buffer from `malloc`
that a reset does not clear.
-/

namespace GreatEvent

open Lib

/-- `TaskFileRecv`; `mwFile` is what has been written to the local file. -/
structure TaskFileRecv where
  mRecvBuffer : RecvBuffer
  mwFile : List Byte
  mTotalLen : Int

namespace TaskFileRecv

/-- `BUFFER_LEN` of `TaskFileRecv.cpp` -/
def bufferLen : Nat := 1024 * 1024 + 1500

/-- `tagFileProcBuffer::reset`: `buff` is kept. -/
def resetBuffer (b : RecvBuffer) : RecvBuffer where
  buff := b.buff
  bProcHead := true
  hasRecvLen := 0
  totalLen := 0

end TaskFileRecv

instance : FrameReader TaskFileRecv where
  buf := TaskFileRecv.mRecvBuffer
  setBuf b t := { t with mRecvBuffer := b }
  size := TaskFileRecv.bufferLen
  reset := TaskFileRecv.resetBuffer
  buf_setBuf _ _ := rfl
  setBuf_setBuf _ _ _ := rfl
  setBuf_buf _ := rfl
  reset_head _ := ⟨rfl, rfl⟩
  reset_size _ h := h
  head_le_size := by decide
  size_lt := by decide

namespace TaskFileRecv

/-- `SendCmd`: the header, then the data, each sent on its own. -/
def sendCmd (dwCmd : ModuleMsg) (dwIndex : UInt32) (lpData : List Byte) : Act TaskFileRecv Int := do
  let nc : NetCmd := ⟨netFlag, dwCmd.code, dwIndex, UInt32.ofNat lpData.length⟩
  let iRet ← sendEx nc.bytes
  if iRet < 0 then return iRet
  else if lpData.length = 0 then return 0
  else sendEx lpData

/-- The `start` command, with its terminating NUL. -/
def startCmd (mTotalLen : Int) : List Byte :=
  ascii "<control name=\"start\" tmstart=\"0\" tmend=\"" ++ printInt mTotalLen ++ ascii "\" />" ++ [0]

/-- `recvPackData` on `MODULE_MSG_VIDEO`: the chunk goes to the file. -/
def storeChunk : Act TaskFileRecv Unit := do
  let buff := (← readerBuf).buff
  let nLength := (wordAt buff (packHeadLen + 4)).toNat
  let lpData := buff.drop (packHeadLen + FileGet.size)
  if nLength ≤ lpData.length then
    modifySelf fun t => { t with mwFile := t.mwFile ++ lpData.take nLength }
  else throw .fault

/-- `recvPackData` on `MODULE_MSG_LOGINRET`: the transfer is started. -/
def startTransfer : Act TaskFileRecv Unit := do
  -- `tmEnd` of the `FILE_INFO` in `lpData` of the `LOGIN_RET`
  let mTotalLen := asInt (wordAt (← readerBuf).buff (packHeadLen + 8 + 324))
  modifySelf fun t => { t with mTotalLen := mTotalLen }
  let _ ← sendCmd .controlPlay 0 (startCmd mTotalLen)

/-- `recvPackData`, what it does with a complete frame. -/
def dispatch : Act TaskFileRecv (Option Int) := do
  let pCmdbuf := (← readerBuf).head
  if pCmdbuf.dwCmd = ModuleMsg.video.code then storeChunk
  else if pCmdbuf.dwCmd = ModuleMsg.loginRet.code then startTransfer
  return none

/-- `readBuffer` -/
def readBuffer : Act TaskFileRecv Int := GreatEvent.readBuffer dispatch

/-- `writeBuffer` -/
def writeBuffer : Act TaskFileRecv Int := return 0

/-- `TaskBase::setHeartCount` -/
def setHeartCount : Act TaskFileRecv Int := return 0

/-- `<get path="filepath"/>` -/
def getRequest (filepath : List Byte) : List Byte :=
  ascii "<get path=\"" ++ filepath ++ ascii "\"/>"

/-- The memory `malloc(BUFFER_LEN)` returned. -/
def RawBuffer : Type := { bytes : List Byte // bytes.length = bufferLen }

/-- A new object before its constructor's body has sent anything. -/
def init (raw : RawBuffer) : TaskFileRecv where
  mRecvBuffer := ⟨raw.1, true, 0, 0⟩
  mwFile := []
  mTotalLen := 0

/-- The constructor's body: the login request. -/
def construct (filepath : List Byte) : Act TaskFileRecv Unit := do
  let _ ← sendCmd .login 0 (getRequest filepath)

end TaskFileRecv

end GreatEvent
