import GreatEvent.Server.RecvBuffer

/-!
# `TaskFileSend`: the task that sends a file to the client

The file goes out in chunks of at most `BUFFER_LEN` bytes, each a
`MODULE_MSG_VIDEO` frame whose payload is a `FILE_GET` and the chunk. Header
and chunk leave in two write callbacks, as in `TaskPlayback`, but the buffer
turns to the chunk after every header (`setToVideo`), also when `dataLen`
is 0.
-/

namespace GreatEvent

open Lib

/-- A `FILE` open for reading: its content and the position. -/
structure FileStream where
  content : List Byte
  pos : Nat

/-- `fread(data, 1, n, file)`: the bytes read. -/
def FileStream.fread (f : FileStream) (n : Nat) : List Byte := (f.content.drop f.pos).take n

/-- The file after `fread(data, 1, n, file)`. -/
def FileStream.afterRead (f : FileStream) (n : Nat) : FileStream :=
  { f with pos := f.pos + (f.fread n).length }

/-- `tagFileSendBuffer`; `data` is NULL until `createMem`. -/
structure TagFileSendBuffer where
  bSendCmd : Bool
  hasSendLen : Nat
  totalLen : Nat
  cmd : CmdBuffer
  dataLen : Nat
  data : Option (List Byte)

namespace TagFileSendBuffer

/-- `reset` -/
def reset (b : TagFileSendBuffer) : TagFileSendBuffer where
  cmd := .zero
  data := b.data
  hasSendLen := 0
  totalLen := 0
  dataLen := 0
  bSendCmd := true

/-- `createMem`: the memory is allocated once, at the size first asked for. -/
def createMem (b : TagFileSendBuffer) (len : Nat) : TagFileSendBuffer :=
  if b.data.isNone then { b with data := some (List.replicate len 0) } else b

/-- `setToVideo` -/
def setToVideo (b : TagFileSendBuffer) : TagFileSendBuffer :=
  { b with bSendCmd := false, hasSendLen := 0, totalLen := b.dataLen }

end TagFileSendBuffer

/-- `TaskFileSend`; `filename` is the constructor's argument, which no method reads. -/
structure TaskFileSend where
  filename : List Byte
  mRecvBuffer : RecvBuffer
  mSendBuffer : TagFileSendBuffer
  mpFile : Option FileStream
  mMsgQueue : List ModuleMsg
  mFrameCount : Nat
  mFileLen : UInt32
  mHasReadLen : UInt32
  mbSendingData : Bool

instance : FrameReader TaskFileSend where
  buf := TaskFileSend.mRecvBuffer
  setBuf b t := { t with mRecvBuffer := b }
  size := cmdLen
  reset _ := .initial
  buf_setBuf _ _ := rfl
  setBuf_setBuf _ _ _ := rfl
  setBuf_buf _ := rfl
  reset_head _ := RecvBuffer.initial_head
  reset_size _ _ := RecvBuffer.length_initial
  head_le_size := packHeadLen_le_cmdLen
  size_lt := cmdLen_lt

/-- `OWN_SOCK_EXIT` -/
def ownSockExit : Int := -1528

namespace TaskFileSend

/-- `BUFFER_LEN` of `TaskFileSend.cpp` -/
def bufferLen : Nat := 1024 * 1024

/-- `mSendBuffer` is changed. -/
def modifySend (f : TagFileSendBuffer → TagFileSendBuffer) : Act TaskFileSend Unit :=
  modifySelf fun t => { t with mSendBuffer := f t.mSendBuffer }

/-- `tcpSendData` -/
def tcpSendData : Act TaskFileSend Int := do
  let b := (← self).mSendBuffer
  let data := if b.bSendCmd then b.cmd.bytes else b.data.getD []
  let ret ← sendEx ((data.drop b.hasSendLen).take (b.totalLen - b.hasSendLen))
  if 0 < ret then
    modifySend fun b => { b with hasSendLen := b.hasSendLen + ret.toNat }
  let b := (← self).mSendBuffer
  if b.hasSendLen = b.totalLen then
    modifySend fun b => if b.bSendCmd then b.setToVideo else b.reset
  return ret

/-- A header without payload is put into the send buffer: the assignments shared by `pushSendCmd`
and `sendVariedCmd`. -/
def putCmd (msg : ModuleMsg) (index : UInt32) : Act TaskFileSend Unit := do
  let f := Frame.ofCmd msg index
  modifySend fun b => { b with
    cmd := b.cmd.put f.cmd.bytes (Frame.ofCmd_fits msg index)
    totalLen := packHeadLen
    bSendCmd := true }
  emit (.queued f)

/-- `pushSendCmd` -/
def pushSendCmd (iVal : ModuleMsg) (index : UInt32) : Act TaskFileSend Int := do
  match iVal with
  | .dataEnd | .seekCmpd | .sectionEnd | .exeRet =>
    putCmd iVal index
    tcpSendData
  | .ping =>
    modifySelf fun t =>
      if t.mMsgQueue.length < 10 then { t with mMsgQueue := t.mMsgQueue ++ [.ping] } else t
    return 0
  | _ => return 0

/-- `sendVariedCmd` -/
def sendVariedCmd (iVal : ModuleMsg) : Act TaskFileSend Int := do
  putCmd iVal 0
  tcpSendData

/-- The header of a chunk. -/
def chunkCmd (dataLen : Nat) : NetCmd where
  dwFlag := netFlag
  dwCmd := ModuleMsg.video.code
  dwIndex := 0
  dwLength := UInt32.ofNat (dataLen + FileGet.size)

/-- The frame of a chunk: header, `FILE_GET`, the bytes read. -/
def chunkFrame (dwPos : UInt32) (data : List Byte) (small : data.length ≤ bufferLen) : Frame where
  cmd := chunkCmd data.length
  body := (FileGet.bytes ⟨dwPos, UInt32.ofNat data.length⟩) ++ data
  body_len := by
    simp only [chunkCmd, List.length_append, FileGet.length_bytes, UInt32.toNat_ofNat', FileGet.size,
      bufferLen] at small ⊢
    omega

/-- `writeBuffer`, the part that takes the next chunk from the file. -/
def readChunk (file : FileStream) : Act TaskFileSend Unit := do
  let t ← self
  let iLeftLen := t.mFileLen - t.mHasReadLen
  let iBuffLen := min iLeftLen.toNat bufferLen
  let read := file.fread iBuffLen
  have small : read.length ≤ bufferLen := by
    simp only [read, iBuffLen, FileStream.fread, List.length_take]
    omega
  let dwPos := UInt32.ofNat file.pos
  modifySend fun b => { b.createMem iBuffLen with
    totalLen := packHeadLen + FileGet.size
    bSendCmd := true
    cmd := b.cmd.put ((chunkCmd read.length).bytes ++
        (FileGet.bytes ⟨dwPos, UInt32.ofNat read.length⟩))
      (by rw [List.length_append, NetCmd.length_bytes, FileGet.length_bytes]; decide) }
  -- memset, then fread, both at the start of `data`
  let mem := (← self).mSendBuffer.data.getD []
  if iBuffLen ≤ mem.length then
    modifySend fun b => { b with
      data := some (poke (poke mem 0 (List.replicate iBuffLen 0)) 0 read)
      dataLen := read.length }
    modifySelf fun t => { t with
      mpFile := some (file.afterRead iBuffLen)
      mHasReadLen := t.mHasReadLen + UInt32.ofNat read.length
      mFrameCount := t.mFrameCount + 1 }
    emit (.queued (chunkFrame dwPos read small))
  else throw .fault

/-- `writeBuffer` -/
def writeBuffer : Act TaskFileSend Int := do
  let t ← self
  if t.mSendBuffer.totalLen = 0 then  -- take new data and send
    if t.mHasReadLen < t.mFileLen then
      match t.mMsgQueue with
      | val :: rest =>
        modifySelf fun t => { t with mMsgQueue := rest }
        sendVariedCmd val
      | [] =>
        if t.mbSendingData then
          match t.mpFile with
          | some file =>
            readChunk file
            tcpSendData
          | none => throw .fault
        else return 0
    else
      let _ ← pushSendCmd .dataEnd 0
      return ownSockExit
  else tcpSendData

/-- `setHeartCount` -/
def setHeartCount : Act TaskFileSend Int := return 0

/-- `recvPackData` on `<control name="start" ... />` -/
def controlStart : Act TaskFileSend Unit := do
  emit (.command .start)
  let _tmstart ← getValue (ascii "tmstart")
  let _tmend ← getValue (ascii "tmend")
  addWriteEvent

/-- `recvPackData` on `<control name="setpause" value=".." />`: the value is read and not used. -/
def controlSetpause : Act TaskFileSend Unit := do
  let value := atoi (← getValue (ascii "value"))
  emit (.command (.setpause value))

/-- `recvPackData` on `<control name="send" />` -/
def controlSend : Act TaskFileSend Unit := do
  emit (.command .send)
  modifySelf fun t => { t with mbSendingData := true }
  addWriteEvent

/-- `recvPackData`, what it does with a complete frame. -/
def dispatch : Act TaskFileSend (Option Int) := do
  let pCmdbuf := (← readerBuf).head
  if pCmdbuf.dwCmd = ModuleMsg.controlPlay.code then
    let acValue ← getValue (ascii "name")
    if acValue = ascii "start" then controlStart
    else if acValue = ascii "setpause" then controlSetpause
    else if acValue = ascii "send" then controlSend
  return none

/-- `readBuffer` -/
def readBuffer : Act TaskFileSend Int := GreatEvent.readBuffer dispatch

/-- The file information of a login reply: only the length, as `tmEnd`. -/
def fileInfo (mFileLen : UInt32) : FileInfo where
  pi := List.replicate 320 0
  tmStart := 0
  tmEnd := mFileLen
  pi_len := FileInfo.length_zeros

/-- A new object before its constructor's body has sent anything. `file` is what `fopen` gave and
`st_size` what `stat` says. -/
def init (filename : List Byte) (file : Option FileStream) (st_size : Nat) : TaskFileSend where
  filename := filename
  mRecvBuffer := .initial
  mSendBuffer := ⟨true, 0, 0, .zero, 0, none⟩
  mpFile := file
  mMsgQueue := []
  mFrameCount := 0
  mFileLen := UInt32.ofNat st_size
  mHasReadLen := 0
  mbSendingData := true

/-- The constructor's body: the login reply. -/
def construct : Act TaskFileSend Unit := do
  let f := loginRetFrame (fileInfo (← self).mFileLen)
  modifySend fun b => { b with
    cmd := b.cmd.put f.bytes (by rw [length_loginRetFrame]; decide)
    totalLen := packHeadLen + loginRetSize
    bSendCmd := true }
  emit (.queued f)
  let _ ← tcpSendData

end TaskFileSend

end GreatEvent
