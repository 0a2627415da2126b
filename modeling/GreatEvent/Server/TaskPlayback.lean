import GreatEvent.Server.RecvBuffer

/-!
# `TaskPlayback`: the task that plays a media file to the client

All output goes through one send buffer. A media frame leaves it in two
steps: `writeBuffer` puts the header into `cmd`, `tcpSendData` sends it and
turns the buffer to the payload (`setToVideo`), and the next write callback
sends that. Commands from the client arrive on the read side
(`TaskPlayback.dispatch`, the body of `recvPackData`), heartbeats from the
timer (`setHeartCount`).

The demuxer is code outside the repository: its answers are the list
`results`, and a seek replaces them.
-/

namespace GreatEvent

open Lib

/-- `AVMediaType`, as far as `writeBuffer` tells its values apart. -/
inductive MediaType where
  | video | audio | other
  deriving DecidableEq, Repr

/-- The fields of an `AVPacket` that are read. `data` is the memory around `pkt.data`, by offset:
the start-code patching does not stop at the packet's ends. -/
structure AVPacket where
  data : Int → Byte
  size : Nat
  pts : Int64
  flags : UInt32
  size_lt : size < 2 ^ 31

namespace AVPacket

theorem no_size_lt : 0 < 2 ^ 31 := by decide

/-- `memset(&avpack, 0, sizeof(AVPacket))` -/
def zero : AVPacket := ⟨fun _ => 0, 0, 0, 0, no_size_lt⟩

/-- The `size` bytes at `pkt.data`. -/
def payload (pkt : AVPacket) : List Byte := (List.range pkt.size).map fun i : Nat => pkt.data i

@[simp] theorem length_payload (pkt : AVPacket) : pkt.payload.length = pkt.size := by
  simp [payload]

end AVPacket

/-- `memcpy(data + off, bs, 4)` -/
def memcpy4 (data : Int → Byte) (off : Int) (bs : List Byte) : Int → Byte := fun i =>
  if off ≤ i ∧ i < off + 4 then bs.getD (i - off).toNat 0 else data i

/-- What the scan for parameter sets keeps. -/
structure StartCodeScan where
  data : Int → Byte
  index : Int
  len : Int

/-- One round of the scan in `writeBuffer`: in front of every byte `0x67` or `0x68` the four bytes
are overwritten with a start code. -/
def StartCodeScan.next (s : StartCodeScan) (i : Nat) : StartCodeScan :=
  let curDat := s.data i
  if curDat = 0x67 ∨ curDat = 0x68 then
    -- `len` is read before the start code overwrites it
    ⟨memcpy4 s.data ((i : Int) - 4) startCode, i, (s.data ((i : Int) - 1)).toNat⟩
  else s

/-- `frameType`, `flags` and `data` decide `AV_FRAME::dwFrameType`; any other stream leaves the word
as it is in the buffer. -/
def frameTypeWord (frameType : MediaType) (pkt : AVPacket) (stale : UInt32) : UInt32 :=
  match frameType with
  | .video => if pkt.flags &&& 1 ≠ 0 then 1 else 2  -- FRAME_VIDEO_I, FRAME_VIDEO_P
  | .audio => 3  -- FRAME_AUDIO
  | .other => stale

/-- `writeBuffer`'s in-place start-code patching. -/
def patchStartCodes (frameType : MediaType) (pkt : AVPacket) : AVPacket :=
  match frameType with
  | .video =>
    let scanned :=
      if pkt.flags &&& 1 ≠ 0 ∧ pkt.data 4 = 0x67 then
        let scan := (List.range 36).foldl StartCodeScan.next ⟨pkt.data, 0, 0⟩
        memcpy4 scan.data (scan.index + scan.len) startCode
      else pkt.data
    let patched :=
      if pkt.size ≥ 4 ∧ [scanned 0, scanned 1, scanned 2, scanned 3] ≠ [0, 0, 0, 2] then
        memcpy4 scanned 0 startCode
      else scanned
    { pkt with data := patched }
  | _ => pkt

@[simp] theorem size_patchStartCodes (frameType : MediaType) (pkt : AVPacket) :
    (patchStartCodes frameType pkt).size = pkt.size := by
  cases frameType <;> rfl

/-- One packet as the demuxer hands it out: with the media type of its stream. -/
structure Packet where
  pkt : AVPacket
  frameType : MediaType

/-- `AV_FRAME` as `writeBuffer` fills it in. -/
def Packet.avFrame (p : Packet) (stale : UInt32) : AvFrame where
  dwFrameType := frameTypeWord p.frameType p.pkt stale
  nLength := UInt32.ofNat p.pkt.size
  dwTick := p.pkt.pts.toUInt64.toUInt32
  dwTm := p.pkt.pts.toUInt64.toUInt32

/-- The header of a media frame. -/
def Packet.netCmd (p : Packet) : NetCmd where
  dwFlag := netFlag
  dwCmd := ModuleMsg.video.code
  dwIndex := 0
  dwLength := UInt32.ofNat p.pkt.size + UInt32.ofNat AvFrame.size

theorem Packet.dwLength_toNat (p : Packet) : p.netCmd.dwLength.toNat = p.pkt.size + AvFrame.size := by
  have := p.pkt.size_lt
  simp only [Packet.netCmd, UInt32.toNat_add, UInt32.toNat_ofNat', AvFrame.size]
  omega

/-- The `MODULE_MSG_VIDEO` frame of a packet: header, `AV_FRAME`, the patched payload. -/
def Packet.frame (p : Packet) (stale : UInt32) : Frame where
  cmd := p.netCmd
  body := (p.avFrame stale).bytes ++ (patchStartCodes p.frameType p.pkt).payload
  body_len := by
    rw [p.dwLength_toNat, List.length_append, AvFrame.length_bytes, AVPacket.length_payload,
      size_patchStartCodes, Nat.add_comm]

/-- The demuxer: the file name it was given, what the coming `av_read_frame` calls give (`none` is a negative result; past the
end of the list that is all it gives), what they give after a seek, and the file's information. -/
structure FfmpegContext where
  mFilename : List Byte
  results : List (Option Packet)
  seekTo : UInt32 → List (Option Packet)
  info : FileInfo

/-- `SEG_FRAME_COUNT` -/
def segFrameCount : Nat := 500

/-- `tagSendBuffer` -/
structure TagSendBuffer where
  bSendCmd : Bool
  hasSendLen : Nat
  totalLen : Nat
  avpack : AVPacket
  cmd : CmdBuffer

namespace TagSendBuffer

/-- `reset` -/
def reset (b : TagSendBuffer) : TagSendBuffer where
  cmd := if b.bSendCmd then .zero else b.cmd
  hasSendLen := 0
  totalLen := 0
  avpack := .zero
  bSendCmd := true

/-- `setToVideo` -/
def setToVideo (b : TagSendBuffer) : TagSendBuffer where
  bSendCmd := false
  hasSendLen := 0
  totalLen := b.avpack.size
  avpack := b.avpack
  cmd := .zero

end TagSendBuffer

/-- `TaskPlayback` -/
structure TaskPlayback where
  mFfmpeg : FfmpegContext
  mFrameCount : Nat
  mRecvBuffer : RecvBuffer
  mSendBuffer : TagSendBuffer
  mMsgQueue : List ModuleMsg
  mbSendingData : Bool

instance : FrameReader TaskPlayback where
  buf := TaskPlayback.mRecvBuffer
  setBuf b t := { t with mRecvBuffer := b }
  size := cmdLen
  reset _ := .initial
  buf_setBuf _ _ := rfl
  setBuf_setBuf _ _ _ := rfl
  setBuf_buf _ := rfl
  reset_head _ := RecvBuffer.initial_head
  reset_size _ _ := RecvBuffer.length_initial
  head_le_size := packHeadLen_le_cmdLen
  size_lt := cmdLen_lt

namespace TaskPlayback

/-- `mSendBuffer` is changed. -/
def modifySend (f : TagSendBuffer → TagSendBuffer) : Act TaskPlayback Unit :=
  modifySelf fun t => { t with mSendBuffer := f t.mSendBuffer }

/-- `tcpSendData` -/
def tcpSendData : Act TaskPlayback Int := do
  let b := (← self).mSendBuffer
  let data := if b.bSendCmd then b.cmd.bytes else b.avpack.payload
  let ret ← sendEx ((data.drop b.hasSendLen).take (b.totalLen - b.hasSendLen))
  if 0 < ret then
    modifySend fun b => { b with hasSendLen := b.hasSendLen + ret.toNat }
  let b := (← self).mSendBuffer
  if b.hasSendLen = b.totalLen then
    modifySend fun b => if b.bSendCmd && 0 < b.avpack.size then b.setToVideo else b.reset
  return ret

/-- A header without payload is put into the send buffer: the assignments shared by `pushSendCmd`
and `sendVariedCmd`. -/
def putCmd (msg : ModuleMsg) (index : UInt32) : Act TaskPlayback Unit := do
  let f := Frame.ofCmd msg index
  modifySend fun b => { b with
    cmd := b.cmd.put f.cmd.bytes (Frame.ofCmd_fits msg index)
    totalLen := packHeadLen
    bSendCmd := true }
  emit (.queued f)

/-- `pushSendCmd` -/
def pushSendCmd (iVal : ModuleMsg) (index : UInt32) : Act TaskPlayback Int := do
  match iVal with
  | .dataEnd | .seekCmpd | .sectionEnd | .exeRet =>
    putCmd iVal index
    tcpSendData
  | .ping =>
    modifySelf fun t =>
      if t.mMsgQueue.length < 10 then { t with mMsgQueue := t.mMsgQueue ++ [.ping] } else t
    return 0
  | _ => return 0

/-- `sendVariedCmd` -/
def sendVariedCmd (iVal : ModuleMsg) : Act TaskPlayback Int := do
  putCmd iVal 0
  tcpSendData

/-- `setHeartCount` -/
def setHeartCount : Act TaskPlayback Int := do
  modifySelf fun t => { t with mMsgQueue := t.mMsgQueue ++ [.ping] }
  let w ← get
  if !w.mWriting || !w.obj.mbSendingData then
    addWriteEvent
  return (← self).mMsgQueue.length

/-- `mFfmpeg->getPackageData(pkt, frameType)`: the next packet, if there is one. -/
def getPackageData : Act TaskPlayback (Option Packet) := do
  let results := (← self).mFfmpeg.results
  modifySelf fun t => { t with mFfmpeg := { t.mFfmpeg with results := results.tail } }
  return results.headD none

/-- A packet becomes the media frame in the send buffer: header and `AV_FRAME` in `cmd`, the patched
packet in `avpack`. -/
def putVideo (p : Packet) : Act TaskPlayback Unit := do
  let stale := wordAt (← self).mSendBuffer.cmd.bytes packHeadLen
  modifySend fun b => { b with
    totalLen := packHeadLen + AvFrame.size
    bSendCmd := true
    cmd := b.cmd.put (p.netCmd.bytes ++ (p.avFrame stale).bytes)
      (by rw [List.length_append, NetCmd.length_bytes, AvFrame.length_bytes]; decide)
    avpack := patchStartCodes p.frameType p.pkt }
  emit (.queued (p.frame stale))

/-- `writeBuffer`, the part that takes new media: `mbSendingData` is set and no message waits. -/
def writeMedia : Act TaskPlayback Int := do
  if (← self).mFrameCount < segFrameCount then
    modifySelf fun t => { t with mFrameCount := t.mFrameCount + 1 }
    match ← getPackageData with
    | some p =>
      putVideo p
      tcpSendData
    | none =>
      modifySelf fun t => { t with mbSendingData := false }
      let _ ← pushSendCmd .dataEnd 0
      return 0
  else
    modifySelf fun t => { t with mFrameCount := 0, mbSendingData := false }
    pushSendCmd .sectionEnd 0

/-- `writeBuffer` -/
def writeBuffer : Act TaskPlayback Int := do
  let t ← self
  if t.mSendBuffer.totalLen = 0 then  -- take new data and send
    match t.mMsgQueue with
    | val :: rest =>
      modifySelf fun t => { t with mMsgQueue := rest }
      sendVariedCmd val
    | [] =>
      if t.mbSendingData then writeMedia else return 0
  else tcpSendData

/-- `recvPackData` on `<control name="start" ... />` -/
def controlStart : Act TaskPlayback Unit := do
  emit (.command .start)
  let _tmstart ← getValue (ascii "tmstart")
  let _tmend ← getValue (ascii "tmend")
  addWriteEvent

/-- `recvPackData` on `<control name="setpause" value=".." />` -/
def controlSetpause : Act TaskPlayback Unit := do
  let value := atoi (← getValue (ascii "value"))
  emit (.command (.setpause value))
  if value = 0 then
    modifySelf fun t => { t with mbSendingData := true }

/-- `recvPackData` on `<control name="seek" value=".." />` -/
def controlSeek (index : UInt32) : Act TaskPlayback Unit := do
  let iPos := atoi (← getValue (ascii "value"))
  emit (.command (.seek iPos))
  modifySelf fun t => { t with
    mFfmpeg := { t.mFfmpeg with results := t.mFfmpeg.seekTo (UInt32.ofInt iPos) } }
  modifySend TagSendBuffer.reset
  let rest ← pushSendCmd .seekCmpd index
  let _ ← pushSendCmd .exeRet index
  if rest ≠ packHeadLen then
    modifySelf fun t => { t with mMsgQueue := t.mMsgQueue ++ [.seekCmpd] }
  modifySelf fun t => { t with mbSendingData := true }

/-- `recvPackData`, what it does with a complete frame. -/
def dispatch : Act TaskPlayback (Option Int) := do
  let pCmdbuf := (← readerBuf).head
  if pCmdbuf.dwCmd = ModuleMsg.controlPlay.code then
    let acValue ← getValue (ascii "name")
    if acValue = ascii "start" then controlStart
    else if acValue = ascii "setpause" then controlSetpause
    else if acValue = ascii "seek" then controlSeek pCmdbuf.dwIndex
  return none

/-- `readBuffer` -/
def readBuffer : Act TaskPlayback Int := GreatEvent.readBuffer dispatch

/-- A new object before its constructor's body has sent anything. `raw` is the memory the send
buffer is built in: its `cmd` and `bSendCmd` are not initialised. -/
def init (raw : TagSendBuffer) (mFfmpeg : FfmpegContext) : TaskPlayback where
  mFfmpeg := mFfmpeg
  mFrameCount := 0
  mRecvBuffer := .initial
  mSendBuffer := { raw with avpack := .zero }.reset
  mMsgQueue := []
  mbSendingData := true

/-- The constructor's body: the login reply. -/
def construct : Act TaskPlayback Unit := do
  let f := loginRetFrame (← self).mFfmpeg.info
  modifySend fun b => { b with
    cmd := b.cmd.put f.bytes (by rw [length_loginRetFrame]; decide)
    totalLen := packHeadLen + loginRetSize
    bSendCmd := true }
  emit (.queued f)
  let _ ← tcpSendData

end TaskPlayback

end GreatEvent
