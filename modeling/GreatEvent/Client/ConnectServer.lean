import GreatEvent.Client.FrameReading
import GreatEvent.Client.PlayBackClient

/-!
# `CNetDataClient::ConnectServer` and the reconnect after it

`ConnectServer` connects, sends the login request and takes its reply into
the buffer that held the request. What the reply says of the file is copied
to the caller's `SFILE_INFO`, and the parameter sets that stand in there are
written to `mwFile`. `Reconnect` calls it without an `SFILE_INFO`: the copy
is left out then, the parameter sets are not (`connectServer_null`).
-/

namespace GreatEvent

open Lib

/-- The size of `ConnectServer`'s `lpData`. -/
def loginBufferLen : Nat := 2048

/-- `char lpData[2048]` of `ConnectServer` -/
structure LoginBuffer where
  bytes : List Byte
  sized : bytes.length = loginBufferLen

/-- `data` stored at the start of the buffer. -/
def LoginBuffer.store (b : LoginBuffer) (data : List Byte) (fits : data.length ≤ loginBufferLen) :
    LoginBuffer :=
  ⟨poke b.bytes 0 data, by rw [length_poke (by rwa [b.sized, Nat.zero_add]), b.sized]⟩

/-- `SFILE_INFO`, as its bytes: `PLAYER_INIT_INFO` (320) and the two times. -/
structure SFileInfo where
  bytes : List Byte
  sized : bytes.length = FileInfo.size

/-- `data` copied to the start of it. -/
def SFileInfo.store (info : SFileInfo) (data : List Byte) (fits : data.length ≤ FileInfo.size) :
    SFileInfo :=
  ⟨poke info.bytes 0 data, by rw [length_poke (by rwa [info.sized, Nat.zero_add]), info.sized]⟩

/-- `PLAYER_INIT_INFO::nVideoExtSize` and where `videoExtData` begins. -/
def SFileInfo.nVideoExtSize (info : SFileInfo) : Int := asInt (wordAt info.bytes 216)

def videoExtDataAt : Nat := 220

/-- What the network does to one `ConnectServer`: whether `Connect` succeeds, what then arrives, how
much of each message the socket accepts, how the `recv` calls are cut, and what was in the memory of
`lpData`. -/
structure Attempt where
  connects : Bool
  inp : List Byte
  accepts : Nat
  cuts : List Nat
  stack : LoginBuffer

namespace NetDataClient

/-- `Connect(m_szIP, m_nPort)`: the old socket is closed, and the new one is open if it succeeds. -/
def connect (a : Attempt) (c : NetDataClient) : Bool × NetDataClient :=
  if a.connects then (true, { c with inp := a.inp, wire := [], isOpen := true })
  else (false, { c with inp := [], wire := [], isOpen := false })

/-- The login request: `<play path="..."/>`, or `<get path="..."/>`. -/
def loginRequest (m_opt : Int) (m_szFile : List Byte) : List Byte :=
  (if m_opt = 0 then ascii "<play path=\"" else ascii "<get path=\"") ++ m_szFile ++ ascii "\"/>"

/-- `RecvCmd` into `lpData` and the checks of the reply: the buffer with an accepted reply. -/
def recvReply (cuts : List Nat) (lpData : LoginBuffer) (c : NetDataClient) :
    Option LoginBuffer × NetDataClient :=
  match c.recvCmd cuts loginBufferLen with
  | (none, c) => (none, c)
  | (some (nc, data), c) =>
    if fits : data.length ≤ loginBufferLen then
      let lpData := lpData.store data fits
      if nc.dwCmd = ModuleMsg.loginRet.code ∧ wordAt lpData.bytes 0 = 0 then (some lpData, c)
      else (none, c)
    else (none, c)

theorem length_copied_le {nLength : Int} {bs : List Byte} (fits : nLength ≤ FileInfo.size) :
    (bs.take nLength.toNat).length ≤ FileInfo.size := by
  rw [List.length_take]
  omega

/-- `memcpy(lpInfo, lpRet->lpData, lpRet->nLength)`; `none`, the copy does not fit. -/
def copyInto (lpData : LoginBuffer) (lpInfo : SFileInfo) : Option SFileInfo :=
  let nLength := asInt (wordAt lpData.bytes 4)
  if fits : 0 ≤ nLength ∧ nLength ≤ FileInfo.size then
    some (lpInfo.store ((lpData.bytes.drop 8).take nLength.toNat) (length_copied_le fits.2))
  else none

/-- It is made if `lpInfo` is not NULL. -/
def copyInfo (lpData : LoginBuffer) : Option SFileInfo → Option (Option SFileInfo)
  | none => some none
  | some lpInfo => (copyInto lpData lpInfo).map some

/-- Where the parameter sets are in `videoExtData`. -/
structure ExtSets where
  spsIndex : Nat
  spsLen : Int
  ppsIndex : Nat
  ppsLen : Int

/-- `(char)` of a byte -/
def asChar (b : Byte) : Int := b.toInt8.toInt

/-- One round of the search in `videoExtData`. -/
def ExtSets.next (info : SFileInfo) (s : ExtSets) (i : Nat) : ExtSets :=
  let byte (j : Nat) : Byte := info.bytes.getD j 0
  let b := byte (videoExtDataAt + i)
  if b = 0x67 then { s with spsIndex := i, spsLen := asChar (byte (videoExtDataAt + i - 1)) }
  else if b = 0x68 then { s with ppsIndex := i, ppsLen := asChar (byte (videoExtDataAt + i - 1)) }
  else s

/-- `fwrite(info.videoExtData+index, 1, len, mwFile)`; `none` outside the `SFILE_INFO`. -/
def extBytes (info : SFileInfo) (index : Nat) (len : Int) : Option (List Byte) :=
  if 0 ≤ len ∧ videoExtDataAt + index + len ≤ FileInfo.size then
    some ((info.bytes.drop (videoExtDataAt + index)).take len.toNat)
  else none

/-- What `ConnectServer` writes to `mwFile`: the parameter sets behind start codes. `lpInfo` is
dereferenced whatever it is. -/
def writeExtData (lpInfo : Option SFileInfo) (c : NetDataClient) : Option NetDataClient := do
  let info ← lpInfo
  if videoExtDataAt + info.nVideoExtSize ≤ FileInfo.size then
    let sets := (List.range info.nVideoExtSize.toNat).foldl (ExtSets.next info) ⟨0, 0, 0, 0⟩
    let sps ← extBytes info sets.spsIndex sets.spsLen
    let pps ← extBytes info sets.ppsIndex sets.ppsLen
    return { c with mwFile := c.mwFile ++ [0, 0, 0, 1] ++ sps ++ [0, 0, 0, 1] ++ pps }
  else none

/-- `ConnectServer`: its result, and `none` where it reads or writes outside its memory. -/
def connectServer (a : Attempt) (m_opt : Int) (m_szFile : List Byte) (lpInfo : Option SFileInfo)
    (c : NetDataClient) : Option (Bool × Option SFileInfo × NetDataClient) :=
  let (connected, c) := c.connect a
  if connected then
    let text := loginRequest m_opt m_szFile
    if fits : (text ++ [0]).length ≤ loginBufferLen then
      let (sent, c) := c.sendCmd a.accepts .login 0 text
      if sent then
        match c.recvReply a.cuts (a.stack.store (text ++ [0]) fits) with
        | (none, c) => some (false, lpInfo, c)
        | (some lpData, c) => do
          let lpInfo ← copyInfo lpData lpInfo
          let c ← c.writeExtData lpInfo
          return (true, lpInfo, c)
      else some (false, lpInfo, c)
    else none
  else some (false, lpInfo, c)

/-- `Reconnect` -/
def reconnect (a : Attempt) (m_opt : Int) (m_szFile : List Byte) (c : NetDataClient) :
    Option (Bool × NetDataClient) :=
  (c.connectServer a m_opt m_szFile none).map fun r => (r.1, r.2.2)

end NetDataClient

/-- `CPlayBackClient::Reconnect`; `accepts` is for the `start` command. -/
def PlayBackClient.reconnect (a : Attempt) (m_szFile : List Byte) (accepts : Nat)
    (c : PlayBackClient) : Option (Bool × PlayBackClient) := do
  let (ok, net) ← c.net.reconnect a 0 m_szFile
  if ok then
    return ({ c with net := net, m_bDataEnd := false, m_bSend := false, m_bPause := false
              : PlayBackClient }).start accepts c.m_dwCurPts 0
  else return (false, { c with net := net })

/-! ## The reply -/

namespace NetDataClient

section
variable {f : Frame} {rest : List Byte} {c : NetDataClient}

/-- A message that the socket has room for is sent. -/
theorem sendCmd_room (dwCmd : ModuleMsg) (dwIndex : UInt32) {lpData : List Byte} {accepts : Nat}
    (isOpen : c.isOpen = true) (room : packHeadLen + lpData.length ≤ accepts) :
    ∃ wire, c.sendCmd accepts dwCmd dwIndex lpData = (true, { c with wire := wire }) := by
  have head : packHeadLen ≤ accepts := by omega
  have body : lpData.length ≤ accepts - packHeadLen := by omega
  simp only [sendCmd, send, isOpen, if_true, NetCmd.length_bytes, head, decide_true]
  split
  · exact ⟨_, rfl⟩
  · simp only [body, decide_true]
    exact ⟨_, rfl⟩

/-- `RecvCmd` takes a frame that has arrived whole and fits. -/
theorem recvCmd_frame (cuts : List Nat) {nLength : Nat} (arrives : c.inp = f.bytes ++ rest)
    (flag : f.cmd.dwFlag = netFlag) (fits : f.body.length ≤ nLength) :
    c.recvCmd cuts nLength = (some (f.cmd, f.body), { c with inp := rest }) := by
  obtain ⟨cuts', head⟩ := recvHead_frame rest cuts flag
  rw [recvCmd, arrives, head]
  by_cases empty : f.body = []
  · have length : f.cmd.dwLength = 0 := by
      rw [← UInt32.toNat_inj, ← f.body_len, empty]
      rfl
    simp only [length, if_true, empty, List.nil_append]
  · have length : f.cmd.dwLength ≠ 0 := by
      intro zero
      have none' := f.body_len
      rw [zero] at none'
      exact empty (List.eq_nil_of_length_eq_zero none')
    obtain ⟨cuts'', body⟩ := recv_body rest cuts' empty
    rw [f.body_len] at fits
    simp only [if_neg length, if_neg (Nat.not_lt.mpr fits), body, if_true]

/-- What becomes of a reply that arrives whole. -/
theorem recvReply_frame (cuts : List Nat) (lpData : LoginBuffer) (arrives : c.inp = f.bytes ++ rest)
    (flag : f.cmd.dwFlag = netFlag) (fits : f.body.length ≤ loginBufferLen) :
    c.recvReply cuts lpData =
      (if f.cmd.dwCmd = ModuleMsg.loginRet.code ∧ wordAt (lpData.store f.body fits).bytes 0 = 0 then
        some (lpData.store f.body fits) else none, { c with inp := rest }) := by
  rw [recvReply, recvCmd_frame cuts arrives flag fits]
  simp only [dif_pos fits]
  split
  · rfl
  · rfl

/-- The buffer starts with the reply. -/
theorem store_bytes (lpData : LoginBuffer) (fits : f.body.length ≤ loginBufferLen) :
    (lpData.store f.body fits).bytes = f.body ++ lpData.bytes.drop f.body.length := poke_zero _ _

end

end NetDataClient

/-! ## Reconnecting -/

/-- The login reply `f`, with `lRet = ERR_NOERROR`, is received in the attempt. -/
structure LoginAccepted (a : Attempt) (m_szFile : List Byte) (f : Frame) : Prop where
  connects : a.connects = true
  request : (NetDataClient.loginRequest 0 m_szFile ++ [0]).length ≤ loginBufferLen
  sent : packHeadLen + (NetDataClient.loginRequest 0 m_szFile).length ≤ a.accepts
  arrives : f.bytes <+: a.inp
  flag : f.cmd.dwFlag = netFlag
  login : f.cmd.dwCmd = ModuleMsg.loginRet.code
  fits : f.body.length ≤ loginBufferLen
  long : 4 ≤ f.body.length
  noError : wordAt f.body 0 = 0

/-- Behind an accepted login `ConnectServer` without an `SFILE_INFO` dereferences it. -/
theorem NetDataClient.connectServer_null {a : Attempt} {m_szFile : List Byte} {f : Frame}
    (accepted : LoginAccepted a m_szFile f) (c : NetDataClient) :
    c.connectServer a 0 m_szFile none = none := by
  obtain ⟨rest, arrives⟩ := accepted.arrives
  have connected : c.connect a = (true, { c with inp := a.inp, wire := [], isOpen := true }) :=
    if_pos accepted.connects
  obtain ⟨wire, sent⟩ := sendCmd_room .login 0
    (c := { c with inp := a.inp, wire := [], isOpen := true }) rfl accepted.sent
  have noError : wordAt ((a.stack.store _ accepted.request).store f.body accepted.fits).bytes 0 = 0 := by
    rw [store_bytes, wordAt_append_left accepted.long, accepted.noError]
  have reply := recvReply_frame a.cuts (a.stack.store _ accepted.request)
    (c := { c with inp := a.inp, wire := wire, isOpen := true }) arrives.symm accepted.flag
    accepted.fits
  rw [if_pos ⟨accepted.login, noError⟩] at reply
  simp only [connectServer, connected, if_true, dif_pos accepted.request, sent, reply]
  rfl

/-- The frames that `Work` has consumed give the position to resume at: the tick of the last video
frame, or else the last start or seek position. -/
def resumePoint (frames : List Frame) (last : UInt32) : UInt32 :=
  match (frames.filter fun f => f.cmd.dwCmd = ModuleMsg.video.code).getLast? with
  | some f => wordAt f.body 8
  | none => last

/-- `Reconnect` completes and sends a `start` command for `position` behind the login request. -/
def PlayBackClient.Resumes (a : Attempt) (m_szFile : List Byte) (accepts : Nat) (position : UInt32)
    (c : PlayBackClient) : Prop :=
  ∃ c', c.reconnect a m_szFile accepts = some (true, c') ∧
    ∃ login, c'.net.wire = login ++
      (NetCmd.bytes ⟨netFlag, ModuleMsg.controlPlay.code, 0,
        UInt32.ofNat (startText position 0 ++ [0]).length⟩ ++ (startText position 0 ++ [0]))

theorem PlayBackClient.reconnect_null {a : Attempt} {m_szFile : List Byte} {f : Frame}
    (accepted : LoginAccepted a m_szFile f) (accepts : Nat) (c : PlayBackClient) :
    c.reconnect a m_szFile accepts = none := by
  rw [reconnect, NetDataClient.reconnect, NetDataClient.connectServer_null accepted]
  rfl

/-- **A reconnect never resumes**: whatever `Work` has left behind and whatever it has consumed, no
accepted login leads on to a `start` command. -/
theorem reconnect_never_resumes {a : Attempt} {m_szFile : List Byte} {f : Frame}
    (accepted : LoginAccepted a m_szFile f) (accepts : Nat) (c : PlayBackClient)
    (frames : List Frame) (last : UInt32) :
    ¬ c.Resumes a m_szFile accepts (resumePoint frames last) := by
  rintro ⟨c', completes, -⟩
  rw [PlayBackClient.reconnect_null accepted] at completes
  cases completes

/-- The login reply of a file of a second. -/
def sampleReply : Frame := loginRetFrame ⟨List.replicate 320 0, 0, 1000, FileInfo.length_zeros⟩

theorem length_sampleReply : sampleReply.body.length = loginRetSize := length_loginRetBytes _

theorem length_zeroLogin : (List.replicate loginBufferLen (0 : Byte)).length = loginBufferLen :=
  List.length_replicate

/-- The server answers at once. -/
def sampleAttempt : Attempt where
  connects := true
  inp := sampleReply.bytes
  accepts := 1000
  cuts := []
  stack := ⟨List.replicate loginBufferLen 0, length_zeroLogin⟩

theorem sample_accepted : LoginAccepted sampleAttempt (ascii "a.mp4") sampleReply where
  connects := rfl
  request := by decide
  sent := by decide
  arrives := List.prefix_rfl
  flag := rfl
  login := rfl
  fits := by rw [length_sampleReply]; decide
  long := by rw [length_sampleReply]; decide
  noError := by decide

/-- A player that was interrupted before its first frame. -/
theorem reconnect_never_resumes_sample :
    ¬ (PlayBackClient.connected (.fresh [])).Resumes sampleAttempt (ascii "a.mp4") 1000
      (resumePoint [] 0) :=
  reconnect_never_resumes sample_accepted 1000 _ [] 0

/-- **The player crashes when it reconnects**: `Reconnect` does not come back. -/
theorem reconnect_crashes :
    LoginAccepted sampleAttempt (ascii "a.mp4") sampleReply ∧
      (PlayBackClient.connected (.fresh [])).reconnect sampleAttempt (ascii "a.mp4") 1000 = none :=
  ⟨sample_accepted, PlayBackClient.reconnect_null sample_accepted 1000 _⟩

end GreatEvent
