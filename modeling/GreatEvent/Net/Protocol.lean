import GreatEvent.Lib.Bytes
import GreatEvent.Lib.Framing

/-!
# The wire records of `common/protocol.h`

Every message is a 16-byte `NET_CMD` header followed by `dwLength` bytes.
All words are little-endian 32-bit (the code copies the structs as they lie
in memory). `Frame` is such a message with its length invariant as a field,
`netFraming` the splitting of a stream that the header induces.
-/

namespace GreatEvent

open Lib

abbrev Byte := UInt8

/-- The bytes of a C string literal, without its terminator. -/
def ascii (s : String) : List Byte := s.toList.map fun c => UInt8.ofNat c.toNat

/-- The 32-bit word stored at offset `off`. -/
def wordAt (bs : List Byte) (off : Nat) : UInt32 := UInt32.ofNat (leValue ((bs.drop off).take 4))

/-- `(int)` of an unsigned 32-bit value. -/
def asInt (v : UInt32) : Int := if v.toNat < 2 ^ 31 then v.toNat else (v.toNat : Int) - 2 ^ 32

/-- The range of an `int`. -/
theorem asInt_range (v : UInt32) : -2 ^ 31 ≤ asInt v ∧ asInt v < 2 ^ 31 := by
  have bound := v.toNat_lt
  unfold asInt
  split <;> omega

/-- Converted back, the value is the same. -/
theorem ofInt_asInt (v : UInt32) : UInt32.ofInt (asInt v) = v := by
  have bound := v.toNat_lt
  apply UInt32.toNat_inj.mp
  change (asInt v % 4294967296).toNat % 4294967296 = v.toNat
  unfold asInt
  split <;> omega

/-- Reading a word back where it was stored. -/
theorem wordAt_append (front : List Byte) (v : UInt32) (back : List Byte) (off : Nat)
    (here : front.length = off) : wordAt (front ++ (leBytes 4 v.toNat ++ back)) off = v := by
  subst here
  unfold wordAt
  rw [List.drop_left, List.take_left' (by simp), leValue_leBytes_uint32, UInt32.ofNat_toNat]

/-- A word depends on its four bytes only. -/
theorem wordAt_append_left {bs : List Byte} {off : Nat} (inside : off + 4 ≤ bs.length)
    (back : List Byte) : wordAt (bs ++ back) off = wordAt bs off := by
  unfold wordAt
  rw [List.drop_append_of_le_length (by omega), List.take_append_of_le_length]
  rw [List.length_drop]
  omega

/-- The part of `MODULE_MSG_ID` the modelled code uses. -/
inductive ModuleMsg where
  | ping | login | loginRet | video | exeRet | controlPlay | dataEnd | sectionEnd | seekCmpd
  deriving DecidableEq, Repr

/-- The enumerator's value, `MODULE_MSG_PING` being 0. -/
def ModuleMsg.code : ModuleMsg → UInt32
  | .ping => 0
  | .login => 1
  | .loginRet => 2
  | .video => 25
  | .exeRet => 28
  | .controlPlay => 68
  | .dataEnd => 69
  | .sectionEnd => 70
  | .seekCmpd => 90

/-- `NET_FLAG` -/
def netFlag : UInt32 := 0xfefdfcfb

/-- `CMD_LEN`: the size of every command buffer. -/
def cmdLen : Nat := 1500

/-- `sizeof(NET_CMD)`, the readers' `mPackHeadLen`. -/
def packHeadLen : Nat := 16

theorem packHeadLen_le_cmdLen : packHeadLen ≤ cmdLen := by decide

theorem cmdLen_lt : cmdLen < 2 ^ 31 := by decide

/-- The length of a zeroed command buffer. -/
theorem length_zeros : (List.replicate cmdLen (0 : Byte)).length = cmdLen := List.length_replicate

/-- `NET_CMD` (and `NET_HEAD`, which has the same fields). -/
structure NetCmd where
  dwFlag : UInt32
  dwCmd : UInt32
  dwIndex : UInt32
  dwLength : UInt32
  deriving DecidableEq, Repr

namespace NetCmd

/-- The header as it lies in memory. -/
def bytes (c : NetCmd) : List Byte :=
  leBytes 4 c.dwFlag.toNat ++ (leBytes 4 c.dwCmd.toNat ++
    (leBytes 4 c.dwIndex.toNat ++ leBytes 4 c.dwLength.toNat))

/-- `(LPNET_CMD)buff`: the header at the start of a buffer. -/
def ofBytes (bs : List Byte) : NetCmd :=
  ⟨wordAt bs 0, wordAt bs 4, wordAt bs 8, wordAt bs 12⟩

@[simp] theorem length_bytes (c : NetCmd) : c.bytes.length = packHeadLen := by
  simp [bytes, packHeadLen]

/-- The cast reads back the header that was stored. -/
theorem ofBytes_append (c : NetCmd) (rest : List Byte) : ofBytes (c.bytes ++ rest) = c := by
  obtain ⟨flag, cmd, index, len⟩ := c
  simp only [bytes, List.append_assoc, ofBytes, mk.injEq]
  refine ⟨wordAt_append [] _ _ _ rfl, ?_, ?_, ?_⟩
  · exact wordAt_append (leBytes 4 flag.toNat) _ _ _ (by simp)
  · rw [← List.append_assoc]
    exact wordAt_append (leBytes 4 flag.toNat ++ leBytes 4 cmd.toNat) _ _ _ (by simp)
  · rw [← List.append_assoc, ← List.append_assoc]
    exact wordAt_append (leBytes 4 flag.toNat ++ leBytes 4 cmd.toNat ++ leBytes 4 index.toNat) _ _ _
      (by simp)

@[simp] theorem ofBytes_bytes (c : NetCmd) : ofBytes c.bytes = c := by
  have same := ofBytes_append c []
  rwa [List.append_nil] at same

/-- The cast depends on the header only. -/
theorem ofBytes_append_left {bs : List Byte} (long : packHeadLen ≤ bs.length) (back : List Byte) :
    ofBytes (bs ++ back) = ofBytes bs := by
  have inside : ∀ off, off + 4 ≤ packHeadLen → off + 4 ≤ bs.length := fun _ low => Nat.le_trans low long
  simp only [ofBytes, wordAt_append_left (inside 0 (by decide)),
    wordAt_append_left (inside 4 (by decide)), wordAt_append_left (inside 8 (by decide)),
    wordAt_append_left (inside 12 (by decide))]

/-- The cast only looks at the first sixteen bytes. -/
theorem ofBytes_take {bs : List Byte} {n : Nat} (long : packHeadLen ≤ n) :
    ofBytes (bs.take n) = ofBytes bs := by
  have word : ∀ off, off + 4 ≤ packHeadLen → wordAt (bs.take n) off = wordAt bs off := by
    intro off inside
    unfold wordAt
    rw [List.drop_take, List.take_take, Nat.min_eq_left (by omega)]
  simp only [ofBytes, word 0 (by decide), word 4 (by decide), word 8 (by decide),
    word 12 (by decide)]

end NetCmd

/-- A whole message: the header announces exactly the bytes that follow. -/
structure Frame where
  cmd : NetCmd
  body : List Byte
  body_len : body.length = cmd.dwLength.toNat
  deriving DecidableEq

/-- The stream framing that `NET_CMD` induces. -/
def netFraming : Framing Byte where
  headLen := packHeadLen
  bodyLen h := (NetCmd.ofBytes h).dwLength.toNat
  headLen_pos := by decide

namespace Frame

def bytes (f : Frame) : List Byte := f.cmd.bytes ++ f.body

/-- The bytes of a sequence of frames, one after the other. -/
def stream (fs : List Frame) : List Byte := (fs.map bytes).flatten

@[simp] theorem stream_nil : stream [] = [] := rfl

@[simp] theorem stream_cons (f : Frame) (fs : List Frame) : stream (f :: fs) = f.bytes ++ stream fs :=
  rfl

theorem stream_append (fs gs : List Frame) : stream (fs ++ gs) = stream fs ++ stream gs := by
  simp [stream]

theorem length_bytes (f : Frame) : f.bytes.length = packHeadLen + f.cmd.dwLength.toNat := by
  simp [bytes, f.body_len]

theorem take_head (f : Frame) : f.bytes.take packHeadLen = f.cmd.bytes :=
  List.take_left' f.cmd.length_bytes

/-- A frame's bytes are a whole frame of the stream framing. -/
theorem whole (f : Frame) : netFraming.Whole f.bytes := by
  have len := f.length_bytes
  refine ⟨by rw [len]; exact Nat.le_add_right _ _, ?_⟩
  rw [len, Framing.frameLen]
  show _ = packHeadLen + (NetCmd.ofBytes (f.bytes.take packHeadLen)).dwLength.toNat
  rw [take_head, ← List.append_nil f.cmd.bytes, NetCmd.ofBytes_append]

theorem ofBytes_head (f : Frame) : NetCmd.ofBytes (f.bytes.take packHeadLen) = f.cmd := by
  rw [take_head, NetCmd.ofBytes_bytes]

theorem whole_of_mem {fs : List Frame} {b : List Byte} (member : b ∈ fs.map bytes) :
    netFraming.Whole b := by
  obtain ⟨f, -, rfl⟩ := List.mem_map.mp member
  exact f.whole

/-- A frame without a body. -/
def ofCmd (msg : ModuleMsg) (index : UInt32) : Frame where
  cmd := ⟨netFlag, msg.code, index, 0⟩
  body := []
  body_len := rfl

/-- A header fits the command buffer. -/
theorem ofCmd_fits (msg : ModuleMsg) (index : UInt32) :
    (ofCmd msg index).cmd.bytes.length ≤ cmdLen := by
  rw [NetCmd.length_bytes]
  exact packHeadLen_le_cmdLen

end Frame

/-- `char cmd[CMD_LEN]`, the part of a send buffer that headers and replies are written into. -/
@[ext] structure CmdBuffer where
  bytes : List Byte
  bytes_len : bytes.length = cmdLen

namespace CmdBuffer

/-- `memset(cmd, 0, CMD_LEN)` -/
def zero : CmdBuffer := ⟨List.replicate cmdLen 0, length_zeros⟩

/-- `bs` written at the start of the buffer. -/
def put (b : CmdBuffer) (bs : List Byte) (fits : bs.length ≤ cmdLen) : CmdBuffer where
  bytes := poke b.bytes 0 bs
  bytes_len := by rw [length_poke (by rw [b.bytes_len]; omega), b.bytes_len]

/-- What was written is what is sent. -/
theorem take_put (b : CmdBuffer) {bs : List Byte} (fits : bs.length ≤ cmdLen) :
    (b.put bs fits).bytes.take bs.length = bs := by
  show (poke b.bytes 0 bs).take bs.length = bs
  rw [poke_zero, List.take_left]

end CmdBuffer

/-- `FILE_INFO`: the stream parameters (`PLAYER_INIT_INFO`, 320 bytes copied as they are) and the
two times. -/
structure FileInfo where
  pi : List Byte
  tmStart : UInt32
  tmEnd : UInt32
  pi_len : pi.length = 320

/-- A zeroed `PLAYER_INIT_INFO`. -/
theorem FileInfo.length_zeros : (List.replicate 320 (0 : Byte)).length = 320 := List.length_replicate

/-- `sizeof(FILE_INFO)` -/
def FileInfo.size : Nat := 328

def FileInfo.bytes (i : FileInfo) : List Byte :=
  i.pi ++ (leBytes 4 i.tmStart.toNat ++ leBytes 4 i.tmEnd.toNat)

/-- `sizeof(LOGIN_RET)` -/
def loginRetSize : Nat := 1032

/-- A zero-initialised `LOGIN_RET` with `lRet = ERR_NOERROR`, `nLength = sizeof(FILE_INFO)` and the
file information copied into its 1024-byte `lpData`. -/
def loginRetBytes (info : FileInfo) : List Byte :=
  leBytes 4 0 ++ (leBytes 4 FileInfo.size ++ (info.bytes ++ List.replicate 696 0))

@[simp] theorem length_loginRetBytes (info : FileInfo) :
    (loginRetBytes info).length = loginRetSize := by
  simp only [loginRetBytes, FileInfo.bytes, List.length_append, length_leBytes,
    List.length_replicate, info.pi_len, loginRetSize]

/-- The `MODULE_MSG_LOGINRET` frame both server tasks start with. -/
def loginRetFrame (info : FileInfo) : Frame where
  cmd := ⟨netFlag, ModuleMsg.loginRet.code, 0, UInt32.ofNat loginRetSize⟩
  body := loginRetBytes info
  body_len := by rw [length_loginRetBytes]; rfl

/-- The login reply fits the command buffer. -/
theorem length_loginRetFrame (info : FileInfo) :
    (loginRetFrame info).bytes.length = packHeadLen + loginRetSize := by
  rw [Frame.length_bytes]
  rfl

/-- `AV_FRAME` without its payload. -/
structure AvFrame where
  dwFrameType : UInt32
  nLength : UInt32
  dwTick : UInt32
  dwTm : UInt32
  deriving DecidableEq, Repr

/-- `sizeof(AV_FRAME)` -/
def AvFrame.size : Nat := 16

def AvFrame.bytes (a : AvFrame) : List Byte :=
  leBytes 4 a.dwFrameType.toNat ++ (leBytes 4 a.nLength.toNat ++
    (leBytes 4 a.dwTick.toNat ++ leBytes 4 a.dwTm.toNat))

@[simp] theorem AvFrame.length_bytes (a : AvFrame) : a.bytes.length = AvFrame.size := by
  simp [AvFrame.bytes, AvFrame.size]

/-- `char head[4]` in the server and `char tag[4]` in the client: what each unit of a video begins with -/
def startCode : List Byte := [0, 0, 0, 1]

/-- `FILE_GET` without its payload. -/
structure FileGet where
  dwPos : UInt32
  nLength : UInt32
  deriving DecidableEq, Repr

/-- `sizeof(FILE_GET)` -/
def FileGet.size : Nat := 8

def FileGet.bytes (g : FileGet) : List Byte := leBytes 4 g.dwPos.toNat ++ leBytes 4 g.nLength.toNat

@[simp] theorem FileGet.length_bytes (g : FileGet) : g.bytes.length = FileGet.size := by
  simp [FileGet.bytes, FileGet.size]

end GreatEvent
