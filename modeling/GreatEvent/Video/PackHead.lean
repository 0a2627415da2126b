import GreatEvent.Net.Protocol

/-!
# `PACK_HEAD`: the header of pushed video

Twelve packed bytes, the fields in network order: nothing (`MSG_HEADER`), the
type, `pid`, `fid`, `len`. For a receiver `len` is an `int`, the number of
bytes that follow; what does not fit an `int` is none.
-/

namespace GreatEvent

open Lib

/-- The part of `MSG_TYPE` that video is pushed with. -/
inductive MsgType where
  | videoRecvMsg | videoRecvStream
  deriving DecidableEq, Repr

/-- The enumerator's value. -/
def MsgType.code : MsgType → Byte
  | .videoRecvMsg => 1
  | .videoRecvStream => 2

/-- `PACK_HEAD` before `htons` and `htonl`; its `MSG_HEADER` is always 0. -/
structure PackHead where
  type : Byte
  pid : UInt16
  fid : UInt32
  len : UInt32
  deriving DecidableEq, Repr

/-- `sizeof(PACK_HEAD)` -/
def PackHead.size : Nat := 12

/-- `packetHead`, the bytes it makes of the header. -/
def PackHead.bytes (h : PackHead) : List Byte :=
  [0, h.type] ++ (beBytes 2 h.pid.toNat ++ (beBytes 4 h.fid.toNat ++ beBytes 4 h.len.toNat))

/-- `htonl(head->len)` of the header at the start of a buffer. -/
def packLen (bs : List Byte) : UInt32 := UInt32.ofNat (beValue ((bs.drop 8).take 4))

/-- `MAX_MTU` -/
def maxMtu : Nat := 1300 + PackHead.size

/-- The stream framing that `PACK_HEAD` induces. -/
def packFraming : Framing Byte where
  headLen := PackHead.size
  bodyLen h := (asInt (packLen h)).toNat
  headLen_pos := by decide

@[simp] theorem PackHead.length_bytes (h : PackHead) : h.bytes.length = PackHead.size := by
  simp [bytes, size]

/-- Only the header is looked at. -/
theorem packLen_take {bs : List Byte} {n : Nat} (long : PackHead.size ≤ n) :
    packLen (bs.take n) = packLen bs := by
  have room : PackHead.size = 12 := rfl
  rw [packLen, packLen, List.drop_take, List.take_take, Nat.min_eq_left (by omega)]

/-- The length is read back. -/
theorem PackHead.packLen_bytes (h : PackHead) (rest : List Byte) : packLen (h.bytes ++ rest) = h.len := by
  have front : ([0, h.type] ++ (beBytes 2 h.pid.toNat ++ beBytes 4 h.fid.toNat)).length = 8 := by simp
  have split : h.bytes ++ rest = ([0, h.type] ++ (beBytes 2 h.pid.toNat ++ beBytes 4 h.fid.toNat)) ++
      (beBytes 4 h.len.toNat ++ rest) := by
    simp only [bytes, List.append_assoc]
  have bound := h.len.toNat_lt
  rw [packLen, split, List.drop_left' front, List.take_left' (length_beBytes _ _), beValue_beBytes,
    Nat.mod_eq_of_lt (by omega), UInt32.ofNat_toNat]

/-- A header and as many bytes as it says are a whole frame. -/
theorem PackHead.whole_iff (h : PackHead) (body : List Byte) :
    packFraming.Whole (h.bytes ++ body) ↔ body.length = (asInt h.len).toNat := by
  have length : (h.bytes ++ body).length = PackHead.size + body.length := by
    rw [List.length_append, length_bytes]
  have bodyLen : packFraming.frameLen (h.bytes ++ body) = PackHead.size + (asInt h.len).toNat := by
    show PackHead.size + (asInt (packLen ((h.bytes ++ body).take PackHead.size))).toNat = _
    rw [packLen_take (Nat.le_refl _), packLen_bytes]
  have headLen : packFraming.headLen = PackHead.size := rfl
  rw [Framing.Whole, bodyLen, headLen, length]
  omega

end GreatEvent
