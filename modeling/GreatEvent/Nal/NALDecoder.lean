import GreatEvent.Nal.AnnexB

/-!
# `GetAnnexbNALU`: the next NAL unit of a file

A call reads a start code and then byte after byte until what it has read
ends in the next start code, in front of which it leaves the file; at the end
of the file it takes what is there. `Buf` is what has been read of it so far;
a write past its `max_size` bytes faults, as does a copy past `nalu->buf`.
-/

namespace GreatEvent.Nal

open Lib

/-- A `FILE` open for reading, with its end-of-file indicator. -/
structure BitStream where
  content : List UInt8
  pos : Nat
  feof : Bool

namespace BitStream

/-- `OpenBitstreamFile` -/
def openFile (content : List UInt8) : BitStream := ⟨content, 0, false⟩

/-- What has not been read. -/
def unread (file : BitStream) : List UInt8 := file.content.drop file.pos

/-- `fread(buf, 1, n, file)` -/
def fread (file : BitStream) (n : Nat) : List UInt8 × BitStream :=
  let bytes := file.unread.take n
  (bytes, { file with pos := file.pos + bytes.length, feof := file.feof || bytes.length < n })

/-- `fgetc` as it is stored in an `unsigned char`: `EOF` becomes 255. -/
def fgetc (file : BitStream) : UInt8 × BitStream :=
  match file.unread with
  | [] => (255, { file with feof := true })
  | c :: _ => (c, { file with pos := file.pos + 1 })

/-- `fseek(file, -n, SEEK_CUR)`; after a seek that fails the caller goes on with memory it has freed. -/
def fseekBack (file : BitStream) (n : Nat) : Option BitStream :=
  if n ≤ file.pos then some { file with pos := file.pos - n, feof := false } else none

end BitStream

/-- `NALU_t` as `AllocNALU` makes it: `buf` is `max_size` bytes. -/
structure Nalu where
  startcodeprefix_len : Nat
  len : Nat
  max_size : Nat
  forbidden_bit : UInt8
  nal_reference_idc : UInt8
  nal_unit_type : UInt8
  buf : List UInt8
  size : buf.length = max_size

/-- `AllocNALU`; its `buffersize` is an `int`, so `pos`, at most `max_size`, never overflows. -/
def allocNALU (buffersize : Nat) : Nalu where
  startcodeprefix_len := 0
  len := 0
  max_size := buffersize
  forbidden_bit := 0
  nal_reference_idc := 0
  nal_unit_type := 0
  buf := List.replicate buffersize 0
  size := List.length_replicate

namespace Nalu

theorem length_copy {n : Nalu} {data : List UInt8} (fits : data.length ≤ n.max_size) :
    (data ++ n.buf.drop data.length).length = n.max_size := by
  rw [List.length_append, List.length_drop, n.size]
  omega

/-- `GetAnnexbNALU`, what it stores of the unit: `memcpy` and the bits of the first byte. -/
def store (n : Nalu) (data : List UInt8) : Option Nalu :=
  if fits : data.length ≤ n.max_size ∧ 0 < n.max_size then
    let buf := data ++ n.buf.drop data.length
    let first := buf.headD 0
    some { n with
      len := data.length
      buf := buf
      forbidden_bit := first &&& 0x80
      nal_reference_idc := first &&& 0x60
      nal_unit_type := first &&& 0x1f
      size := length_copy fits.1 }
  else none

end Nalu

/-- `FindStartCode2` -/
def findStartCode2 (buf : List UInt8) : Bool := buf.take 3 = [0, 0, 1]

/-- `FindStartCode3` -/
def findStartCode3 (buf : List UInt8) : Bool := buf.take 4 = [0, 0, 0, 1]

/-- The loop of `GetAnnexbNALU`, with room for so many bytes in `Buf`: the length of the start code it
has run into, or none at the end of the file. -/
def scan : Nat → BitStream → List UInt8 → Option (Option Nat × BitStream × List UInt8)
  | room, file, buf =>
    if file.feof then some (none, file, buf)
    else
      match room with
      | 0 => none
      | room + 1 =>
        let c := file.fgetc
        let buf := buf ++ [c.1]
        if findStartCode3 (buf.drop (buf.length - 4)) then some (some 4, c.2, buf)
        else if findStartCode2 (buf.drop (buf.length - 3)) then some (some 3, c.2, buf)
        else scan room c.2 buf

/-- `GetAnnexbNALU` from behind the start code, `Buf` holding what has been read. -/
def afterCode (file : BitStream) (nalu : Nalu) (buf : List UInt8) : Option (Int × BitStream × Nalu) := do
  let (rewind, file, buf) ← scan (nalu.max_size - buf.length) file buf
  match rewind with
  | none =>
    -- the last byte in `Buf` stands for the end of the file
    let nalu ← nalu.store ((buf.take (buf.length - 1)).drop nalu.startcodeprefix_len)
    return (↑(buf.length - 1), file, nalu)
  | some n =>
    let file ← file.fseekBack n
    let nalu ← nalu.store ((buf.take (buf.length - n)).drop nalu.startcodeprefix_len)
    return (↑(buf.length - n), file, nalu)

/-- `GetAnnexbNALU` -/
def getAnnexbNALU (file : BitStream) (nalu : Nalu) : Option (Int × BitStream × Nalu) :=
  let nalu := { nalu with startcodeprefix_len := 3 }
  let (buf, file) := file.fread 3
  if nalu.max_size < buf.length then none
  else if buf.length ≠ 3 then some (0, file, nalu)
  else if findStartCode2 buf then afterCode file nalu buf
  else
    let (more, file) := file.fread 1
    let buf := buf ++ more
    if nalu.max_size < buf.length then none
    else if more.length ≠ 1 then some (0, file, nalu)
    else if findStartCode3 buf then afterCode file { nalu with startcodeprefix_len := 4 } buf
    else some (-1, file, nalu)

/-- What a call has returned and left in `NALU_t`. -/
structure Call where
  size : Int
  nalu : Nalu

/-- `nalu->buf[0..len)` -/
def Call.nal (c : Call) : List UInt8 := c.nalu.buf.take c.nalu.len

/-- A call that has found a unit. -/
def Call.found (c : Call) : Bool := 0 < c.size

/-- `do … while (!feof(file))` around `GetAnnexbNALU`, for at most so many calls. -/
def callUntilFeof : Nat → BitStream → Nalu → Option (List Call)
  | 0, _, _ => none
  | fuel + 1, file, nalu => do
    let (size, file, nalu) ← getAnnexbNALU file nalu
    let calls ← if file.feof then some [] else callUntilFeof fuel file nalu
    return ⟨size, nalu⟩ :: calls

end GreatEvent.Nal
