import GreatEvent.Lib.Hex
import GreatEvent.Net.Protocol

/-!
# The message builder of `EventServer/net/net_protocol.c`

`PROTO_MakeDataHead` starts a message, every `PROTO_AddOneItem` appends two
length fields, a name and a value, and `PROTO_SetDataPackLen` rewrites the
load length in the head. Numbers go through small arrays on the stack, and
nothing compares a field with its array or an item with `total`: the model
answers `none` where a store leaves its memory. The two functions that print
lengths take the size of their `acLen` as `array`; the source declares it with
`acLenSize` bytes.
-/

namespace GreatEvent

open Lib

/-- `PROTOCOL_HEAD_LENGTH` -/
def protocolHeadLength : Int := 14 + 2

/-- `PROTOCOL_CMD_LENGTH` -/
def protocolCmdLength : Nat := 4

/-- `PROTOCOL_VERSION`, "0100" -/
def protocolVersion : List Byte := [48, 49, 48, 48]

/-- `PROTOCOL_LOAD_OFFSET` -/
def protocolLoadOffset : Nat := 12

/-- `PROTOCOL_LOAD_LENGTH` -/
def protocolLoadLength : Nat := 4

/-- `sizeof(acLen)` in `PROTO_AddOneItem` and `PROTO_SetDataPackLen`: `char acLen[PROTOCOL_LOAD_LENGTH+1]` -/
def acLenSize : Nat := protocolLoadLength + 1

/-- `PROTOCOL_REGIST` -/
def protocolRegist : Int := 1

/-- `PROTOCOL_REPLY_ASKSDP` -/
def protocolReplyAsksdp : Int := 7

/-- `PROTOCOL_REPLY_ASKDATA` -/
def protocolReplyAskdata : Int := 9

/-- `PROTO_ST_MSG`: `msg` is NULL or a buffer of `total` bytes. -/
structure ProtoStMsg where
  msg : Option (List Byte)
  len : Int
  total : Nat
  room : ∀ m ∈ msg, m.length = total
  deriving DecidableEq

namespace ProtoStMsg

/-- `memset(msg, 0, total)` -/
def clear (s : ProtoStMsg) : ProtoStMsg where
  msg := some (List.replicate s.total 0)
  len := s.len
  total := s.total
  room := by
    intro m eq
    cases eq
    exact List.length_replicate

/-- Bytes stored at `msg + off`; `none`, they are not all inside the buffer. -/
def store (s : ProtoStMsg) (off : Int) (bytes : List Byte) : Option ProtoStMsg :=
  if h : 0 ≤ off ∧ off + bytes.length ≤ s.total then
    match eq : s.msg with
    | none => none
    | some m => some {
        msg := some (poke m off.toNat bytes)
        len := s.len
        total := s.total
        room := by
          intro m' eq'
          cases eq'
          have size := s.room m eq
          rw [length_poke (by omega), size] }
  else none

/-- `memcpy(msg + off, src, n)`: a negative `n` is a `size_t` beyond every buffer. -/
def memcpy (s : ProtoStMsg) (off : Int) (src : List Byte) (n : Int) : Option ProtoStMsg :=
  if 0 ≤ n ∧ n ≤ src.length then s.store off (src.take n.toNat) else none

/-- `if(pValue != NULL) memcpy(msg + off, pValue, n)` -/
def memcpyValue (s : ProtoStMsg) (off : Int) (pValue : Option (List Byte)) (n : Int) : Option ProtoStMsg :=
  match pValue with
  | none => some s
  | some value => s.memcpy off value n

section
variable {s s' t : ProtoStMsg} {off n : Int} {bytes src xs ys : List Byte}

/-- What a store does when it stays inside the buffer, and only then. -/
theorem store_eq_some_iff : s.store off bytes = some t ↔
    0 ≤ off ∧ off + bytes.length ≤ s.total ∧ t.len = s.len ∧ t.total = s.total ∧
      ∃ m, s.msg = some m ∧ t.msg = some (poke m off.toNat bytes) := by
  unfold store
  constructor
  · intro stored
    split at stored
    case isFalse => cases stored
    case isTrue h =>
      split at stored
      · cases stored
      · rename_i m eq
        cases stored
        exact ⟨h.1, h.2, rfl, rfl, m, eq, rfl⟩
  · rintro ⟨start, fits, len, total, m, eq, buf⟩
    rw [dif_pos ⟨start, fits⟩]
    split
    · rename_i null
      rw [null] at eq
      cases eq
    · rename_i m' eq'
      cases eq.symm.trans eq'
      cases t
      simp only [ProtoStMsg.mk.injEq, Option.some.injEq]
      exact ⟨buf.symm, len.symm, total.symm⟩

theorem memcpy_eq_some_iff : s.memcpy off src n = some t ↔
    0 ≤ n ∧ n ≤ src.length ∧ s.store off (src.take n.toNat) = some t := by
  unfold memcpy
  split
  case isTrue h => exact ⟨fun stored => ⟨h.1, h.2, stored⟩, fun ⟨_, _, stored⟩ => stored⟩
  case isFalse h =>
    constructor
    · intro stored
      cases stored
    · rintro ⟨pos, held, -⟩
      exact absurd ⟨pos, held⟩ h

theorem store_exists (start : 0 ≤ off) (fits : off + bytes.length ≤ s.total) (some' : s.msg.isSome) :
    ∃ t, s.store off bytes = some t := by
  unfold store
  rw [dif_pos ⟨start, fits⟩]
  split
  · rename_i null
    rw [null] at some'
    cases some'
  · exact ⟨_, rfl⟩

/-- A store of nothing inside the buffer. -/
theorem store_nil_iff (start : 0 ≤ off) (within : off ≤ s.total) (some' : s.msg.isSome) :
    s.store off [] = some t ↔ t = s := by
  obtain ⟨m, eq⟩ := Option.isSome_iff_exists.mp some'
  rw [store_eq_some_iff]
  constructor
  · rintro ⟨-, -, len, total, m', eq', buf⟩
    rw [poke_nil, ← eq'] at buf
    cases s
    cases t
    simp only [ProtoStMsg.mk.injEq]
    exact ⟨buf, len, total⟩
  · rintro rfl
    exact ⟨start, by simpa using within, rfl, rfl, m, eq, by rw [poke_nil, eq]⟩

/-- **Two stores side by side are one store.** -/
theorem store_append : s.store off (xs ++ ys) = some t ↔
    ∃ s', s.store off xs = some s' ∧ s'.store (off + xs.length) ys = some t := by
  constructor
  · intro stored
    obtain ⟨start, fits, len, total, m, eq, buf⟩ := store_eq_some_iff.mp stored
    rw [List.length_append, Int.natCast_add] at fits
    have size := s.room m eq
    refine ⟨⟨some (poke m off.toNat xs), s.len, s.total, ?_⟩, ?_, ?_⟩
    · intro m' eq'
      cases eq'
      rw [length_poke (by omega), size]
    · exact store_eq_some_iff.mpr ⟨start, by omega, rfl, rfl, m, eq, rfl⟩
    · refine store_eq_some_iff.mpr ⟨by omega, by simp only; omega, len, total, _, rfl, ?_⟩
      rw [buf, show (off + xs.length).toNat = off.toNat + xs.length by omega, poke_poke ys (by omega)]
  · rintro ⟨s', first, second⟩
    obtain ⟨start, fits, len, total, m, eq, buf⟩ := store_eq_some_iff.mp first
    obtain ⟨-, fits', len', total', m', eq', buf'⟩ := store_eq_some_iff.mp second
    cases buf.symm.trans eq'
    have size := s.room m eq
    refine store_eq_some_iff.mpr ⟨start, ?_, len'.trans len, total'.trans total, m, eq, ?_⟩
    · rw [List.length_append, Int.natCast_add]
      omega
    · rw [buf', show (off + xs.length).toNat = off.toNat + xs.length by omega, poke_poke ys (by omega)]

end

end ProtoStMsg

/-- `int2hex2str`, what it prints -/
def int2hex2str (lValue : Int) (lCharLen : Nat) : List Byte := printHex lCharLen lValue

/-- `int2str`, what it prints -/
def int2str (lValue : Int) (lCharLen : Nat) : List Byte := printPadded lCharLen lValue

/-- `int n = strlen(s)` -/
def strlenInt (s : List Byte) : Int := (s.length : Int).bmod (2 ^ 32)

/-- `sprintf` into an array of `size` bytes on the stack, with its terminator. -/
def onStack (size : Nat) (text : List Byte) : Option (List Byte) :=
  if text.length + 1 ≤ size then some text else none

/-- `PROTO_MakeDataHead`: its result and the message. The length digits go to offset 8, the four
bytes of `PROTOCOL_LOAD_OFFSET` stay zero. -/
def protoMakeDataHead (stMsg : ProtoStMsg) (cmd : Int) : Option (Int × ProtoStMsg) := do
  let acCmd ← onStack 5 (int2str cmd protocolCmdLength)
  if acCmd.length ≠ 4 then
    return (0, stMsg)
  match stMsg.msg with
  | none => return (0, { stMsg with len := 0 })
  | some _ =>
    let s ← stMsg.clear.store 0 protocolVersion
    let s ← s.store 4 acCmd
    let acLen ← onStack 7 (int2hex2str 0 protocolLoadLength)
    let s ← s.store 8 (acLen.take protocolLoadLength)
    return (protocolHeadLength, { s with len := protocolHeadLength })

section
variable (array : Nat)

/-- `PROTO_SetDataPackLen` -/
def protoSetDataPackLen (stMsg : ProtoStMsg) (len : Int) : Option ProtoStMsg := do
  let acLen ← onStack array (int2hex2str len protocolLoadLength)
  stMsg.store protocolLoadOffset (acLen.take protocolLoadLength)

/-- `PROTO_AddOneItem`: its result and the message. A string is the bytes before its terminator,
`pValue` the bytes that can be read there. -/
def protoAddOneItem (stMsg : ProtoStMsg) (pName pValue : Option (List Byte)) (lValueLen : Int) :
    Option (Int × ProtoStMsg) :=
  if stMsg.len < protocolLoadLength then some (-1, stMsg)
  else
    match pName with
    | none => some (-1, stMsg)
    | some name =>
      let lNameLen := strlenInt name
      let lNewLen := 2 + 6 + lNameLen + lValueLen
      if stMsg.msg.isNone then some (-1, stMsg)
      else if lNameLen > 0xFF then some (-1, stMsg)
      else if lValueLen > 0xFFFFFF then some (-1, stMsg)
      else do
        let acLen ← onStack array (int2hex2str lNameLen 2)
        let s ← stMsg.store stMsg.len (acLen.take 2)
        let acLen ← onStack array (int2hex2str lValueLen 6)
        let s ← s.store (stMsg.len + 2) (acLen.take 6)
        let s ← s.memcpy (stMsg.len + 2 + 6) name lNameLen
        let s ← s.memcpyValue (stMsg.len + 2 + 6 + lNameLen) pValue lValueLen
        let s := { s with len := stMsg.len + lNewLen }
        let s ← protoSetDataPackLen array s (s.len - protocolHeadLength)
        return (s.len, s)

/-- `PROTO_AddOneItemInt` -/
def protoAddOneItemInt (stMsg : ProtoStMsg) (pName : Option (List Byte)) (nValue : Int) :
    Option (Int × ProtoStMsg) :=
  let acValue := printInt nValue
  protoAddOneItem array stMsg pName (some acValue) acValue.length

/-- `PROTO_MakeRegistMsg` -/
def protoMakeRegistMsg (stMsg : ProtoStMsg) (pcDeviceSerial pcDeviceName : List Byte) :
    Option (Int × ProtoStMsg) := do
  let (_, s) ← protoMakeDataHead stMsg protocolRegist
  let (_, s) ← protoAddOneItem array s (some (ascii "DeviceSerial")) (some pcDeviceSerial) (strlenInt pcDeviceSerial)
  protoAddOneItem array s (some (ascii "DeviceName")) (some pcDeviceName) (strlenInt pcDeviceName)

/-- `PROTO_MakeSdpMsg` -/
def protoMakeSdpMsg (stMsg : ProtoStMsg) (sdp : Option (List Byte)) (sdpLen : Int) :
    Option (Int × ProtoStMsg) := do
  let (_, s) ← protoMakeDataHead stMsg protocolReplyAsksdp
  let (_, s) ← protoAddOneItem array s (some (ascii "Ret")) (some (ascii "1")) 1
  protoAddOneItem array s (some (ascii "Data")) sdp sdpLen

/-- `PROTO_MakeAVDataMsg`: it stops at the first item that is refused. -/
def protoMakeAVDataMsg (stMsg : ProtoStMsg) (data : Option (List Byte)) (type : List Byte) (dataLen : Int) :
    Option (Int × ProtoStMsg) := do
  let (_, s) ← protoMakeDataHead stMsg protocolReplyAskdata
  let (ret, s) ← protoAddOneItem array s (some (ascii "Ret")) (some (ascii "1")) 1
  if ret < 0 then
    return (-1, s)
  let (ret, s) ← protoAddOneItem array s (some (ascii "Type")) (some type) (strlenInt type)
  if ret < 0 then
    return (-2, s)
  let (ret, s) ← protoAddOneItem array s (some (ascii "Data")) data dataLen
  if ret < 0 then
    return (-3, s)
  return (0, s)

end

theorem onStack_eq_some_iff {size : Nat} {text t : List Byte} :
    onStack size text = some t ↔ text.length < size ∧ t = text := by
  unfold onStack
  split
  case isTrue h =>
    rw [Option.some.injEq]
    exact ⟨fun same => ⟨h, same.symm⟩, fun same => same.2.symm⟩
  case isFalse h =>
    constructor
    · intro printed
      cases printed
    · rintro ⟨fits, -⟩
      exact absurd fits h

/-- The first characters of a field that is printed at least that wide. -/
theorem length_field (n : Int) (width : Nat) : ((int2hex2str n width).take width).length = width := by
  rw [List.length_take, int2hex2str, printHex, length_zeroPad]
  omega

theorem onStack_of_lt {size : Nat} {text : List Byte} (fits : text.length < size) :
    onStack size text = some text := onStack_eq_some_iff.mpr ⟨fits, rfl⟩

theorem strlenInt_le (text : List Byte) : strlenInt text ≤ text.length := by
  have word : (2 ^ 32 : Nat) = 4294967296 := by decide
  unfold strlenInt
  rw [Int.bmod_def, word]
  split <;> omega

/-! ## The head -/

/-- What a new message starts with: version, command and, where no reader looks for them, the length
digits. -/
def headBytes (cmd : Int) : List Byte := protocolVersion ++ (int2str cmd protocolCmdLength ++ [48, 48, 48, 48])

section
variable {s : ProtoStMsg} {cmd : Int}

/-- A command that does not print as four characters makes no head. -/
theorem makeDataHead_refused (fits : (int2str cmd protocolCmdLength).length < 5)
    (other : (int2str cmd protocolCmdLength).length ≠ 4) : protoMakeDataHead s cmd = some (0, s) := by
  unfold protoMakeDataHead
  rw [onStack_of_lt fits, Option.bind_eq_bind, Option.bind_some, if_pos other]
  rfl

theorem makeDataHead_null (four : (int2str cmd protocolCmdLength).length = 4) (null : s.msg = none) :
    protoMakeDataHead s cmd = some (0, { s with len := 0 }) := by
  unfold protoMakeDataHead
  rw [onStack_of_lt (by omega), Option.bind_eq_bind, Option.bind_some, if_neg (by omega)]
  split
  · rfl
  · rename_i m eq
    rw [null] at eq
    cases eq

/-- The head of a message and zeros behind it. -/
theorem makeDataHead_made (four : (int2str cmd protocolCmdLength).length = 4) (msg : s.msg.isSome)
    (room : protocolHeadLength ≤ s.total) : ∃ t, protoMakeDataHead s cmd = some (protocolHeadLength, t) ∧
      t.len = protocolHeadLength ∧ t.total = s.total ∧
      t.msg = some (headBytes cmd ++ List.replicate (s.total - 12) 0) := by
  have sixteen : protocolHeadLength = 16 := rfl
  have twelve : (headBytes cmd).length = 12 := by
    simp [headBytes, protocolVersion, four]
  obtain ⟨t, made⟩ := s.clear.store_exists (show (0 : Int) ≤ 0 by omega)
    (show 0 + ((headBytes cmd).length : Int) ≤ s.total by omega) rfl
  obtain ⟨-, -, -, total, m, eq, buf⟩ := ProtoStMsg.store_eq_some_iff.mp made
  obtain ⟨a, first, rest⟩ := ProtoStMsg.store_append.mp made
  obtain ⟨b, second, third⟩ := ProtoStMsg.store_append.mp rest
  rw [four] at third
  have zeros : int2hex2str 0 protocolLoadLength = [48, 48, 48, 48] := by decide
  refine ⟨{ t with len := protocolHeadLength }, ?_, rfl, total, ?_⟩
  · unfold protoMakeDataHead
    rw [onStack_of_lt (by omega), Option.bind_eq_bind, Option.bind_some, if_neg (by omega)]
    have second : a.store 4 (int2str cmd protocolCmdLength) = some b := second
    have third : b.store 8 (List.take protocolLoadLength [48, 48, 48, 48]) = some t := third
    split
    · rename_i null
      rw [null] at msg
      cases msg
    · rw [Option.bind_eq_bind, first, Option.bind_some, second, Option.bind_some,
        zeros, onStack_of_lt (by simp only [List.length_cons, List.length_nil]; omega), Option.bind_some, third]
      rfl
  · cases eq
    rw [buf, show (0 : Int).toNat = 0 from rfl, poke_zero, List.drop_replicate, twelve]

end

/-! ## One item -/

/-- The arguments of one `PROTO_AddOneItem`: where `pValue` is not NULL, the caller has the
`lValueLen` bytes it announces. -/
structure Item where
  pName : Option (List Byte)
  pValue : Option (List Byte)
  lValueLen : Int
  held : ∀ value ∈ pValue, lValueLen ≤ value.length
  deriving DecidableEq

namespace Item

/-- What `PROTO_AddOneItemInt` passes on. -/
def ofInt (pName : Option (List Byte)) (nValue : Int) : Item where
  pName := pName
  pValue := some (printInt nValue)
  lValueLen := (printInt nValue).length
  held := by
    intro value eq
    cases eq
    omega

/-- `PROTO_AddOneItem` of it. -/
def add (array : Nat) (stMsg : ProtoStMsg) (item : Item) : Option (Int × ProtoStMsg) :=
  protoAddOneItem array stMsg item.pName item.pValue item.lValueLen

def name (item : Item) : List Byte := item.pName.getD []

def lNameLen (item : Item) : Int := strlenInt item.name

def lNewLen (item : Item) : Int := 2 + 6 + item.lNameLen + item.lValueLen

/-- The value bytes it stores. -/
def stored (item : Item) : List Byte :=
  match item.pValue with
  | none => []
  | some value => value.take item.lValueLen.toNat

/-- Everything it stores behind the message. -/
def bytes (item : Item) : List Byte :=
  (int2hex2str item.lNameLen 2).take 2 ++
    ((int2hex2str item.lValueLen 6).take 6 ++ (item.name.take item.lNameLen.toNat ++ item.stored))

/-- The call passes the checks. -/
structure Accepted (s : ProtoStMsg) (item : Item) : Prop where
  head : protocolLoadLength ≤ s.len
  named : item.pName.isSome
  msg : s.msg.isSome
  name : item.lNameLen ≤ 0xFF
  value : item.lValueLen ≤ 0xFFFFFF

/-- Its numbers fit the arrays on the stack, and its lengths are no negative ones that are copied. -/
structure Printed (array : Nat) (s : ProtoStMsg) (item : Item) : Prop where
  name : (int2hex2str item.lNameLen 2).length < array
  value : (int2hex2str item.lValueLen 6).length < array
  load : (int2hex2str (s.len + item.lNewLen - protocolHeadLength) protocolLoadLength).length < array
  named : 0 ≤ item.lNameLen
  held : item.pValue.isSome → 0 ≤ item.lValueLen

section
variable {array : Nat} {s t : ProtoStMsg} {item : Item} {ret : Int}

/-- A call that fails its checks changes nothing. -/
theorem add_rejected (no : ¬ item.Accepted s) : item.add array s = some (-1, s) := by
  unfold add protoAddOneItem
  split
  · rfl
  · rename_i head
    split
    · rfl
    · rename_i name named
      simp only
      have same : item.name = name := by
        rw [Item.name, named, Option.getD_some]
      split
      · rfl
      · rename_i msg
        split
        · rfl
        · rename_i nameLen
          split
          · rfl
          · rename_i valueLen
            refine absurd ⟨by omega, ?_, ?_, ?_, by omega⟩ no
            · rw [named, Option.isSome_some]
            · simpa [Option.isNone_iff_eq_none, Option.isSome_iff_ne_none] using msg
            · rw [lNameLen, same]
              omega

/-- The value is stored behind the name. -/
theorem memcpyValue_iff {off : Int} (start : 0 ≤ off) (within : off ≤ s.total) (some' : s.msg.isSome) :
    s.memcpyValue off item.pValue item.lValueLen = some t ↔
      (item.pValue.isSome → 0 ≤ item.lValueLen) ∧ s.store off item.stored = some t := by
  unfold ProtoStMsg.memcpyValue stored
  have held := item.held
  cases eq : item.pValue with
  | none => simp [ProtoStMsg.store_nil_iff start within some', eq_comm]
  | some value =>
    have fits := held value eq
    rw [ProtoStMsg.memcpy_eq_some_iff]
    exact ⟨fun ⟨pos, _, stored⟩ => ⟨fun _ => pos, stored⟩, fun ⟨pos, stored⟩ => ⟨pos rfl, fits, stored⟩⟩

theorem length_taken (named : 0 ≤ item.lNameLen) :
    ((item.name.take item.lNameLen.toNat).length : Int) = item.lNameLen := by
  have within := strlenInt_le item.name
  rw [List.length_take]
  rw [lNameLen] at named ⊢
  omega

/-- The stores of an accepted call are one store behind the message and one in the head. -/
theorem add_stores (yes : item.Accepted s) : item.add array s = some (ret, t) ↔
    item.Printed array s ∧ ret = s.len + item.lNewLen ∧ ∃ a, s.store s.len item.bytes = some a ∧
      ({ a with len := s.len + item.lNewLen } : ProtoStMsg).store protocolLoadOffset
        ((int2hex2str (s.len + item.lNewLen - protocolHeadLength) protocolLoadLength).take
          protocolLoadLength) = some t := by
  obtain ⟨head, named, msg, nameLen, valueLen⟩ := yes
  obtain ⟨name, eq⟩ := Option.isSome_iff_exists.mp named
  have same : item.name = name := by
    rw [Item.name, eq, Option.getD_some]
  have taken := strlenInt_le item.name
  have four : (protocolLoadLength : Int) = 4 := rfl
  have fold : strlenInt item.name = item.lNameLen := rfl
  unfold add protoAddOneItem protoSetDataPackLen
  rw [if_neg (by omega), eq]
  simp only
  rw [if_neg (by simpa [Option.isSome_iff_ne_none] using msg), ← same, if_neg (by exact Int.not_lt.mpr nameLen),
    if_neg (by omega)]
  simp only [Option.bind_eq_bind, Option.bind_eq_some_iff, onStack_eq_some_iff,
    ProtoStMsg.memcpy_eq_some_iff]
  constructor
  · rintro ⟨_, ⟨fits2, rfl⟩, a, first, _, ⟨fits6, rfl⟩, b, second, c, ⟨pos, -, third⟩, d, fourth, e,
      ⟨_, ⟨fits4, rfl⟩, last⟩, done⟩
    cases done
    have inside := ProtoStMsg.store_eq_some_iff.mp third
    obtain ⟨start, within, -, total, m, -, buf⟩ := inside
    have within : s.len + 2 + 6 + ((item.name.take item.lNameLen.toNat).length : Int) ≤ b.total := within
    rw [length_taken pos] at within
    rw [memcpyValue_iff (by omega) (by omega) (by rw [buf, Option.isSome_some])] at fourth
    have len : t.len = s.len + item.lNewLen := (ProtoStMsg.store_eq_some_iff.mp last).2.2.1
    refine ⟨⟨fits2, fits6, fits4, pos, fourth.1⟩, len, d, ?_, last⟩
    refine ProtoStMsg.store_append.mpr ⟨a, first, ProtoStMsg.store_append.mpr ⟨b, ?_,
      ProtoStMsg.store_append.mpr ⟨c, ?_, ?_⟩⟩⟩
    · rwa [length_field]
    · rwa [length_field, length_field]
    · rw [length_field, length_field, length_taken pos]
      exact fourth.2
  · rintro ⟨⟨fits2, fits6, fits4, pos, held⟩, rfl, d, joined, last⟩
    obtain ⟨a, first, joined⟩ := ProtoStMsg.store_append.mp joined
    obtain ⟨b, second, joined⟩ := ProtoStMsg.store_append.mp joined
    obtain ⟨c, third, fourth⟩ := ProtoStMsg.store_append.mp joined
    rw [length_field] at second third fourth
    rw [length_field] at third fourth
    rw [length_taken pos] at fourth
    obtain ⟨start, within, -, total, m, -, buf⟩ := ProtoStMsg.store_eq_some_iff.mp third
    rw [length_taken pos] at within
    refine ⟨_, ⟨fits2, rfl⟩, a, first, _, ⟨fits6, rfl⟩, b, second, c, ⟨pos, taken, third⟩, d, ?_, t,
      ⟨_, ⟨fits4, rfl⟩, last⟩, ?_⟩
    · exact (memcpyValue_iff (by omega) (by omega) (by rw [buf, Option.isSome_some])).mpr ⟨held, fourth⟩
    · rw [(ProtoStMsg.store_eq_some_iff.mp last).2.2.1]
      rfl

/-- **What an accepted call does** when its stores stay inside the buffer, and only then. -/
theorem add_eq_some_iff (yes : item.Accepted s) : item.add array s = some (ret, t) ↔
    item.Printed array s ∧ s.len + item.bytes.length ≤ s.total ∧ protocolHeadLength ≤ s.total ∧
      ret = s.len + item.lNewLen ∧ t.len = s.len + item.lNewLen ∧ t.total = s.total ∧
      ∃ m, s.msg = some m ∧ t.msg = some (poke (poke m s.len.toNat item.bytes) protocolLoadOffset
        ((int2hex2str (s.len + item.lNewLen - protocolHeadLength) protocolLoadLength).take
          protocolLoadLength)) := by
  have field := length_field (s.len + item.lNewLen - protocolHeadLength) protocolLoadLength
  have four : protocolLoadLength = 4 := rfl
  have twelve : (protocolLoadOffset : Int) = 12 := rfl
  have sixteen : protocolHeadLength = 16 := rfl
  have head := yes.head
  rw [add_stores yes]
  constructor
  · rintro ⟨printed, result, a, behind, digits⟩
    obtain ⟨-, fits, -, total, m, eq, buf⟩ := ProtoStMsg.store_eq_some_iff.mp behind
    obtain ⟨-, room, newLen, newTotal, m', eq', buf'⟩ := ProtoStMsg.store_eq_some_iff.mp digits
    cases buf.symm.trans eq'
    have room : (protocolLoadOffset : Int) + _ ≤ (a.total : Int) := room
    exact ⟨printed, fits, by omega, result, newLen, newTotal.trans total, m, eq, buf'⟩
  · rintro ⟨printed, fits, room, result, newLen, newTotal, m, eq, buf'⟩
    obtain ⟨a, behind⟩ := s.store_exists (show 0 ≤ s.len by omega) fits yes.msg
    obtain ⟨-, -, -, total, m', eq', buf⟩ := ProtoStMsg.store_eq_some_iff.mp behind
    cases eq.symm.trans eq'
    refine ⟨printed, result, a, behind, ProtoStMsg.store_eq_some_iff.mpr ⟨by omega, ?_, newLen,
      newTotal.trans total.symm, _, buf, buf'⟩⟩
    show (protocolLoadOffset : Int) + _ ≤ (a.total : Int)
    omega

/-- It comes back when there is room. -/
theorem add_exists (yes : item.Accepted s) (printed : item.Printed array s)
    (fits : s.len + item.bytes.length ≤ s.total) (room : protocolHeadLength ≤ s.total) :
    ∃ t, item.add array s = some (s.len + item.lNewLen, t) := by
  have field := length_field (s.len + item.lNewLen - protocolHeadLength) protocolLoadLength
  have four : protocolLoadLength = 4 := rfl
  have twelve : (protocolLoadOffset : Int) = 12 := rfl
  have sixteen : protocolHeadLength = 16 := rfl
  have head := yes.head
  obtain ⟨a, behind⟩ := s.store_exists (show 0 ≤ s.len by omega) fits yes.msg
  obtain ⟨-, -, -, total, m, -, buf⟩ := ProtoStMsg.store_eq_some_iff.mp behind
  obtain ⟨t, digits⟩ := ({ a with len := s.len + item.lNewLen } : ProtoStMsg).store_exists
    (show (0 : Int) ≤ protocolLoadOffset by omega)
    (show (protocolLoadOffset : Int) + ((int2hex2str (s.len + item.lNewLen - protocolHeadLength)
      protocolLoadLength).take protocolLoadLength).length ≤ (a.total : Int) by omega)
    (show a.msg.isSome by rw [buf, Option.isSome_some])
  exact ⟨t, (add_stores yes).mpr ⟨printed, rfl, a, behind, digits⟩⟩

end

end Item

/-- One call that adds an item. -/
inductive ItemCall where
  | addOneItem (item : Item)
  | addOneItemInt (pName : Option (List Byte)) (nValue : Int)
  deriving DecidableEq

namespace ItemCall

def run (array : Nat) (stMsg : ProtoStMsg) : ItemCall → Option (Int × ProtoStMsg)
  | addOneItem item => protoAddOneItem array stMsg item.pName item.pValue item.lValueLen
  | addOneItemInt pName nValue => protoAddOneItemInt array stMsg pName nValue

/-- The item that the call adds. -/
def item : ItemCall → Item
  | addOneItem item => item
  | addOneItemInt pName nValue => Item.ofInt pName nValue

theorem run_eq (array : Nat) (stMsg : ProtoStMsg) (call : ItemCall) :
    call.run array stMsg = call.item.add array stMsg := by
  cases call <;> rfl

end ItemCall

end GreatEvent
