import GreatEvent.Lib.CString
import GreatEvent.Client.TcpConnect

/-!
# `CNetDataClient`: the player's connection

Requests go out as whole messages (`SendCmd`); `Work` takes what arrives with
`RecvData`, frame after frame, into one buffer. A caller of `ExecCmd` leaves
its `WAIT_INFO` in `m_mapWait` under the index of its request and waits for
`DefNetMessage` to fill it in.
-/

namespace GreatEvent

open Lib

/-- The size of `Work`'s buffer, the `nLength` it passes to `RecvData`. -/
def workBufferLen : Nat := 1025 * 1024

/-- The memory `malloc(workBufferLen)` returned. -/
structure WorkBuffer where
  bytes : List Byte
  sized : bytes.length = workBufferLen

namespace WorkBuffer

theorem length_store {bs data : List Byte} (sized : bs.length = workBufferLen)
    (fits : data.length ≤ workBufferLen) : (data ++ bs.drop data.length).length = workBufferLen := by
  rw [List.length_append, List.length_drop, sized]
  omega

/-- `data` received at the start of the buffer. -/
def store (b : WorkBuffer) (data : List Byte) (fits : data.length ≤ workBufferLen) : WorkBuffer :=
  ⟨data ++ b.bytes.drop data.length, length_store b.sized fits⟩

end WorkBuffer

/-- `sizeof(WAIT_INFO::szWait)` -/
def szWaitLen : Nat := 1024

/-- `WAIT_INFO`; `signalled` is the state of the event `hWait` points to. -/
structure WaitInfo where
  signalled : Bool
  nRetLen : Nat
  szWait : List Byte

/-- `memset(&wi,0,sizeof(wi))` -/
def WaitInfo.zero : WaitInfo := ⟨false, 0, List.replicate szWaitLen 0⟩

/-- An activation of `ExecCmd`: its `nIndex`, its `wi`, and whether it has returned. -/
structure ExecCall where
  nIndex : Int64
  wi : WaitInfo
  done : Bool

/-- `ExecCmd` has taken its index. -/
def ExecCall.begin (nIndex : Int64) : ExecCall := ⟨nIndex, .zero, false⟩

/-- `CNetDataClient` on an open connection: what has arrived and has not been read, what the socket
has accepted, `Work`'s buffer and what it has written to `mwFile`. An entry of `m_mapWait` points
to the `wi` of a call, here by the call's number. -/
structure NetDataClient where
  inp : List Byte
  wire : List Byte
  isOpen : Bool
  lpData : WorkBuffer
  mwFile : List Byte
  m_nIndex : Int64
  m_mapWait : List (Int64 × Nat)
  calls : List ExecCall

namespace NetDataClient

/-! ## Sending -/

/-- `Send(lpData, nLength)` when the socket accepts so many bytes before it fails. -/
def send (accepts : Nat) (bytes : List Byte) (c : NetDataClient) : Bool × NetDataClient :=
  if c.isOpen then (bytes.length ≤ accepts, { c with wire := c.wire ++ bytes.take accepts })
  else (false, c)

/-- `SendCmd` -/
def sendCmd (accepts : Nat) (dwCmd : ModuleMsg) (dwIndex : UInt32) (lpData : List Byte)
    (c : NetDataClient) : Bool × NetDataClient :=
  let nc : NetCmd := ⟨netFlag, dwCmd.code, dwIndex, UInt32.ofNat lpData.length⟩
  let head := c.send accepts nc.bytes
  if head.1 then
    if lpData.length = 0 then (true, head.2)
    else head.2.send (accepts - nc.bytes.length) lpData
  else (false, head.2)

/-! ## Receiving -/

/-- `Recv(&nc, sizeof(NET_CMD))` and the check of its flag. -/
def recvHead (cuts : List Nat) (inp : List Byte) : Received × Option NetCmd :=
  let r := tcpRecv cuts packHeadLen inp
  if r.ok then
    let nc := NetCmd.ofBytes r.data
    (r, if nc.dwFlag = netFlag then some nc else none)
  else (r, none)

/-- `RecvCmd` into a buffer of `nLength` bytes: the header and the data received, if it succeeds. -/
def recvCmd (cuts : List Nat) (nLength : Nat) (c : NetDataClient) :
    Option (NetCmd × List Byte) × NetDataClient :=
  match recvHead cuts c.inp with
  | (r, none) => (none, { c with inp := r.inp })
  | (r, some nc) =>
    if nc.dwLength = 0 then (some (nc, []), { c with inp := r.inp })
    else if nLength < nc.dwLength.toNat then (none, { c with inp := r.inp })
    else
      let d := tcpRecv r.cuts nc.dwLength.toNat r.inp
      (if d.ok then some (nc, d.data) else none, { c with inp := d.inp })

/-- `RecvData` on `MODULE_MSG_VIDEO`, what it does with the payload in `lpData`. Written past the
buffer it faults. -/
def storeVideo (c : NetDataClient) : Option NetDataClient :=
  let dwFrameType := wordAt c.lpData.bytes 0
  let nLength := asInt (wordAt c.lpData.bytes 4)
  if dwFrameType = 1 ∨ dwFrameType = 2 then
    if 0 ≤ nLength ∧ AvFrame.size + nLength ≤ workBufferLen then
      some { c with mwFile := c.mwFile ++ (c.lpData.bytes.drop AvFrame.size).take nLength.toNat }
    else none
  else some c

/-- `RecvData`: its result, and `none` for a read outside the buffer. -/
def recvData (cuts : List Nat) (c : NetDataClient) : Option (Bool × NetDataClient) :=
  match recvHead cuts c.inp with
  | (r, none) => some (false, { c with inp := r.inp })
  | (r, some nc) =>
    if fits : nc.dwLength.toNat ≤ workBufferLen then
      if nc.dwCmd = ModuleMsg.video.code then
        let d := tcpRecv r.cuts nc.dwLength.toNat r.inp
        let c := { c with
          inp := d.inp
          lpData := c.lpData.store d.data (Nat.le_trans (length_tcpRecv_le ..) fits) }
        if d.ok then c.storeVideo.map fun c => (true, c) else some (false, c)
      else some (nc.dwCmd ≠ ModuleMsg.dataEnd.code, { c with inp := r.inp })
    else some (false, { c with inp := r.inp })

/-! ## Requests that are answered -/

/-- `GetIndex`; the index steps over 0. -/
def getIndex (m_nIndex : Int64) : Int64 :=
  if m_nIndex + 1 = 0 then m_nIndex + 1 + 1 else m_nIndex + 1

/-- `m_mapWait` without the entry of an index. -/
def erase (nIndex : Int64) (m_mapWait : List (Int64 × Nat)) : List (Int64 × Nat) :=
  m_mapWait.filter fun entry => entry.1 ≠ nIndex

/-- `ExecCmd` up to its wait: the index is registered and the request sent. `none` is a failed
`SendCmd`, for which `ExecCmd` returns the empty string. -/
def execCmd (accepts : Nat) (dwMsg : ModuleMsg) (szMsg : List Byte) (c : NetDataClient) :
    Option Nat × NetDataClient :=
  let nIndex := getIndex c.m_nIndex
  let call := c.calls.length
  let c := { c with
    m_nIndex := nIndex
    m_mapWait := (nIndex, call) :: erase nIndex c.m_mapWait
    calls := c.calls ++ [ExecCall.begin nIndex] }
  let (sent, c) := c.sendCmd accepts dwMsg nIndex.toUInt64.toUInt32 szMsg
  if sent then (some call, c)
  else (none, { c with m_mapWait := erase nIndex c.m_mapWait })

/-- `ExecCmd` from the end of its wait: the string it returns. -/
def execReturns (call : Nat) (c : NetDataClient) : Option (List Byte × NetDataClient) :=
  match c.calls[call]? with
  | some ⟨nIndex, wi, false⟩ =>
    some (cstr wi.szWait, { c with
      m_mapWait := erase nIndex c.m_mapWait
      calls := c.calls.set call ⟨nIndex, wi, true⟩ })
  | _ => none

/-- `DefNetMessage`; a reply longer than `szWait` faults. -/
def defNetMessage (dwMsg : UInt32) (dwIndex : UInt32) (lpData : List Byte) (c : NetDataClient) :
    Option NetDataClient :=
  if dwMsg = ModuleMsg.exeRet.code then
    match c.m_mapWait.find? fun entry => entry.1 = dwIndex.toUInt64.toInt64 with
    | some (_, call) =>
      if lpData.length ≤ szWaitLen then
        some { c with calls := c.calls.modify call fun e => { e with
          wi := { signalled := true, nRetLen := lpData.length, szWait := poke e.wi.szWait 0 lpData } } }
      else none
    | none => some c
  else some c

theorem length_zeroBuffer : (List.replicate workBufferLen (0 : Byte)).length = workBufferLen :=
  List.length_replicate

/-- A connected client that has read nothing. -/
def fresh (inp : List Byte) : NetDataClient where
  inp := inp
  wire := []
  isOpen := true
  lpData := ⟨List.replicate workBufferLen 0, length_zeroBuffer⟩
  mwFile := []
  m_nIndex := 0
  m_mapWait := []
  calls := []

end NetDataClient

end GreatEvent
