import GreatEvent.Lib.Decimal
import GreatEvent.Client.NetDataClient

/-!
# `CPlayBackClient`: the player's requests

The requests are texts for the server's `recvPackData`; `Start` and `Seek`
send the terminating NUL with them, `SetPlayPause` does not. What the player
believes of the server is in three flags, which its own requests and
`DefNetMessage` change.
-/

namespace GreatEvent

open Lib

/-- `CPlayBackClient` -/
structure PlayBackClient where
  net : NetDataClient
  m_bDataEnd : Bool
  m_bSend : Bool
  m_bPause : Bool
  m_dwCurPts : UInt32

/-- `<control name="start" tmstart="%d" tmend="%d" />` -/
def startText (dwStart dwEnd : UInt32) : List Byte :=
  ascii "<control name=\"start\" tmstart=\"" ++ (printInt (asInt dwStart) ++
    (ascii "\" tmend=\"" ++ (printInt (asInt dwEnd) ++ ascii "\" />")))

/-- `<control name="setpause" value="0"/>`, or with value 1 -/
def setpauseText (bPause : Bool) : List Byte :=
  if bPause then ascii "<control name=\"setpause\" value=\"1\"/>"
  else ascii "<control name=\"setpause\" value=\"0\"/>"

/-- `<control name="seek" value="%d"/>` -/
def seekText (dwStart : UInt32) : List Byte :=
  ascii "<control name=\"seek\" value=\"" ++ (printInt (asInt dwStart) ++ ascii "\"/>")

namespace PlayBackClient

/-- `Start` -/
def start (accepts : Nat) (dwStart dwEnd : UInt32) (c : PlayBackClient) : Bool × PlayBackClient :=
  let sent := c.net.sendCmd accepts .controlPlay 0 (startText dwStart dwEnd ++ [0])
  (sent.1, { c with m_dwCurPts := dwStart, net := sent.2 })

/-- `SetPlayPause` -/
def setPlayPause (accepts : Nat) (bPause : Bool) (c : PlayBackClient) : Bool × PlayBackClient :=
  if c.m_bPause = bPause then (true, c)
  else if c.m_bDataEnd then (false, c)
  else if bPause && c.m_bSend then (false, c)
  else
    let sent := c.net.sendCmd accepts .controlPlay 0 (setpauseText bPause)
    (sent.1, { c with
      net := sent.2
      m_bSend := sent.1
      m_bPause := if sent.1 then bPause else c.m_bPause })

/-- `Seek` up to the wait in `ExecCmd`: the number of its call. -/
def seek (accepts : Nat) (dwStart : UInt32) (c : PlayBackClient) : Option Nat × PlayBackClient :=
  let sent := c.net.execCmd accepts .controlPlay (seekText dwStart ++ [0])
  (sent.1, { c with net := sent.2 })

/-- `Seek` from the end of the wait on: its result. -/
def seekReturns (call : Nat) (c : PlayBackClient) : Option (Bool × PlayBackClient) := do
  let (s, net) ← c.net.execReturns call
  if s = [] then return (false, { c with net := net })
  else return (true, { c with net := net, m_bDataEnd := false, m_bSend := false })

/-- `DefNetMessage`, what it does to the player. -/
def defNetMessage (dwMsg dwIndex : UInt32) (lpData : List Byte) (c : PlayBackClient) :
    Option PlayBackClient := do
  let net ← c.net.defNetMessage dwMsg dwIndex lpData
  let c := { c with net := net }
  if dwMsg = ModuleMsg.dataEnd.code then return { c with m_bDataEnd := true }
  else if dwMsg = ModuleMsg.sectionEnd.code then return { c with m_bSend := false, m_bPause := true }
  else if dwMsg = ModuleMsg.video.code then return { c with m_dwCurPts := wordAt lpData 8 }
  else return c

/-- A player whose connection is open. -/
def connected (net : NetDataClient) : PlayBackClient := ⟨net, false, false, false, 0⟩

end PlayBackClient

end GreatEvent
