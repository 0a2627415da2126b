import GreatEvent.Client.ControlCodec
import GreatEvent.Client.FrameReading

/-!
# A player and the task that plays to it

The two ends of a playback connection: the task with its callbacks, the
player with its `Work` thread and the calls of its user. `Work` reads frames
with `RecvData` and does nothing else with them: its calls of `DefNetMessage`
are commented out, and there is no other caller. It leaves its loop with the
first `RecvData` that fails.
-/

namespace GreatEvent

open Lib

/-- What the player's threads do: `ConnectServer` waits for the login reply, `Work` reads, or neither. -/
inductive Phase where
  | opening
  | working
  | idle
  deriving DecidableEq

/-- The two ends of a playback connection. -/
structure PlaybackLink where
  server : World TaskPlayback
  client : PlayBackClient
  phase : Phase

/-- A step of the system. A call of the user is labelled with what it returns. -/
inductive LinkStep where
  | server (e : Event)
  | opened (cuts : List Nat)
  | work (cuts : List Nat)
  | disconnect
  | start (accepts : Nat) (dwStart dwEnd : UInt32)
  | setPlayPause (accepts : Nat) (bPause ret : Bool)
  | seek (accepts : Nat) (dwStart : UInt32)
  | seekReturns (call : Nat) (ret : Bool)
  deriving DecidableEq

/-- Bytes arrive at the player, if its socket is open. -/
def PlayBackClient.arrive (c : PlayBackClient) (bytes : List Byte) : PlayBackClient :=
  if c.net.isOpen then { c with net := { c.net with inp := c.net.inp ++ bytes } } else c

namespace PlaybackLink

/-- A call of the player has sent what there is more on its wire. -/
def afterCall (l : PlaybackLink) (c : PlayBackClient) : PlaybackLink :=
  { l with
    server := l.server.arrive (c.net.wire.drop l.client.net.wire.length)
    client := c }

/-- `lpRet->lRet`: the reply lies over the request in `lpData`, and an empty one leaves it there. -/
def lRet (lpData : List Byte) : UInt32 :=
  wordAt (lpData ++ (ascii "<play path=\"").drop lpData.length) 0

/-- `ConnectServer` after the login has been sent: its `RecvCmd` and the checks of the reply. -/
def opened (cuts : List Nat) (l : PlaybackLink) : PlaybackLink :=
  match l.client.net.recvCmd cuts 2048 with
  | (some (nc, lpData), net) =>
    { l with
      client := { l.client with net := net, m_dwCurPts := 0 }
      phase := if nc.dwCmd = ModuleMsg.loginRet.code ∧ lRet lpData = 0 then .working else .idle }
  | (none, net) => { l with client := { l.client with net := net }, phase := .idle }

/-- `Work`, one round of its loop: what `CanRead` sees, `RecvData` takes. -/
def work (cuts : List Nat) (l : PlaybackLink) : Option PlaybackLink :=
  if l.client.net.inp ≠ [] ∨ l.server.closed then
    (l.client.net.recvData cuts).map fun r =>
      { l with client := { l.client with net := r.2 }, phase := if r.1 then .working else .idle }
  else some l

/-- A step; `none`, it cannot be taken now, or the player has crashed. -/
def step (l : PlaybackLink) : LinkStep → Option PlaybackLink
  | .server e => (fire l.server e).map fun w =>
    { l with server := w, client := l.client.arrive (w.wire.drop l.server.wire.length) }
  | .opened cuts => if l.phase = .opening then some (l.opened cuts) else none
  | .work cuts => if l.phase = .working then l.work cuts else none
  | .disconnect => some { l with
      client := { l.client with net := { l.client.net with isOpen := false } }, phase := .idle }
  | .start accepts dwStart dwEnd => some (l.afterCall (l.client.start accepts dwStart dwEnd).2)
  | .setPlayPause accepts bPause ret =>
    let r := l.client.setPlayPause accepts bPause
    if r.1 = ret then some (l.afterCall r.2) else none
  | .seek accepts dwStart => some (l.afterCall (l.client.seek accepts dwStart).2)
  | .seekReturns call ret =>
    (l.client.seekReturns call).bind fun r =>
      if r.1 = ret then some { l with client := r.2 } else none

/-- The task has been created and has sent its login reply, as far as the socket took it. -/
def start (raw : TagSendBuffer) (mFfmpeg : FfmpegContext) (sends : List SendResult)
    (client : PlayBackClient) : PlaybackLink :=
  let server := TaskPlayback.start raw mFfmpeg [] sends
  { server := server, client := client.arrive server.wire, phase := .opening }

/-- The player in its constructor's state, connected. -/
def fresh (raw : TagSendBuffer) (mFfmpeg : FfmpegContext) (sends : List SendResult) : PlaybackLink :=
  start raw mFfmpeg sends (.connected (.fresh []))

/-- The bytes that the player has taken from its socket. -/
def consumed (l : PlaybackLink) : List Byte :=
  l.server.wire.take (l.server.wire.length - l.client.net.inp.length)

/-- libevent delivers what is registered. -/
def Registered (l : PlaybackLink) (s : LinkStep) (_ : PlaybackLink) : Prop :=
  match s with
  | .server e => l.server.Registered e
  | _ => True

instance (l : PlaybackLink) (s : LinkStep) (l' : PlaybackLink) : Decidable (Registered l s l') :=
  match s with
  | .server e => inferInstanceAs (Decidable (l.server.Registered e))
  | .opened _ | .work _ | .disconnect | .start .. | .setPlayPause .. | .seek .. | .seekReturns .. =>
    isTrue trivial

/-! ## What a step has done -/

section
variable {l l' : PlaybackLink} {cuts : List Nat} {accepts call : Nat} {bPause ret : Bool} {e : Event}

theorem server_of_step (taken : l.step (.server e) = some l') : ∃ w, fire l.server e = some w ∧
    l' = { l with server := w, client := l.client.arrive (w.wire.drop l.server.wire.length) } := by
  obtain ⟨w, fired, same⟩ := Option.map_eq_some_iff.mp taken
  exact ⟨w, fired, same.symm⟩

theorem opened_of_step (taken : l.step (.opened cuts) = some l') :
    l.phase = .opening ∧ l' = l.opened cuts := by
  change (if l.phase = .opening then some (l.opened cuts) else none) = some l' at taken
  split at taken
  case isTrue opening => exact ⟨opening, (Option.some.inj taken).symm⟩
  case isFalse => cases taken

theorem work_of_step (taken : l.step (.work cuts) = some l') :
    l.phase = .working ∧ l.work cuts = some l' := by
  change (if l.phase = .working then l.work cuts else none) = some l' at taken
  split at taken
  case isTrue working => exact ⟨working, taken⟩
  case isFalse => cases taken

theorem setPlayPause_of_step (taken : l.step (.setPlayPause accepts bPause ret) = some l') :
    (l.client.setPlayPause accepts bPause).1 = ret ∧
      l' = l.afterCall (l.client.setPlayPause accepts bPause).2 := by
  change (if (l.client.setPlayPause accepts bPause).1 = ret then
    some (l.afterCall (l.client.setPlayPause accepts bPause).2) else none) = some l' at taken
  split at taken
  case isTrue isRet => exact ⟨isRet, (Option.some.inj taken).symm⟩
  case isFalse => cases taken

theorem seekReturns_of_step (taken : l.step (.seekReturns call ret) = some l') :
    ∃ c, l.client.seekReturns call = some (ret, c) ∧ l' = { l with client := c } := by
  obtain ⟨⟨b, c⟩, returns, same⟩ := Option.bind_eq_some_iff.mp taken
  split at same
  case isTrue isRet =>
    obtain rfl : b = ret := isRet
    exact ⟨c, returns, (Option.some.inj same).symm⟩
  case isFalse => cases same

/-- What `Work` does when it does anything. -/
theorem work_eq_some (taken : l.work cuts = some l') : l' = l ∨
    ∃ ok net, l.client.net.recvData cuts = some (ok, net) ∧
      l' = { l with client := { l.client with net := net }, phase := if ok then .working else .idle } := by
  unfold work at taken
  split at taken
  · obtain ⟨⟨ok, net⟩, received, same⟩ := Option.map_eq_some_iff.mp taken
    exact .inr ⟨ok, net, received, same.symm⟩
  · exact .inl (Option.some.inj taken).symm

end

end PlaybackLink

end GreatEvent
