import GreatEvent.Lib.Runs
import GreatEvent.Server.Session

/-!
# The event loop's callbacks

`onRead`, `onWrite` and `onTimer` of `EventCall.cpp` over the session of the
connection. `fire` is one turn of the loop: an event with the `recv` and
`send` results the kernel will give during it. It does not ask whether the
event is registered, so that its runs are all interleavings of callbacks;
`Registered` says which events libevent can really deliver, and a run of
these is a run under that condition.

The callbacks are written over any object with the three methods the session
forwards, so that the same run can be followed for a session and for the
task it has handed the connection to.
-/

namespace GreatEvent

open Lib

/-- The methods of `Session` that the callbacks use. -/
class Callbacks (τ : Type) where
  readBuffer : Act τ Int
  writeBuffer : Act τ Int
  setHeartBeat : Act τ Int

instance : Callbacks Session where
  readBuffer := Session.readBuffer
  writeBuffer := Session.writeBuffer
  setHeartBeat := Session.setHeartBeat

instance : Callbacks TaskPlayback where
  readBuffer := TaskPlayback.readBuffer
  writeBuffer := TaskPlayback.writeBuffer
  setHeartBeat := TaskPlayback.setHeartCount

instance : Callbacks TaskFileSend where
  readBuffer := TaskFileSend.readBuffer
  writeBuffer := TaskFileSend.writeBuffer
  setHeartBeat := TaskFileSend.setHeartCount

instance : Callbacks TaskFileRecv where
  readBuffer := TaskFileRecv.readBuffer
  writeBuffer := TaskFileRecv.writeBuffer
  setHeartBeat := TaskFileRecv.setHeartCount

namespace EventCall

section
variable {τ : Type}

/-- The session is removed from the manager, its events are deleted, it is freed and the socket
closed. -/
def teardown (by' : Teardown) : Act τ Unit := do
  emit (.teardown by')
  modify fun w =>
    { w with readEvent := false, writeEvent := false, timeEvent := false, closed := true }

variable [Callbacks τ]

/-- `onRead`; `readable` is `EV_READ & events`, which a timeout does not have. -/
def onRead (readable : Bool) : Act τ Unit := do
  modify fun w => { w with mReading := false }
  if readable then
    let ret ← Callbacks.readBuffer
    if ret = 0 then teardown .onRead else addReadEvent
  else addReadEvent

/-- `onWrite`; `writable` is `EV_WRITE & events`. -/
def onWrite (writable : Bool) : Act τ Unit := do
  modify fun w => { w with mWriting := false }
  let ret ← if writable then Callbacks.writeBuffer else pure 0
  if ret = ownSockExit then teardown .onWrite
  else if ret ≠ 0 then addWriteEvent

/-- `onTimer` -/
def onTimer : Act τ Unit := do
  let _ ← Callbacks.setHeartBeat
  modify fun w => { w with timeEvent := true }

end

end EventCall

/-- One event delivered to a session, with what the kernel answers during its callback. -/
inductive Event where
  | read (recvs : List RecvResult) (sends : List SendResult)
  | readTimeout
  | write (sends : List SendResult)
  | writeTimeout
  | timer
  deriving DecidableEq, Repr

namespace Event

/-- The results of the `recv` calls. -/
def recvs : Event → List RecvResult
  | .read recvs _ => recvs
  | _ => []

/-- The results of the `send` calls. -/
def sends : Event → List SendResult
  | .read _ sends => sends
  | .write sends => sends
  | _ => []

/-- A write callback that found the socket writable. -/
def isWrite : Event → Bool
  | .write _ => true
  | _ => false

/-- No `send` fails but with `EAGAIN`. -/
def NoFatal (e : Event) : Prop := .error ∉ e.sends

/-- The peer keeps the connection open. -/
def NoClose (e : Event) : Prop := .closed ∉ e.recvs

instance (e : Event) : Decidable e.NoFatal := inferInstanceAs (Decidable (¬ _))

instance (e : Event) : Decidable e.NoClose := inferInstanceAs (Decidable (¬ _))

end Event

section
variable {τ : Type}

/-- No callback is inside and the session exists. -/
def World.Live (w : World τ) : Prop := w.closed = false ∧ w.halted = none

instance (w : World τ) : Decidable w.Live := inferInstanceAs (Decidable (_ ∧ _))

/-- libevent has the event registered. -/
def World.Registered (w : World τ) : Event → Prop
  | .read .. | .readTimeout => w.readEvent = true
  | .write _ | .writeTimeout => w.writeEvent = true
  | .timer => w.timeEvent = true

instance (w : World τ) (e : Event) : Decidable (w.Registered e) := by
  cases e <;> exact inferInstanceAs (Decidable (_ = _))

/-- The state in which the callback of an event starts: the event is no longer registered. -/
def World.deliver (w : World τ) (e : Event) : World τ :=
  match e with
  | .read recvs sends => { w with recvs := recvs, sends := sends, readEvent := false }
  | .readTimeout => { w with recvs := [], sends := [], readEvent := false }
  | .write sends => { w with recvs := [], sends := sends, writeEvent := false }
  | .writeTimeout => { w with recvs := [], sends := [], writeEvent := false }
  | .timer => { w with recvs := [], sends := [], timeEvent := false }

variable [Callbacks τ]

/-- The callback of an event. -/
def Event.callback : Event → Act τ Unit
  | .read .. => EventCall.onRead true
  | .readTimeout => EventCall.onRead false
  | .write _ => EventCall.onWrite true
  | .writeTimeout => EventCall.onWrite false
  | .timer => EventCall.onTimer

/-- One turn of the event loop. -/
def fire (w : World τ) (e : Event) : Option (World τ) :=
  if w.Live then some (after e.callback (w.deliver e)) else none

end

/-- A connection as `onAccept` leaves it: waiting for input, the timer running. -/
def accepted {τ : Type} (obj : τ) (inp : List Byte) : World τ where
  obj := obj
  inp := inp
  wire := []
  recvs := []
  sends := []
  mReading := true
  mWriting := false
  readEvent := true
  writeEvent := false
  timeEvent := true
  closed := false
  halted := none
  trace := []

end GreatEvent
