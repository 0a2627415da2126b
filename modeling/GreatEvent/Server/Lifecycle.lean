import GreatEvent.Net.Event
import GreatEvent.Server.EventCall
import GreatEvent.Server.SessionManager

/-!
# The life of a session

`EventCall.cpp` once more, down to the calls of libevent. A `Slot` is one
session with the memory of its three events; libevent keeps pointers to this
memory, so the events stay when the session is deleted. The loop makes any
pending event active and calls any active one, in any order. What the
methods of a session do to its events is their `addEvent` calls and the
value they return; a `Method` is any choice of these.

A callback stops at the first misuse: an event that is set or added while it
is on a queue, an event that was never set, a session that is gone.
-/

namespace GreatEvent

open Lib

/-- A misuse of libevent or of the memory. -/
inductive Misuse where
  /-- `event_set`, `event_base_set` or `event_add` of an event that is pending or active -/
  | queued
  /-- an operation on an event that `event_set` has not initialised -/
  | unset
  /-- an operation on a deleted session -/
  | freed
  /-- `getArg()` of a session without an `EventArg` -/
  | null
  deriving DecidableEq, Repr

/-- `Session::mStatus` -/
inductive SessionStatus where
  | eNormal
  | eWouldExit
  | eExit
  deriving DecidableEq, Repr

/-- The fields of `Session` that the callbacks look at; `mArg`, an `EventArg` is set. -/
structure SessionLife where
  mKey : UInt16
  mStatus : SessionStatus
  mWriting : Bool
  mReading : Bool
  mArg : Bool
  deriving DecidableEq

/-- The events of a session. -/
inductive EventKind where
  | read
  | write
  | time
  deriving DecidableEq, Repr

/-- The flag that guards an event: the timer has none. -/
def SessionLife.busy (c : SessionLife) : EventKind → Bool
  | .read => c.mReading
  | .write => c.mWriting
  | .time => false

/-- `setReading` and `setWriting` -/
def SessionLife.mark (c : SessionLife) (b : Bool) : EventKind → SessionLife
  | .read => { c with mReading := b }
  | .write => { c with mWriting := b }
  | .time => c

/-- A session (`none`, deleted) and the memory of its events (`none`, as `malloc` gave it). -/
structure Slot where
  session : Option SessionLife
  events : EventKind → Option Ev

/-- What is done to sessions and sockets, in order. -/
inductive Deed where
  | removed (p : Nat)
  | deleted (p : Nat)
  | closed (fd : Int)
  deriving DecidableEq, Repr

namespace Slot

/-- The event is on a queue of the loop. -/
def queued (s : Slot) (k : EventKind) : Bool := (s.events k).any Ev.queued

def setEvent (s : Slot) (k : EventKind) (ev : Ev) : Slot :=
  { s with events := fun i => if i = k then some ev else s.events i }

/-- `Session(sid)` -/
def new (mKey : UInt16) : Slot where
  session := some ⟨mKey, .eNormal, false, false, false⟩
  events _ := none

section
variable (s : Slot) (k : EventKind) (ev : Ev)

@[simp] theorem events_setEvent_self : (s.setEvent k ev).events k = some ev := if_pos rfl

theorem events_setEvent_other {k i : EventKind} (other : i ≠ k) :
    (s.setEvent k ev).events i = s.events i :=
  if_neg other

theorem setEvent_setEvent (ev' : Ev) : (s.setEvent k ev).setEvent k ev' = s.setEvent k ev' := by
  unfold setEvent
  congr 1
  funext i
  by_cases own : i = k
  · rw [if_pos own, if_pos own]
  · rw [if_neg own, if_neg own]
    exact if_neg own

theorem isSome_setEvent {i : EventKind} (found : (s.events i).isSome = true) :
    ((s.setEvent k ev).events i).isSome = true := by
  by_cases own : i = k
  · rw [own, events_setEvent_self]
    rfl
  · rwa [events_setEvent_other s ev own]

@[simp] theorem queued_setEvent_self : (s.setEvent k ev).queued k = ev.queued := by
  rw [queued, events_setEvent_self]
  rfl

theorem queued_setEvent_other {k i : EventKind} (other : i ≠ k) :
    (s.setEvent k ev).queued i = s.queued i := by
  rw [queued, events_setEvent_other s ev other]
  rfl

end

end Slot

/-- A descriptor as the key of the table. -/
def key (fd : Int) : UInt16 := .ofInt fd

/-- What a callback of the session `this` works on. -/
structure Scope where
  this : Nat
  slot : Slot
  manager : SessionManager Nat
  log : List Deed

namespace Scope

def withSession (s : Scope) (c : SessionLife) : Scope :=
  { s with slot := { s.slot with session := some c } }

def setEvent (s : Scope) (k : EventKind) (ev : Ev) : Scope := { s with slot := s.slot.setEvent k ev }

/-- The entry at `fd` is taken from the table. -/
def withRemoved (s : Scope) (fd : Int) : Scope :=
  { s with
    manager := (s.manager.remove (key fd)).1
    log := s.log ++ ((s.manager.remove (key fd)).2.map Deed.removed).toList }

def withDeleted (s : Scope) : Scope :=
  { s with slot := { s.slot with session := none }, log := s.log ++ [.deleted s.this] }

end Scope

/-- A callback at this level. -/
abbrev LoopAct := EStateM Misuse Scope

namespace LoopAct

/-- A read of the session's memory. -/
def session : LoopAct SessionLife := do
  match (← get).slot.session with
  | some c => return c
  | none => throw .freed

def modifySession (f : SessionLife → SessionLife) : LoopAct Unit := do
  let c ← session
  modify fun s => s.withSession (f c)

/-- `session->getReadEvent()` and its siblings, for an event that is set. -/
def event (k : EventKind) : LoopAct Ev := do
  let _ ← session
  match (← get).slot.events k with
  | some ev => return ev
  | none => throw .unset

/-- `event_set` -/
def eventSet (k : EventKind) (fd : Int) (events : EvFlags) : LoopAct Unit := do
  let _ ← session
  if (← get).slot.queued k then throw .queued
  else modify fun s => s.setEvent k (.set fd events)

/-- `event_base_set`, with the one base there is. -/
def eventBaseSet (k : EventKind) : LoopAct Unit := do
  let ev ← event k
  if ev.queued then throw .queued

/-- `event_add` -/
def eventAdd (k : EventKind) : LoopAct Unit := do
  let ev ← event k
  if ev.queued then throw .queued
  else modify fun s => s.setEvent k ev.add

/-- `event_del` -/
def eventDel (k : EventKind) : LoopAct Unit := do
  let ev ← event k
  modify fun s => s.setEvent k ev.del

/-- A read through `session->getArg()`. -/
def arg : LoopAct Unit := do
  if (← session).mArg then pure () else throw .null

/-- `getSessionManager()->remove( fd )` -/
def remove (fd : Int) : LoopAct Unit := modify fun s => s.withRemoved fd

/-- `delete session` -/
def delete : LoopAct Unit := do
  let _ ← session
  modify fun s => s.withDeleted

/-- `close( fd )` -/
def close (fd : Int) : LoopAct Unit := modify fun s => { s with log := s.log ++ [.closed fd] }

end LoopAct

/-- What a method of a session does to its events: its `addEvent` calls, each for one event, and its
result. -/
structure Method where
  calls : List EventKind
  ret : Int

/-- The `events` of such a call. -/
def EventKind.flags : EventKind → EvFlags
  | .read => evRead
  | .write => evWrite
  | .time => evTimeout

namespace Lifecycle

open LoopAct

/-- The descriptor to listen to: for a negative one, that of the write event. -/
def eventFd (fd : Int) : LoopAct Int := do
  if fd < 0 then
    let ev ← event .write
    return ev.ev_fd
  else return fd

/-- The part of `addEvent` for one event. -/
def arm (k : EventKind) (events : EvFlags) (fd : Int) : LoopAct Unit := do
  modifySession fun c => c.mark true k
  let fd ← eventFd fd
  eventSet k fd events
  arg
  eventBaseSet k
  eventAdd k

/-- `addEvent` -/
def addEvent (events : EvFlags) (fd : Int) : LoopAct Unit := do
  if events.write && !(← session).busy .write then
    arm .write events fd
  if events.read && !(← session).busy .read then
    arm .read events fd

/-- A method of the session, with its `addEvent( mSess, .., -1 )` calls. -/
def method (m : Method) : LoopAct Int := do
  m.calls.forM fun k => addEvent k.flags (-1)
  return m.ret

/-- What `onRead` and `onWrite` do to a session that ends. -/
def teardown (fd : Int) : LoopAct Unit := do
  arg
  remove fd
  eventDel .read
  eventDel .write
  eventDel .time
  delete
  close fd

/-- `onAccept`, after `accept` and `new Session`. -/
def onAccept (mMaxConnections : Int) (clientFD : Int) : LoopAct Unit := do
  modify fun s => { s with manager := (s.manager.put (key clientFD) s.this).1 }
  modifySession fun c => { c with mArg := true }
  eventSet .read clientFD evRead
  eventSet .write clientFD evWrite
  addEvent evRead clientFD
  eventSet .time (-1) evNone
  addEvent evTimeout clientFD
  eventAdd .time
  if mMaxConnections < (← get).manager.getCount then
    modifySession fun c => { c with mStatus := .eExit }
    addEvent evWrite clientFD

/-- `onRead` -/
def onRead (fd : Int) (events : EvFlags) (readBuffer : Method) : LoopAct Unit := do
  modifySession fun c => c.mark false .read
  if events.read then
    let ret ← method readBuffer
    if ret = 0 then teardown fd
    else addEvent evRead fd
  else addEvent evRead fd

/-- `onWrite` -/
def onWrite (fd : Int) (events : EvFlags) (writeBuffer : Method) : LoopAct Unit := do
  modifySession fun c => c.mark false .write
  let ret ← if events.write then method writeBuffer else pure 0
  if ret = ownSockExit then teardown fd
  else if ret ≠ 0 then addEvent evWrite fd

/-- `onTimer` -/
def onTimer (setHeartBeat : Method) : LoopAct Unit := do
  let _ ← method setHeartBeat
  eventAdd .time

/-- The callback an event was set with. -/
def callback (k : EventKind) (ev : Ev) (m : Method) : LoopAct Unit :=
  match k with
  | .read => onRead ev.ev_fd ev.ev_res m
  | .write => onWrite ev.ev_fd ev.ev_res m
  | .time => onTimer m

end Lifecycle

/-- The sessions accepted so far, by the order of their acceptance, and what they share. -/
structure LoopState where
  slots : List Slot
  manager : SessionManager Nat
  log : List Deed
  misuse : Option Misuse

/-- What makes a pending event active. -/
inductive Cause where
  | ready
  | expired
  deriving DecidableEq, Repr

/-- One step of the loop: a connection is accepted, a pending event becomes active, an active one is
called. -/
inductive LoopStep where
  | accept (clientFD : Int)
  | ready (p : Nat) (k : EventKind) (cause : Cause)
  | call (p : Nat) (k : EventKind) (m : Method)

namespace LoopState

/-- Before the first connection. -/
def init : LoopState := ⟨[], .init, [], none⟩

/-- The event that `cause` makes of `ev`, if it waits for that. -/
def comesUp (k : EventKind) (ev : Ev) : Cause → Option Ev
  | .ready => if ev.inserted then some (ev.dispatch k.flags) else none
  | .expired => if ev.timeout then some ev.expire else none

/-- A callback of `slot`, the session `p`. -/
def enter (l : LoopState) (p : Nat) (slot : Slot) (act : LoopAct Unit) : LoopState :=
  match act.run ⟨p, slot, l.manager, l.log⟩ with
  | .ok _ s => ⟨l.slots.set p s.slot, s.manager, s.log, none⟩
  | .error e s => ⟨l.slots.set p s.slot, s.manager, s.log, some e⟩

/-- A step of the loop. -/
def step (mMaxConnections : Int) (l : LoopState) : LoopStep → Option LoopState
  | .accept clientFD =>
    if l.misuse = none then
      let slot := Slot.new (key clientFD)
      some ({ l with slots := l.slots ++ [slot] }.enter l.slots.length slot
        (Lifecycle.onAccept mMaxConnections clientFD))
    else none
  | .ready p k cause => do
    let slot ← l.slots[p]?
    let ev ← slot.events k
    let ev ← comesUp k ev cause
    if l.misuse = none then some { l with slots := l.slots.set p (slot.setEvent k ev) } else none
  | .call p k m => do
    let slot ← l.slots[p]?
    let ev ← slot.events k
    if l.misuse = none ∧ ev.active = true then
      some (l.enter p (slot.setEvent k ev.leave) (Lifecycle.callback k ev m))
    else none

end LoopState

end GreatEvent
