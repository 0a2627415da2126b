import GreatEvent.Net.Timeval
import GreatEvent.Net.TreeCalls
import Mathlib.Logic.Function.Basic

/-!
# `event.c`: the events of a base and its queues

A `struct event` is known by its address, and the base by its queues: the
events that wait for their descriptor, for a signal or for their timeout, and
for each priority those whose callback is due. `none` is the end of the
process in `event_errx` or in an assertion, or the use of a pointer that no
longer points to anything.
-/

namespace GreatEvent.Evsys

/-- The bits of `short events` and of `ev_res`. -/
structure EvMask where
  timeout : Bool
  read : Bool
  write : Bool
  signal : Bool
  persist : Bool
  deriving DecidableEq, Repr

namespace EvMask

def none : EvMask := ⟨false, false, false, false, false⟩

/-- `EV_TIMEOUT` -/
def ofTimeout : EvMask := { none with timeout := true }

/-- `EV_READ` -/
def ofRead : EvMask := { none with read := true }

/-- `EV_WRITE` -/
def ofWrite : EvMask := { none with write := true }

/-- `EV_SIGNAL` -/
def ofSignal : EvMask := { none with signal := true }

/-- `|` -/
def or (a b : EvMask) : EvMask :=
  ⟨a.timeout || b.timeout, a.read || b.read, a.write || b.write, a.signal || b.signal,
    a.persist || b.persist⟩

/-- The event waits for a descriptor. -/
def io (a : EvMask) : Bool := a.read || a.write

end EvMask

/-- `EVLIST_TIMEOUT`, `EVLIST_INSERTED`, `EVLIST_SIGNAL` and `EVLIST_ACTIVE`. -/
inductive EvList
  | timeout
  | inserted
  | signal
  | active
  deriving DecidableEq, Repr

/-- The address of a `struct event`. -/
abbrev EvId := Nat

/-- `struct event`: `flags` are the bits of `ev_flags` for the queues, `internal` and `init` are
`EVLIST_INTERNAL` and `EVLIST_INIT`. `ev_pncalls` names the run of `event_process_active` whose
counter it points to. -/
structure Event where
  ev_fd : Int
  ev_events : EvMask
  ev_ncalls : Nat
  ev_pncalls : Option Nat
  ev_timeout : Timeval
  ev_pri : Nat
  ev_res : EvMask
  flags : EvList → Bool
  internal : Bool
  init : Bool

/-- `struct eventop`: what the base tells the kernel side of, with the value it returns. -/
structure EventOp (β : Type) where
  add : β → EvId → Event → Option (Int × β)
  del : β → EvId → Event → Option (Int × β)

/-- `struct event_base` with the memory its events are in, and `signalqueue` and `ev_signal_added`, of
which there is one for all bases. `runs` counts the runs of `event_process_active`, and `ncalls` is the
local counter of the one that is going on. -/
structure EventBase (β : Type) where
  event : EvId → Event
  evbase : β
  event_count : Int
  event_count_active : Int
  event_gotterm : Bool
  activequeues : List (List EvId)
  eventqueue : List EvId
  signalqueue : List EvId
  event_tv : Timeval
  timetree : RBTree EvId
  ev_signal_added : Bool
  runs : Nat
  ncalls : Option Nat

/-- `compare`: earlier timeouts first, and equal ones in the order of their addresses. -/
def compareEvents (event : EvId → Event) (a b : EvId) : Ordering :=
  if (event a).ev_timeout.lt (event b).ev_timeout then .lt
  else if (event b).ev_timeout.lt (event a).ev_timeout then .gt
  else compare a b

variable {β : Type}

namespace EventBase

/-- A write to some fields of an event. -/
def modify (base : EventBase β) (id : EvId) (f : Event → Event) : EventBase β :=
  { base with event := Function.update base.event id (f (base.event id)) }

/-- `ev_flags |= queue` and `ev_flags &= ~queue` -/
def flag (base : EventBase β) (id : EvId) (queue : EvList) (on : Bool) : EventBase β :=
  base.modify id fun ev => { ev with flags := Function.update ev.flags queue on }

/-- `event_count++` and `event_count--`, with the active ones: internal events are not counted. -/
def count (base : EventBase β) (id : EvId) (queue : EvList) (by' : Int) : EventBase β :=
  if (base.event id).internal then base
  else
    { base with
      event_count := base.event_count + by'
      event_count_active := base.event_count_active + (if queue = .active then by' else 0) }

/-- `TAILQ_REMOVE` -/
def tailqRemove (l : List EvId) (id : EvId) : Option (List EvId) :=
  if id ∈ l then some (l.erase id) else none

/-- `event_queue_remove` -/
def eventQueueRemove (base : EventBase β) (id : EvId) (queue : EvList) : Option (EventBase β) :=
  if (base.event id).flags queue then
    let base := (base.count id queue (-1)).flag id queue false
    match queue with
    | .active => do
      let pri := (base.event id).ev_pri
      let l ← tailqRemove (← base.activequeues[pri]?) id
      some { base with activequeues := base.activequeues.set pri l }
    | .signal => do
      let l ← tailqRemove base.signalqueue id
      some { base with signalqueue := l }
    | .timeout => do
      let tree ← base.timetree.remove id
      some { base with timetree := tree }
    | .inserted => do
      let l ← tailqRemove base.eventqueue id
      some { base with eventqueue := l }
  else none

/-- `event_queue_insert` -/
def eventQueueInsert (base : EventBase β) (id : EvId) (queue : EvList) : Option (EventBase β) :=
  if (base.event id).flags queue then
    -- only an active event may be inserted again
    if queue = .active then some base else none
  else
    let base := (base.count id queue 1).flag id queue true
    match queue with
    | .active => do
      let pri := (base.event id).ev_pri
      let l ← base.activequeues[pri]?
      some { base with activequeues := base.activequeues.set pri (l ++ [id]) }
    | .signal => some { base with signalqueue := base.signalqueue ++ [id] }
    | .timeout => match base.timetree.insert (compareEvents base.event) id with
      | some (.none, tree) => some { base with timetree := tree }
      | _ => none
    | .inserted => some { base with eventqueue := base.eventqueue ++ [id] }

/-- `if (ev->ev_ncalls && ev->ev_pncalls) *ev->ev_pncalls = 0` -/
def abortLoop (base : EventBase β) (id : EvId) : Option (EventBase β) :=
  if (base.event id).ev_ncalls = 0 then some base
  else match (base.event id).ev_pncalls with
    | none => some base
    | some run => if base.ncalls.isSome && run == base.runs then some { base with ncalls := some 0 } else none

/-- `event_queue_remove` where the event is on the queue. -/
def removeIf (base : EventBase β) (id : EvId) (queue : EvList) : Option (EventBase β) :=
  if (base.event id).flags queue then base.eventQueueRemove id queue else some base

/-- `event_set` -/
def eventSet (base : EventBase β) (id : EvId) (fd : Int) (events : EvMask) : EventBase β :=
  base.modify id fun ev =>
    { ev with
      ev_fd := fd
      ev_events := events
      flags := fun _ => false
      internal := false
      init := true
      ev_ncalls := 0
      ev_pncalls := none
      ev_pri := base.activequeues.length / 2 }

/-- `event_base_set`, with what it returns: there is one base. -/
def eventBaseSet (base : EventBase β) (id : EvId) : Int × EventBase β :=
  let ev := base.event id
  if ev.flags .timeout || ev.flags .inserted || ev.flags .signal || ev.flags .active || ev.internal
    || !ev.init then (-1, base)
  else (0, base.modify id fun ev => { ev with ev_pri := base.activequeues.length / 2 })

/-- `evsignal_init` for its event on the socket pair `fd`. -/
def evsignalInit (base : EventBase β) (id : EvId) (fd : Int) : EventBase β :=
  (base.eventSet id fd .ofRead).modify id fun ev => { ev with internal := true }

/-- `event_base_priority_init`, with what it returns. -/
def eventBasePriorityInit (base : EventBase β) (npriorities : Nat) : Int × EventBase β :=
  if base.event_count_active ≠ 0 then (-1, base)
  else (0, { base with activequeues := List.replicate npriorities [] })

/-- `event_priority_set`, with what it returns. -/
def eventPrioritySet (base : EventBase β) (id : EvId) (pri : Int) : Int × EventBase β :=
  if (base.event id).flags .active then (-1, base)
  else if pri < 0 ∨ pri ≥ base.activequeues.length then (-1, base)
  else (0, base.modify id fun ev => { ev with ev_pri := pri.toNat })

/-- Rescheduling a timeout whose callback has not been called takes it from the active queue. -/
def unfire (base : EventBase β) (id : EvId) : Option (EventBase β) :=
  if (base.event id).flags .active && (base.event id).ev_res.timeout then
    (base.abortLoop id).bind fun base => base.eventQueueRemove id .active
  else some base

/-- The first half of `event_add`: the timeout, when one is given. -/
def schedule (base : EventBase β) (id : EvId) (tv now : Timeval) : Option (EventBase β) := do
  let base ← base.removeIf id .timeout
  let base ← base.unfire id
  let base := base.modify id fun ev => { ev with ev_timeout := now.add tv }
  base.eventQueueInsert id .timeout

/-- `if (tv != NULL)` -/
def scheduleIf (base : EventBase β) (id : EvId) (tv : Option Timeval) (now : Timeval) :
    Option (EventBase β) :=
  match tv with
  | none => some base
  | some tv => base.schedule id tv now

variable (evsel : EventOp β)

/-- `evsel->add(evbase, ev)` after the event was put on a queue. -/
def enqueue (base : EventBase β) (id : EvId) (queue : EvList) : Option (Int × EventBase β) := do
  let base ← base.eventQueueInsert id queue
  let (ret, evbase) ← evsel.add base.evbase id (base.event id)
  some (ret, { base with evbase := evbase })

/-- `evsel->del(evbase, ev)` after the event was taken from a queue. -/
def dequeue (base : EventBase β) (id : EvId) (queue : EvList) : Option (Int × EventBase β) := do
  let base ← base.eventQueueRemove id queue
  let (ret, evbase) ← evsel.del base.evbase id (base.event id)
  some (ret, { base with evbase := evbase })

/-- `event_add` -/
def eventAdd (base : EventBase β) (id : EvId) (tv : Option Timeval) (now : Timeval) :
    Option (Int × EventBase β) := do
  let base ← base.scheduleIf id tv now
  let ev := base.event id
  if ev.ev_events.io && !(ev.flags .inserted || ev.flags .active) then
    enqueue evsel base id .inserted
  else if ev.ev_events.signal && !ev.flags .signal then enqueue evsel base id .signal
  else some (0, base)

/-- `event_del` -/
def eventDel (base : EventBase β) (id : EvId) : Option (Int × EventBase β) :=
  -- an event without a base has not been added
  if !(base.event id).init then some (-1, base)
  else do
    let base ← base.abortLoop id
    let base ← base.removeIf id .timeout
    let base ← base.removeIf id .active
    if (base.event id).flags .inserted then dequeue evsel base id .inserted
    else if (base.event id).flags .signal then dequeue evsel base id .signal
    else some (0, base)

/-- `event_active` -/
def eventActive (base : EventBase β) (id : EvId) (res : EvMask) (ncalls : Nat) :
    Option (EventBase β) :=
  if (base.event id).flags .active then
    some (base.modify id fun ev => { ev with ev_res := ev.ev_res.or res })
  else
    (base.modify id fun ev =>
      { ev with ev_res := res, ev_ncalls := ncalls, ev_pncalls := none }).eventQueueInsert id .active

/-- `timeout_next` -/
def timeoutNext (base : EventBase β) (now : Timeval) : Timeval :=
  match base.timetree.min with
  | none => .ofSeconds 5
  | some id =>
    let timeout := (base.event id).ev_timeout
    if timeout.le now then .clear else timeout.sub now

/-- `RB_FOREACH`: the elements from `x` on. -/
def foreach (tree : RBTree EvId) : Nat → Option EvId → List EvId
  | 0, _ => []
  | _, none => []
  | fuel + 1, some x => x :: foreach tree fuel (tree.next x)

/-- `timeout_correct` -/
def timeoutCorrect (base : EventBase β) (off : Timeval) : EventBase β :=
  (foreach base.timetree base.timetree.toList.length base.timetree.min).foldl
    (fun base id => base.modify id fun ev => { ev with ev_timeout := ev.ev_timeout.sub off }) base

/-- `evsignal_recalc`: the event on the socket pair of the signal handler is added with the first look. -/
def evsignalRecalc (base : EventBase β) (ev_signal : EvId) : Option (EventBase β) :=
  if base.ev_signal_added then some base
  else (eventAdd evsel { base with ev_signal_added := true } ev_signal none .clear).map Prod.snd

/-- One event in the loop of `evsignal_process`; `evsigcaught` says how often each signal was caught. -/
def signalled (evsigcaught : Int → Nat) (base : EventBase β) (id : EvId) : Option (EventBase β) :=
  let ncalls := evsigcaught (base.event id).ev_fd
  if ncalls = 0 then some base
  else do
    let base ← if (base.event id).ev_events.persist then some base
      else (eventDel evsel base id).map Prod.snd
    base.eventActive id .ofSignal ncalls

/-- `evsignal_process` -/
def evsignalProcess (base : EventBase β) (evsigcaught : Int → Nat) : Option (EventBase β) :=
  base.signalqueue.foldlM (signalled evsel evsigcaught) base

/-- One event in the loop of `timeout_process`. -/
def expire (base : EventBase β) (id : EvId) : Option (EventBase β) := do
  let base ← base.eventQueueRemove id .timeout
  let (_, base) ← eventDel evsel base id
  base.eventActive id .ofTimeout 1

/-- The loop of `timeout_process`, from the event `ev` on. -/
def timeoutLoop (now : Timeval) : Nat → EventBase β → Option EvId → Option (EventBase β)
  | _, base, none => some base
  | 0, _, some _ => none
  | fuel + 1, base, some id =>
    if now.lt (base.event id).ev_timeout then some base
    else do
      let next := base.timetree.next id
      let base ← expire evsel base id
      timeoutLoop now fuel base next

/-- `timeout_process` -/
def timeoutProcess (base : EventBase β) (now : Timeval) : Option (EventBase β) :=
  timeoutLoop evsel now base.timetree.toList.length base base.timetree.min

end EventBase

end GreatEvent.Evsys
