/-!
# `event.c`: an event and the queues it is on

An `Ev` is a `struct event` as far as the loop looks at it: what it waits
for, and which of the queues of its base hold it. It is pending while it
waits for its descriptor or its timeout, and active from the moment one of
them comes up until its callback is called.
-/

namespace GreatEvent

/-- The bits of `short events`: `EV_TIMEOUT`, `EV_READ`, `EV_WRITE` and `EV_PERSIST`. -/
structure EvFlags where
  timeout : Bool
  read : Bool
  write : Bool
  persist : Bool
  deriving DecidableEq, Repr

def evTimeout : EvFlags := ⟨true, false, false, false⟩
def evRead : EvFlags := ⟨false, true, false, false⟩
def evWrite : EvFlags := ⟨false, false, true, false⟩
def evNone : EvFlags := ⟨false, false, false, false⟩

/-- `EV_READ|EV_PERSIST` -/
def evReadPersist : EvFlags := { evRead with persist := true }

/-- `|` -/
def EvFlags.or (a b : EvFlags) : EvFlags :=
  ⟨a.timeout || b.timeout, a.read || b.read, a.write || b.write, a.persist || b.persist⟩

/-- `struct event`, set by `event_set`: `inserted`, `timeout` and `active` are the bits
`EVLIST_INSERTED`, `EVLIST_TIMEOUT` and `EVLIST_ACTIVE` of `ev_flags`. -/
structure Ev where
  ev_fd : Int
  ev_events : EvFlags
  inserted : Bool
  timeout : Bool
  active : Bool
  ev_res : EvFlags
  deriving DecidableEq, Repr

namespace Ev

/-- The event waits for its descriptor or its timeout. -/
def pending (ev : Ev) : Bool := ev.inserted || ev.timeout

/-- The event is on a queue. -/
def queued (ev : Ev) : Bool := ev.pending || ev.active

/-- `event_set` -/
def set (fd : Int) (events : EvFlags) : Ev where
  ev_fd := fd
  ev_events := events
  inserted := false
  timeout := false
  active := false
  ev_res := evNone

/-- `event_add`, with a timeout. -/
def add (ev : Ev) : Ev :=
  -- rescheduling a timeout whose callback has not been called takes it from the active queue
  let ev := { ev with timeout := true, active := ev.active && !ev.ev_res.timeout }
  if (ev.ev_events.read || ev.ev_events.write) && !(ev.inserted || ev.active) then
    { ev with inserted := true }
  else ev

/-- `event_del` -/
def del (ev : Ev) : Ev := { ev with inserted := false, timeout := false, active := false }

/-- `event_active` -/
def activate (ev : Ev) (res : EvFlags) : Ev :=
  if ev.active then { ev with ev_res := ev.ev_res.or res }
  else { ev with active := true, ev_res := res }

/-- `epoll_dispatch`: the descriptor is ready for `res`. -/
def dispatch (ev : Ev) (res : EvFlags) : Ev :=
  (if ev.ev_events.persist then ev else ev.del).activate res

/-- `timeout_process`: the timeout has run out. -/
def expire (ev : Ev) : Ev := ev.del.activate evTimeout

/-- `event_process_active`: the event leaves the queue for its callback. -/
def leave (ev : Ev) : Ev := { ev with active := false }

@[simp] theorem queued_set (fd : Int) (events : EvFlags) : (set fd events).queued = false := rfl

@[simp] theorem ev_fd_add (ev : Ev) : ev.add.ev_fd = ev.ev_fd := by
  simp only [add]
  split <;> rfl

@[simp] theorem ev_fd_activate (ev : Ev) (res : EvFlags) : (ev.activate res).ev_fd = ev.ev_fd := by
  unfold activate
  split <;> rfl

@[simp] theorem ev_fd_dispatch (ev : Ev) (res : EvFlags) : (ev.dispatch res).ev_fd = ev.ev_fd := by
  rw [dispatch, ev_fd_activate]
  split <;> rfl

/-- An event that is added waits at least for its timeout. -/
@[simp] theorem queued_add (ev : Ev) : ev.add.queued = true := by
  have waits : ev.add.timeout = true := by
    simp only [add]
    split <;> rfl
  simp [queued, pending, waits]

/-- An event waits for its descriptor or its timeout, or it is active: an event that is called once
for each time it is added. -/
structure Once (ev : Ev) : Prop where
  persist : ev.ev_events.persist = false
  active : ev.active = true → ev.pending = false

theorem Once.set {fd : Int} {events : EvFlags} (once : events.persist = false) :
    (Ev.set fd events).Once :=
  ⟨once, by simp [Ev.set]⟩

theorem Once.expire {ev : Ev} (once : ev.Once) : ev.expire.Once := ⟨once.persist, fun _ => rfl⟩

theorem Once.dispatch {ev : Ev} (once : ev.Once) (res : EvFlags) : (ev.dispatch res).Once := by
  rw [Ev.dispatch, if_neg (by simp [once.persist])]
  exact ⟨once.persist, fun _ => rfl⟩

theorem Once.leave {ev : Ev} (once : ev.Once) : ev.leave.Once := by
  refine ⟨once.persist, ?_⟩
  intro active
  cases active

/-- An event off all queues is added without becoming active. -/
theorem Once.add {ev : Ev} (once : ev.Once) (free : ev.queued = false) : ev.add.Once := by
  have idle : ev.active = false := by
    simp only [queued, Bool.or_eq_false_iff] at free
    exact free.2
  simp only [Ev.add, idle, Bool.false_and, Bool.or_false]
  split
  · exact ⟨once.persist, fun active => by cases active⟩
  · exact ⟨once.persist, fun active => by cases active⟩

/-- An active event that is called is off all queues. -/
theorem Once.queued_leave {ev : Ev} (once : ev.Once) (active : ev.active = true) :
    ev.leave.queued = false := by
  have waits : ev.leave.pending = false := once.active active
  rw [queued, waits]
  rfl

theorem active_activate (ev : Ev) (res : EvFlags) : (ev.activate res).active = true := by
  unfold activate
  split
  case isTrue active => exact active
  case isFalse => rfl

/-- What comes up makes the event active. -/
@[simp] theorem queued_dispatch (ev : Ev) (res : EvFlags) : (ev.dispatch res).queued = true := by
  rw [queued, dispatch, active_activate, Bool.or_true]

@[simp] theorem queued_expire (ev : Ev) : ev.expire.queued = true := rfl

end Ev

end GreatEvent
