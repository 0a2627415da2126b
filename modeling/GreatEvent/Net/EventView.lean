import GreatEvent.Net.EpollDispatch
import GreatEvent.Net.Event
import GreatEvent.Net.EventLoop
import Mathlib.Logic.Relation

/-!
# `event.c`: what a session sees of its events

For a session an event is an `Ev`: no signal, and a timeout whenever it is
added. The loop has the same event in its base. Every call and every step of
the loop does to the one what the functions of `Ev` do to the other.
-/

namespace GreatEvent.Evsys

/-- The bits that an `Ev` has. -/
def EvMask.flags (mask : EvMask) : EvFlags := ⟨mask.timeout, mask.read, mask.write, mask.persist⟩

namespace Event

/-- `ev` is what is seen of the event. Nothing is said of `ev_res` while the event is not active. -/
structure Shows (event : Event) (ev : Ev) : Prop where
  fd : ev.ev_fd = event.ev_fd
  events : ev.ev_events = event.ev_events.flags
  inserted : ev.inserted = event.flags .inserted
  timeout : ev.timeout = event.flags .timeout
  active : ev.active = event.flags .active
  res : event.flags .active = true → ev.ev_res = event.ev_res.flags

namespace Shows

variable {event : Event} {ev : Ev}

/-- Only these fields are seen. -/
theorem congr (shows : event.Shows ev) {event' : Event} (fd : event'.ev_fd = event.ev_fd)
    (events : event'.ev_events = event.ev_events) (res : event'.ev_res = event.ev_res)
    (flags : event'.flags = event.flags) : event'.Shows ev := by
  refine ⟨?_, ?_, ?_, ?_, ?_, ?_⟩
  · rw [fd, shows.fd]
  · rw [events, shows.events]
  · rw [flags, shows.inserted]
  · rw [flags, shows.timeout]
  · rw [flags, shows.active]
  · rw [flags, res]
    exact shows.res

/-- A timeout whose callback has not been called is seen as such. -/
theorem unfired (shows : event.Shows ev) :
    (ev.active && !ev.ev_res.timeout) = (event.flags .active && !event.ev_res.timeout) := by
  rw [shows.active]
  cases active : event.flags .active with
  | false => rfl
  | true => rw [shows.res active]; rfl

theorem scheduled (shows : event.Shows ev) (timeout : Timeval) : (event.scheduled timeout).Shows
    { ev with timeout := true, active := ev.active && !ev.ev_res.timeout } := by
  refine ⟨shows.fd, shows.events, shows.inserted, rfl, shows.unfired, fun active => ?_⟩
  have was : (event.flags .active && !event.ev_res.timeout) = true := active
  exact shows.res (Bool.and_eq_true_iff.mp was).1

/-- The second half of `event_add`, for an event that waits for no signal. -/
theorem awaited (shows : event.Shows ev) (noSignal : event.ev_events.signal = false) :
    event.awaited.Shows (if (ev.ev_events.read || ev.ev_events.write) && !(ev.inserted || ev.active) then
      { ev with inserted := true } else ev) := by
  have same : ((ev.ev_events.read || ev.ev_events.write) && !(ev.inserted || ev.active))
      = (event.ev_events.io && !(event.flags .inserted || event.flags .active)) := by
    rw [shows.events, shows.inserted, shows.active]
    rfl
  by_cases waits : (event.ev_events.io && !(event.flags .inserted || event.flags .active)) = true
  · rw [Event.awaited, if_pos waits, if_pos (same.trans waits)]
    exact ⟨shows.fd, shows.events, rfl, shows.timeout, shows.active, shows.res⟩
  · rw [Event.awaited, if_neg waits, if_neg (by simp [noSignal]), if_neg (by rw [same]; exact waits)]
    exact shows

/-- `event_add`, with a timeout. -/
theorem add (shows : event.Shows ev) (timeout : Timeval) (noSignal : event.ev_events.signal = false) :
    (event.added (some timeout)).Shows ev.add :=
  (shows.scheduled timeout).awaited noSignal

/-- `event_del` -/
theorem del (shows : event.Shows ev) : event.deleted.Shows ev.del :=
  ⟨shows.fd, shows.events, rfl, rfl, rfl, fun active => by cases active⟩

/-- `event_set` -/
theorem of_off (off : ∀ queue, event.flags queue = false) :
    event.Shows (.set event.ev_fd event.ev_events.flags) :=
  ⟨rfl, rfl, (off .inserted).symm, (off .timeout).symm, (off .active).symm,
    fun active => by rw [off] at active; cases active⟩

/-- `event_active` -/
theorem activate (shows : event.Shows ev) (res : EvMask) (ncalls : Nat) :
    (event.activated res ncalls).Shows (ev.activate res.flags) := by
  unfold activated Ev.activate
  rw [shows.active]
  split
  case isTrue active =>
    refine ⟨shows.fd, shows.events, shows.inserted, shows.timeout, rfl, fun _ => ?_⟩
    simp only [shows.res active]
    rfl
  case isFalse => exact ⟨shows.fd, shows.events, shows.inserted, shows.timeout, rfl, fun _ => rfl⟩

/-- `timeout_process` -/
theorem expire (shows : event.Shows ev) : event.expired.Shows ev.expire :=
  shows.del.activate .ofTimeout 1

/-- The event leaves the active queue. -/
theorem leave (shows : event.Shows ev) : (event.mark .active false).Shows ev.leave :=
  ⟨shows.fd, shows.events, shows.inserted, shows.timeout, rfl, fun active => by cases active⟩

theorem once (shows : event.Shows ev) :
    event.once.Shows (if ev.ev_events.persist then ev else ev.del) := by
  have same : ev.ev_events.persist = event.ev_events.persist := by
    rw [shows.events]
    rfl
  rw [Event.once, same]
  split
  case isTrue => exact shows
  case isFalse => exact shows.del

/-- `epoll_dispatch`, for an event that waits for input or for output. -/
theorem dispatch (shows : event.Shows ev) {what : EpollBits} (met : event.met what = true)
    (one : event.ev_events.read = !event.ev_events.write) :
    (event.reported what).Shows (ev.dispatch { evNone with
      read := event.ev_events.read
      write := event.ev_events.write }) := by
  have holds := ((event.met_iff what).mp met).2
  rw [reported, if_pos met, Ev.dispatch]
  cases write : event.ev_events.write with
  | false =>
    have read : event.ev_events.read = true := by rw [one, write]; rfl
    rw [read, write, Bool.and_true, Bool.and_false] at holds
    have input := holds.resolve_right Bool.false_ne_true
    simp only [input, read, Bool.and_self, Bool.and_false, Bool.false_eq_true, if_true, if_false]
    exact shows.once.activate .ofRead 1
  | true =>
    have read : event.ev_events.read = false := by rw [one, write]; rfl
    rw [read, write, Bool.and_true, Bool.and_false] at holds
    have output := holds.resolve_left Bool.false_ne_true
    simp only [output, read, Bool.and_self, Bool.and_false, Bool.false_eq_true, if_true, if_false]
    exact shows.once.activate .ofWrite 1

end Shows

end Event

/-- What a session asks of an event, in a step that is about it: no signal, and a timeout. -/
def LoopStep.Timed (id : EvId) : LoopStep → Prop
  | .set x _ events => x = id → events.signal = false
  | .add x tv _ => x = id → tv.isSome = true
  | _ => True

/-- What happens to an event of a session, one thing at a time. -/
inductive EvStep (ev : Ev) : Ev → Prop
  | set (fd : Int) (events : EvFlags) : ev.queued = false → EvStep ev (.set fd events)
  | add : EvStep ev ev.add
  | del : EvStep ev ev.del
  | activate (res : EvFlags) : EvStep ev (ev.activate res)
  | expire : ev.timeout = true → EvStep ev ev.expire
  | leave : ev.active = true → EvStep ev ev.leave

namespace EventLoop

variable {β : Type} {k : Kernel β} {ev_signal : EvId}

/-- The event `event_process_active` takes next. -/
def front (loop : EventLoop β) : Option EvId :=
  match loop.phase with
  | .picking queue => loop.base.activequeues[queue]?.bind List.head?
  | _ => none

/-- What a session sees of its event `id` after a step, when it has seen `ev` before. -/
def seen (loop : EventLoop β) (id : EvId) (ev : Ev) : LoopStep → Ev
  | .set x fd events => if x = id then .set fd events.flags else ev
  | .add x _ _ => if x = id then ev.add else ev
  | .del x => if x = id then ev.del else ev
  | .active x res _ => if x = id then ev.activate res.flags else ev
  | .timeouts now => if id ∈ loop.base.due now then ev.expire else ev
  | .call => if loop.front = some id then ev.leave else ev
  | _ => ev

/-- The loop has an event `id` that waits for no signal, and `ev` is what is seen of it. -/
structure Shows (loop : EventLoop β) (id : EvId) (ev : Ev) : Prop where
  event : (loop.base.event id).Shows ev
  noSignal : (loop.base.event id).ev_events.signal = false

/-- A step that leaves what is seen of an event leaves the `Ev`. -/
theorem Shows.congr {loop loop' : EventLoop β} {id : EvId} {ev : Ev} (shows : loop.Shows id ev)
    (fd : (loop'.base.event id).ev_fd = (loop.base.event id).ev_fd)
    (events : (loop'.base.event id).ev_events = (loop.base.event id).ev_events)
    (res : (loop'.base.event id).ev_res = (loop.base.event id).ev_res)
    (flags : (loop'.base.event id).flags = (loop.base.event id).flags) : loop'.Shows id ev :=
  ⟨shows.event.congr fd events res flags, by rw [events, shows.noSignal]⟩

theorem Shows.same {loop loop' : EventLoop β} {id : EvId} {ev : Ev} (shows : loop.Shows id ev)
    (same : loop'.base.event id = loop.base.event id) : loop'.Shows id ev :=
  ⟨by rw [same]; exact shows.event, by rw [same]; exact shows.noSignal⟩

/-- A call about one event, to the event it is about and to the others. -/
theorem Shows.becomes {loop loop' : EventLoop β} {id x : EvId} {ev : Ev} (shows : loop.Shows id ev)
    {event : Event} {timeouts : List EvId} {actives : List (List EvId)} {f : Ev → Ev}
    (becomes : loop.base.Becomes loop'.base x event timeouts actives)
    (own : x = id → event.Shows (f ev) ∧ event.ev_events.signal = false) :
    loop'.Shows id (if x = id then f ev else ev) := by
  split
  case isTrue self =>
    subst self
    exact ⟨by rw [becomes.self]; exact (own rfl).1, by rw [becomes.self]; exact (own rfl).2⟩
  case isFalse other => exact shows.same (becomes.other (Ne.symm other))

/-- A priority is not seen. -/
theorem Shows.priority {loop loop' : EventLoop β} {id x : EvId} {ev : Ev} (shows : loop.Shows id ev)
    {pri : Nat} {timeouts : List EvId} {actives : List (List EvId)} (becomes : loop.base.Becomes loop'.base x
      { loop.base.event x with ev_pri := pri } timeouts actives) : loop'.Shows id ev := by
  have both := shows.becomes (f := fun ev => ev) becomes fun self => by
    subst self
    exact ⟨shows.event.congr rfl rfl rfl rfl, shows.noSignal⟩
  rwa [ite_self] at both

end EventLoop

namespace Event

theorem events_added (event : Event) (timeout : Option Timeval) :
    (event.added timeout).ev_events = event.ev_events := by
  have first : (event.scheduledIf timeout).ev_events = event.ev_events := by cases timeout <;> rfl
  rw [added, awaited]
  split
  case isTrue => exact first
  case isFalse =>
    split
    case isTrue => exact first
    case isFalse => exact first

theorem events_activated (event : Event) (res : EvMask) (ncalls : Nat) :
    (event.activated res ncalls).ev_events = event.ev_events := by
  unfold activated
  split <;> rfl

end Event

namespace EventLoop

variable {β : Type} {k : Kernel β} {ev_signal : EvId} {loop loop' : EventLoop β} {id : EvId} {ev : Ev}

/-- **A step of the loop is seen as a step of the `Ev`**: the two stay in agreement. -/
theorem Sound.seen (sound : loop.Sound ev_signal k) {e : LoopStep} (allowed : loop.Allowed ev_signal k e)
    (taken : loop.step k.evsel ev_signal e = some loop') (session : id ≠ ev_signal) (timed : e.Timed id)
    (shows : loop.Shows id ev) : loop'.Shows id (loop.seen id ev e) := by
  have effect := sound.effect allowed taken
  cases e with
  | set x fd events =>
    obtain ⟨-, event, rfl, rfl, off, becomes⟩ := effect
    refine shows.becomes (f := fun _ => .set event.ev_fd event.ev_events.flags) becomes fun self => ?_
    exact ⟨.of_off off, timed self⟩
  | baseSet x =>
    obtain ⟨-, pri, becomes⟩ := effect
    exact shows.priority becomes
  | prioritySet x pri =>
    obtain ⟨-, pri, becomes⟩ := effect
    exact shows.priority becomes
  | add x tv now =>
    obtain ⟨-, timeouts, becomes⟩ := effect
    refine shows.becomes (f := Ev.add) becomes fun self => ?_
    subst self
    obtain ⟨tv, rfl⟩ := Option.isSome_iff_exists.mp (timed rfl)
    exact ⟨shows.event.add _ shows.noSignal, by rw [Event.events_added, shows.noSignal]⟩
  | del x =>
    obtain ⟨-, becomes⟩ := effect
    refine shows.becomes (f := Ev.del) becomes fun self => ?_
    subst self
    exact ⟨shows.event.del, shows.noSignal⟩
  | active x res ncalls =>
    obtain ⟨-, becomes⟩ := effect
    refine shows.becomes (f := fun ev => ev.activate res.flags) becomes fun self => ?_
    subst self
    exact ⟨shows.event.activate res ncalls, by rw [Event.events_activated, shows.noSignal]⟩
  | priorityInit npriorities => exact shows.same (congrFun effect id)
  | recalc => exact shows.same (effect id session)
  | signals evsigcaught =>
    refine shows.same (effect id fun member => ?_)
    have waits := sound.base.signal id ((sound.base.queues.listed .signal id).mp member)
    rw [shows.noSignal] at waits
    cases waits
  | correct off =>
    have own := effect id
    split at own
    case isTrue => exact shows.congr (by rw [own]) (by rw [own]) (by rw [own]) (by rw [own])
    case isFalse => exact shows.same own
  | timeouts now =>
    simp only [EventLoop.seen]
    split
    case isTrue member =>
      have own := effect.expired id member
      exact ⟨by rw [own]; exact shows.event.expire, by rw [own]; exact shows.noSignal⟩
    case isFalse off => exact shows.same (effect.others id off)
  | enter => exact shows.same (congrFun effect id)
  | call =>
    obtain ⟨queue, l, picking, there, picks⟩ := effect
    have front : loop.front = l.head? := by simp [EventLoop.front, picking, there]
    simp only [EventLoop.seen, front]
    cases l with
    | nil =>
      obtain ⟨-, -, event⟩ := picks
      exact shows.same (congrFun event id)
    | cons x rest =>
      obtain ⟨-, -, run, event⟩ := picks
      have own := congrFun event id
      simp only [List.head?_cons, Option.some.injEq]
      split
      case isTrue self =>
        subst self
        rw [Function.update_self] at own
        have left : ((loop.base.event x).mark .active false).Shows ev.leave := shows.event.leave
        exact ⟨by rw [own]; exact left.congr rfl rfl rfl rfl, by rw [own]; exact shows.noSignal⟩
      case isFalse other =>
        rw [Function.update_of_ne (Ne.symm other)] at own
        exact shows.same own
  | back =>
    obtain ⟨queue, x, -, rfl⟩ := effect
    exact shows.same rfl
  | destroy => exact shows.same (by rw [effect])

/-- What is seen is what the functions of `Ev` do, where they may be called. -/
theorem Sound.seen_step (sound : loop.Sound ev_signal k) {e : LoopStep} (allowed : loop.Allowed ev_signal k e)
    (shows : loop.Shows id ev) : Relation.ReflGen EvStep ev (loop.seen id ev e) := by
  cases e with
  | set x fd events =>
    simp only [EventLoop.seen]
    split
    case isTrue self =>
      obtain ⟨-, free, -⟩ := allowed
      subst self
      refine .single (.set fd events.flags ?_)
      simp [Ev.queued, Ev.pending, shows.event.inserted, shows.event.timeout, shows.event.active, free]
    case isFalse => exact .refl
  | add x tv now =>
    simp only [EventLoop.seen]
    split
    case isTrue => exact .single .add
    case isFalse => exact .refl
  | del x =>
    simp only [EventLoop.seen]
    split
    case isTrue => exact .single .del
    case isFalse => exact .refl
  | active x res ncalls =>
    simp only [EventLoop.seen]
    split
    case isTrue => exact .single (.activate res.flags)
    case isFalse => exact .refl
  | timeouts now =>
    simp only [EventLoop.seen]
    split
    case isTrue member =>
      have waits : id ∈ loop.base.members .timeout := (List.takeWhile_sublist _).subset member
      exact .single (.expire (shows.event.timeout.trans ((sound.base.queues.listed .timeout id).mp waits)))
    case isFalse => exact .refl
  | call =>
    obtain ⟨queue, picking⟩ := allowed
    simp only [EventLoop.seen, EventLoop.front, picking]
    split
    case isTrue front =>
      obtain ⟨l, there, first⟩ := Option.bind_eq_some_iff.mp front
      have member : id ∈ loop.base.members .active :=
        List.mem_flatten.mpr ⟨l, List.mem_of_getElem? there, List.mem_of_head? first⟩
      exact .single (.leave (shows.event.active.trans ((sound.base.queues.listed .active id).mp member)))
    case isFalse => exact .refl
  | _ => exact .refl

/-- **What a session sees of its event in every run** is an `Ev` that only the functions of `Ev` have
changed. -/
theorem seen_of_run (sound : loop.Sound ev_signal k) (session : id ≠ ev_signal) (shows : loop.Shows id ev)
    {es : List LoopStep} (run : Lib.Runs (EventLoop.step k.evsel ev_signal)
      (fun loop e _ => loop.Allowed ev_signal k e ∧ e.Timed id) loop es loop') :
    ∃ ev', Relation.ReflTransGen EvStep ev ev' ∧ loop'.Shows id ev' := by
  have both := run.invariant (P := fun loop => loop.Sound ev_signal k ∧
      ∃ ev', Relation.ReflTransGen EvStep ev ev' ∧ loop.Shows id ev') ⟨sound, ev, .refl, shows⟩ <| by
    rintro loop₁ e loop₂ ⟨sound₁, ev₁, steps, shows₁⟩ taken ⟨allowed, timed⟩
    obtain ⟨next, stepped, sound₂⟩ := sound₁.step allowed
    rw [taken] at stepped
    cases stepped
    exact ⟨sound₂, _, steps.trans (sound₁.seen_step allowed shows₁).to_reflTransGen,
      sound₁.seen allowed taken session timed shows₁⟩
  exact both.2

/-- Before anything is set, all events but that of `signal.c` look alike. -/
theorem shows_init (evbase : β) (fd : Int) (now : Timeval) (session : id ≠ ev_signal) :
    (init evbase ev_signal fd now).Shows id (Ev.set 0 evNone) := by
  have blank : (init evbase ev_signal fd now).base.event id = (EventLoop.blank evbase now).event id := by
    simp [init, EventBase.eventBasePriorityInit, EventBase.evsignalInit, EventBase.eventSet, EventBase.modify,
      EventLoop.blank, session]
  refine ⟨?_, by rw [blank]; rfl⟩
  rw [blank]
  exact ⟨rfl, rfl, rfl, rfl, rfl, fun active => by cases active⟩

end EventLoop

namespace EventBase

variable {n : Nat} {refused : Int → Bool}

/-- **What `epoll_dispatch` does is seen as `Ev.dispatch`**, by an event that waits for input or for output. -/
theorem Sound.dispatch_seen {base : EventBase Epollop} (sound : base.Sound (epoll n refused))
    {reports : List EpollReport} (once : (reports.map EpollReport.fd).Nodup)
    (listed : ∀ r ∈ reports, 0 ≤ r.fd ∧ r.fd < n ∧ refused r.fd = false) :
    ∃ base', base.epollDispatch reports = some base' ∧ base'.Sound (epoll n refused) ∧ ∀ id ev,
      (base.event id).Shows ev → (base.event id).ev_events.read = !(base.event id).ev_events.write →
      (base'.event id).Shows
        (if (base.event id).met (conditions reports (base.event id).ev_fd) then
          ev.dispatch { evNone with
            read := (base.event id).ev_events.read
            write := (base.event id).ev_events.write }
        else ev) := by
  obtain ⟨base', ran, sound', event'⟩ := sound.dispatch once listed
  refine ⟨base', ran, sound', fun id ev shows one => ?_⟩
  rw [event']
  split
  case isTrue met => exact shows.dispatch met one
  case isFalse unmet =>
    rw [Event.reported, if_neg unmet]
    exact shows

end EventBase

end GreatEvent.Evsys
