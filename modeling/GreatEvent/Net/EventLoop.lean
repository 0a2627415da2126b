import GreatEvent.Lib.Runs
import GreatEvent.Net.EventTimeouts

/-!
# `event.c`: the loop and its callbacks

`event_process_active` takes the events of one active queue from its front
and calls their callbacks. A callback is any series of calls of the functions
of `event.c`, so a run of the loop is a list of such calls together with the
steps of the loop itself. What `epoll_dispatch` does to the events it reports
are such calls too.
-/

namespace GreatEvent.Evsys

/-- Where the thread of the loop is: outside `event_process_active`, at its look at the front of the
active queue, in the callback of an event of that queue, or behind `event_destroy`. -/
inductive LoopPhase
  | outside
  | picking (queue : Nat)
  | calling (queue : Nat) (id : EvId)
  | destroyed
  deriving DecidableEq, Repr

structure EventLoop (β : Type) where
  base : EventBase β
  phase : LoopPhase

/-- A call of the program, or a step of `event_base_loop`. -/
inductive LoopStep
  | set (id : EvId) (fd : Int) (events : EvMask)
  | baseSet (id : EvId)
  | prioritySet (id : EvId) (pri : Int)
  | add (id : EvId) (tv : Option Timeval) (now : Timeval)
  | del (id : EvId)
  | active (id : EvId) (res : EvMask) (ncalls : Nat)
  | priorityInit (npriorities : Nat)
  | recalc
  | signals (evsigcaught : Int → Nat)
  | correct (off : Timeval)
  | timeouts (now : Timeval)
  | enter
  | call
  | back
  | destroy

variable {β : Type}

namespace EventLoop

/-- `event_process_active`, up to its second loop. -/
def enter (base : EventBase β) : Option (EventLoop β) :=
  if base.event_count_active = 0 then some ⟨base, .outside⟩
  else match base.activequeues.findIdx? fun l => !l.isEmpty with
    | none => none
    | some queue => some ⟨{ base with runs := base.runs + 1, ncalls := some 0 }, .picking queue⟩

/-- `while (ncalls)`: the callback once more, or the next event. -/
def again (base : EventBase β) (queue : Nat) (id : EvId) : EventLoop β :=
  match base.ncalls with
  | some (ncalls + 1) =>
    ⟨{ base with ncalls := some ncalls }.modify id fun ev => { ev with ev_ncalls := ncalls },
      .calling queue id⟩
  | _ => ⟨base, .picking queue⟩

/-- `TAILQ_FIRST(activeq)`, and what follows for the event found. -/
def call (base : EventBase β) (queue : Nat) : Option (EventLoop β) :=
  match base.activequeues[queue]? with
  | none => none
  | some [] => some ⟨{ base with ncalls := none }, .outside⟩
  | some (id :: _) => do
    let base ← base.eventQueueRemove id .active
    let base := { base with ncalls := some (base.event id).ev_ncalls }.modify id fun ev =>
      { ev with ev_pncalls := some base.runs }
    some (again base queue id)

/-- `current_base` as `calloc` leaves it, with its lists set up. -/
def blank (evbase : β) (now : Timeval) : EventBase β where
  event := fun _ =>
    { ev_fd := 0, ev_events := .none, ev_ncalls := 0, ev_pncalls := none, ev_timeout := .clear,
      ev_pri := 0, ev_res := .none, flags := fun _ => false, internal := false, init := false }
  evbase := evbase
  event_count := 0
  event_count_active := 0
  event_gotterm := false
  activequeues := []
  eventqueue := []
  signalqueue := []
  event_tv := now
  timetree := .nil
  ev_signal_added := false
  runs := 0
  ncalls := none

/-- `event_init`, with the kernel side it sets up: no event has been set but the one of `signal.c`, on
`ev_signal_pair[1]`. -/
def init (evbase : β) (ev_signal : EvId) (fd : Int) (now : Timeval) : EventLoop β where
  base := (((blank evbase now).evsignalInit ev_signal fd).eventBasePriorityInit 1).2
  phase := .outside

variable (evsel : EventOp β) (ev_signal : EvId)

/-- A call changes the base only. -/
def onBase (loop : EventLoop β) (base : Option (EventBase β)) : Option (EventLoop β) :=
  base.map fun base => ⟨base, loop.phase⟩

/-- A step while the base is there. -/
def take (loop : EventLoop β) : LoopStep → Option (EventLoop β)
  | .set id fd events => loop.onBase (some (loop.base.eventSet id fd events))
  | .baseSet id => loop.onBase (some (loop.base.eventBaseSet id).2)
  | .prioritySet id pri => loop.onBase (some (loop.base.eventPrioritySet id pri).2)
  | .add id tv now => loop.onBase ((loop.base.eventAdd evsel id tv now).map Prod.snd)
  | .del id => loop.onBase ((loop.base.eventDel evsel id).map Prod.snd)
  | .active id res ncalls => loop.onBase (loop.base.eventActive id res ncalls)
  | .priorityInit npriorities => loop.onBase (some (loop.base.eventBasePriorityInit npriorities).2)
  | .recalc => loop.onBase (loop.base.evsignalRecalc evsel ev_signal)
  | .signals evsigcaught => loop.onBase (loop.base.evsignalProcess evsel evsigcaught)
  | .correct off => loop.onBase (some (loop.base.timeoutCorrect off))
  | .timeouts now => loop.onBase (loop.base.timeoutProcess evsel now)
  | .enter => enter loop.base
  | .call => match loop.phase with
    | .picking queue => call loop.base queue
    | _ => none
  | .back => match loop.phase with
    | .calling queue id => some (again loop.base queue id)
    | _ => none
  | .destroy => some ⟨loop.base, .destroyed⟩

/-- `event_destroy` frees the base: what comes behind it uses a stale pointer. -/
def step (loop : EventLoop β) (e : LoopStep) : Option (EventLoop β) :=
  if loop.phase = .destroyed then none else loop.take evsel ev_signal e

/-- The program or a callback is running. -/
def Programs (loop : EventLoop β) : Prop := loop.phase = .outside ∨ ∃ queue id, loop.phase = .calling queue id

/-- What is asked of a program: an event is set up only while it is on no queue, not for a signal
and a descriptor at once, it is set up before it is added or activated, there is room for it where it is
added, and it is activated for one call at most, so that no signal is caught twice before the loop looks;
the priorities are set up while nothing is active, and enough of them for the events there are; nothing
is called behind `event_destroy`. The other steps are taken where the loop takes them. -/
def Allowed (k : Kernel β) (loop : EventLoop β) : LoopStep → Prop
  | .set id _ events => loop.Programs ∧ (∀ queue, (loop.base.event id).flags queue = false) ∧
      (events.io && events.signal) = false
  | .baseSet _ => loop.Programs
  | .prioritySet _ _ => loop.Programs
  | .add id _ _ => loop.Programs ∧ (loop.base.event id).init = true ∧ loop.base.Fits k id
  | .del _ => loop.Programs
  | .active id _ ncalls => loop.Programs ∧ (loop.base.event id).init = true ∧ ncalls ≤ 1
  | .priorityInit npriorities => loop.phase = .outside ∧ (∀ id, (loop.base.event id).flags .active = false) ∧
      0 < npriorities ∧ ∀ id, (loop.base.event id).init = true → (loop.base.event id).ev_pri < npriorities
  | .recalc => loop.phase = .outside ∧ (loop.base.ev_signal_added = false → loop.base.Fits k ev_signal)
  | .signals evsigcaught => loop.phase = .outside ∧ ∀ sig, evsigcaught sig ≤ 1
  | .correct _ => loop.phase = .outside
  | .timeouts _ => loop.phase = .outside
  | .enter => loop.phase = .outside
  | .call => ∃ queue, loop.phase = .picking queue
  | .back => ∃ queue id, loop.phase = .calling queue id
  | .destroy => loop.phase = .outside

/-- The base is sound, the event of `signal.c` is set up, and the counter of the callbacks is there while
they run. -/
structure Sound (k : Kernel β) (loop : EventLoop β) : Prop where
  base : loop.base.Sound k
  signal : (loop.base.event ev_signal).init = true
  outside : loop.phase = .outside → loop.base.ncalls = none
  picking : ∀ queue, loop.phase = .picking queue →
    loop.base.ncalls.isSome = true ∧ queue < loop.base.activequeues.length
  calling : ∀ queue id, loop.phase = .calling queue id →
    loop.base.ncalls = some 0 ∧ queue < loop.base.activequeues.length ∧
      (loop.base.event id).init = true

end EventLoop

namespace EventBase

variable {k : Kernel β}

/-- What the loop needs a callback to leave alone. -/
structure Keeps (base base' : EventBase β) : Prop where
  ncalls : base'.ncalls = base.ncalls
  priorities : base'.activequeues.length = base.activequeues.length
  init : ∀ id, (base.event id).init = true → (base'.event id).init = true

theorem Keeps.refl (base : EventBase β) : base.Keeps base := ⟨rfl, rfl, fun _ known => known⟩

@[simp] theorem length_withoutActive (base : EventBase β) (id : EvId) :
    (base.withoutActive id).length = base.activequeues.length :=
  List.length_modify _ _ _

@[simp] theorem length_withActive (base : EventBase β) (id : EvId) :
    (base.withActive id).length = base.activequeues.length := by
  unfold withActive
  split
  case isTrue => rfl
  case isFalse => exact List.length_modify _ _ _

theorem Becomes.keeps {base base' : EventBase β} {id : EvId} {ev : Event} {timeouts : List EvId}
    {actives : List (List EvId)} (becomes : base.Becomes base' id ev timeouts actives)
    (priorities : actives.length = base.activequeues.length)
    (init : (base.event id).init = true → ev.init = true) : base.Keeps base' := by
  refine ⟨becomes.counter.1, by rw [becomes.actives, priorities], fun x known => ?_⟩
  by_cases self : x = id
  · subst self
    rw [becomes.self]
    exact init known
  · rw [becomes.other self]
    exact known

theorem Keeps.trans {base base' base'' : EventBase β} (first : base.Keeps base') (second : base'.Keeps base'') :
    base.Keeps base'' :=
  ⟨second.ncalls.trans first.ncalls, second.priorities.trans first.priorities,
    fun id known => second.init id (first.init id known)⟩

/-- The counter of the callbacks is no part of the invariant of the base, nor is `ev_signal_added`. -/
theorem Sound.counters {base : EventBase β} (sound : base.Sound k) (added : Bool) (runs : Nat) (ncalls : Option Nat) :
    ({ base with ev_signal_added := added, runs := runs, ncalls := ncalls } : EventBase β).Sound k :=
  ⟨⟨sound.queues.listed, sound.queues.once, sound.queues.own, sound.queues.known,
    sound.queues.room, sound.queues.balanced, sound.queues.sorted, sound.queues.total,
    sound.queues.active⟩, sound.kernel, sound.calls, sound.counter, sound.apart, sound.inserted, sound.signal,
    sound.priorities⟩

/-- Two writes to one event. -/
theorem modify_modify (base : EventBase β) (id : EvId) (f g : Event → Event) :
    (base.modify id f).modify id g = base.modify id (g ∘ f) := by
  simp only [modify, Function.update_self, Function.update_idem, Function.comp_apply]

theorem modify_keeps (base : EventBase β) (id : EvId) (f : Event → Event)
    (init : (base.event id).init = true → (f (base.event id)).init = true) :
    base.Keeps (base.modify id f) :=
  (base.modify_becomes id f).keeps rfl init

/-- `event_set`: the event is on no queue. -/
theorem eventSet_becomes (base : EventBase β) (id : EvId) (fd : Int) (events : EvMask) :
    ∃ ev : Event, ev.ev_fd = fd ∧ ev.ev_events = events ∧ (∀ queue, ev.flags queue = false) ∧
      base.Becomes (base.eventSet id fd events) id ev base.timetree.toList base.activequeues := by
  unfold EventBase.eventSet
  refine ⟨_, ?_, ?_, ?_, base.modify_becomes id _⟩
  · rfl
  · rfl
  · exact fun _ => rfl

/-- A write of its own priority to an event changes nothing. -/
theorem becomes_self (base : EventBase β) (id : EvId) : base.Becomes base id
    { base.event id with ev_pri := (base.event id).ev_pri } base.timetree.toList base.activequeues :=
  ⟨(Function.update_eq_self id base.event).symm, rfl, rfl, rfl, rfl, rfl⟩

/-- `event_base_priority_init` writes to no event. -/
theorem priorityInit_same (base : EventBase β) (npriorities : Nat) :
    (base.eventBasePriorityInit npriorities).2.event = base.event ∧
      (base.eventBasePriorityInit npriorities).2.ncalls = base.ncalls := by
  unfold eventBasePriorityInit
  split <;> exact ⟨rfl, rfl⟩

/-- `evsignal_recalc`, with room for the event of `signal.c`. -/
theorem Sound.recalc {base : EventBase β} (sound : base.Sound k) {ev_signal : EvId}
    (known : (base.event ev_signal).init = true) (fits : base.ev_signal_added = false → base.Fits k ev_signal) :
    ∃ base', base.evsignalRecalc k.evsel ev_signal = some base' ∧ base'.Sound k ∧ base.Keeps base' ∧
      ∀ x, x ≠ ev_signal → base'.event x = base.event x := by
  unfold evsignalRecalc
  split
  case isTrue => exact ⟨base, rfl, sound, .refl base, fun _ _ => rfl⟩
  case isFalse off =>
    have sound₁ := sound.counters true base.runs base.ncalls
    obtain ⟨ret, base', added, sound', timeouts, becomes, -⟩ :=
      sound₁.add none .clear known (fits (by simpa using off))
    have keeps := becomes.keeps rfl fun known' => by rw [Event.init_added, known']
    exact ⟨base', by rw [added]; rfl, sound', ⟨keeps.ncalls, keeps.priorities, keeps.init⟩, fun _ => becomes.other⟩

/-- One event whose signal was caught, or not. -/
theorem Sound.signalled {base : EventBase β} (sound : base.Sound k) {evsigcaught : Int → Nat}
    (once : ∀ sig, evsigcaught sig ≤ 1) {id : EvId} (known : (base.event id).init = true) :
    ∃ base', signalled k.evsel evsigcaught base id = some base' ∧ base'.Sound k ∧ base.Keeps base' ∧
      ∀ x, x ≠ id → base'.event x = base.event x := by
  unfold EventBase.signalled
  simp only
  split
  case isTrue => exact ⟨base, rfl, sound, .refl base, fun _ _ => rfl⟩
  case isFalse =>
    split
    case isTrue =>
      obtain ⟨base', activated, sound', -, becomes⟩ := sound.active .ofSignal known (once (base.event id).ev_fd)
      exact ⟨base', activated, sound', becomes.keeps (by simp) fun known => by simp [known], fun _ => becomes.other⟩
    case isFalse =>
      obtain ⟨ret, base₁, deleted, sound₁, becomes₁⟩ := sound.del known
      have keeps₁ : base.Keeps base₁ := becomes₁.keeps (by simp) fun known => known
      obtain ⟨base', activated, sound', -, becomes⟩ :=
        sound₁.active .ofSignal (keeps₁.init id known) (once (base.event id).ev_fd)
      refine ⟨base', by simp [deleted, activated], sound', keeps₁.trans ?_, fun x other => ?_⟩
      · exact becomes.keeps (by simp) fun known => by simp [known]
      · rw [becomes.other other, becomes₁.other other]

/-- **`evsignal_process`**, when no signal has been caught twice. -/
theorem Sound.signals {base : EventBase β} (sound : base.Sound k) {evsigcaught : Int → Nat}
    (once : ∀ sig, evsigcaught sig ≤ 1) :
    ∃ base', base.evsignalProcess k.evsel evsigcaught = some base' ∧ base'.Sound k ∧ base.Keeps base' ∧
      ∀ x, x ∉ base.signalqueue → base'.event x = base.event x := by
  have known : ∀ id ∈ base.signalqueue, (base.event id).init = true := fun id member =>
    sound.queues.known .signal id ((sound.queues.listed .signal id).mp member)
  unfold evsignalProcess
  generalize base.signalqueue = ids at known
  induction ids generalizing base with
  | nil => exact ⟨base, rfl, sound, .refl base, fun _ _ => rfl⟩
  | cons id ids ih =>
    obtain ⟨base₁, ran, sound₁, keeps₁, others₁⟩ := sound.signalled once (known id List.mem_cons_self)
    obtain ⟨base', rest, sound', keeps, others⟩ := ih sound₁ fun x member =>
      keeps₁.init x (known x (List.mem_cons_of_mem id member))
    refine ⟨base', by simp [ran, rest], sound', keeps₁.trans keeps, fun x off => ?_⟩
    rw [List.mem_cons, not_or] at off
    rw [others x off.2, others₁ x off.1]

end EventBase

namespace EventLoop

variable {k : Kernel β} {ev_signal : EvId}

/-- A call that leaves a sound base leaves a sound loop. -/
theorem Sound.onBase {loop : EventLoop β} (sound : loop.Sound ev_signal k) {base : EventBase β}
    (kept : base.Sound k) (keeps : loop.base.Keeps base) : (⟨base, loop.phase⟩ : EventLoop β).Sound ev_signal k := by
  refine ⟨kept, keeps.init _ sound.signal, ?_, ?_, ?_⟩
  · intro phase
    exact keeps.ncalls.trans (sound.outside phase)
  · intro queue phase
    obtain ⟨counter, range⟩ := sound.picking queue phase
    exact ⟨by rw [keeps.ncalls, counter], by rw [keeps.priorities]; exact range⟩
  · intro queue id phase
    obtain ⟨counter, range, known⟩ := sound.calling queue id phase
    exact ⟨keeps.ncalls.trans counter, by rw [keeps.priorities]; exact range, keeps.init id known⟩

/-- `event_process_active` finds a queue when something is active. -/
theorem Sound.enter {loop : EventLoop β} (sound : loop.Sound ev_signal k) (outside : loop.phase = .outside) :
    ∃ next, enter loop.base = some next ∧ next.Sound ev_signal k ∧ next.base.event = loop.base.event ∧
      next.base.activequeues = loop.base.activequeues := by
  unfold EventLoop.enter
  split
  case isTrue =>
    exact ⟨_, rfl, ⟨sound.base, sound.signal, fun _ => sound.outside outside, (fun _ absurd => by cases absurd),
      (fun _ _ absurd => by cases absurd)⟩, rfl, rfl⟩
  case isFalse active =>
    cases found : loop.base.activequeues.findIdx? fun l => !l.isEmpty with
    | none =>
      have empty : loop.base.activequeues.flatten = [] := by
        rw [List.findIdx?_eq_none_iff] at found
        rw [List.flatten_eq_nil_iff]
        intro l member
        simpa using found l member
      have none' : loop.base.tally .active = 0 := by
        simp [EventBase.tally, EventBase.members, empty]
      exact absurd (sound.base.queues.active.trans none') active
    | some queue =>
      have range := (List.findIdx?_eq_some_iff_getElem.mp found).1
      refine ⟨_, rfl, ⟨sound.base.counters _ _ _, sound.signal, (fun absurd => by cases absurd), ?_,
        (fun _ _ absurd => by cases absurd)⟩, rfl, rfl⟩
      rintro _ ⟨⟩
      exact ⟨rfl, range⟩

/-- A callback is called with the counter down, and at most once. -/
theorem Sound.again {base : EventBase β} (sound : base.Sound k) (signal : (base.event ev_signal).init = true) (queue : Nat) (id : EvId)
    {ncalls : Nat} (few : ncalls ≤ 1) (range : queue < base.activequeues.length)
    (known : (base.event id).init = true) (counter : base.ncalls = some ncalls)
    (calls : (base.event id).ev_ncalls = ncalls) (run : Nat) :
    ∃ next, again (base.modify id fun ev => { ev with ev_pncalls := some run }) queue id = next ∧
      next.Sound ev_signal k ∧ next.phase = (if ncalls = 0 then .picking queue else .calling queue id) ∧
      next.base.activequeues = base.activequeues ∧
      next.base.event = Function.update base.event id
        { base.event id with ev_pncalls := some run, ev_ncalls := 0 } := by
  have cases' : ncalls = 0 ∨ ncalls = 1 := by omega
  rcases cases' with rfl | rfl
  · have kept : (base.modify id fun ev => { ev with ev_pncalls := some run }).Sound k :=
      sound.modify rfl rfl rfl rfl rfl (fun _ => rfl) (fun _ => rfl) (sound.queues.room id)
        (sound.calls id) (.inl calls)
    have ends : EventLoop.again (base.modify id fun ev => { ev with ev_pncalls := some run }) queue id
        = ⟨base.modify id fun ev => { ev with ev_pncalls := some run }, .picking queue⟩ := by
      simp [EventLoop.again, counter]
    have down : { base.event id with ev_pncalls := some run }
        = { base.event id with ev_pncalls := some run, ev_ncalls := 0 } := by
      rw [← calls]
    have known' := (base.modify_keeps id (fun ev => { ev with ev_pncalls := some run }) fun known => known).init _ signal
    refine ⟨_, ends, ⟨kept, known', (fun absurd => by cases absurd), ?_,
      (fun _ _ absurd => by cases absurd)⟩, rfl, rfl, ?_⟩
    · rintro _ ⟨⟩
      exact ⟨by simp [counter], range⟩
    · rw [← down]
      rfl
  · have kept : (({ base with ncalls := some 0 } : EventBase β).modify id fun ev =>
        { ev with ev_pncalls := some run, ev_ncalls := 0 }).Sound k :=
      (sound.counters base.ev_signal_added base.runs (some 0)).modify rfl rfl rfl rfl rfl (fun _ => rfl) (fun _ => rfl)
        (sound.queues.room id) (Nat.zero_le 1) (.inl rfl)
    have ends : EventLoop.again (base.modify id fun ev => { ev with ev_pncalls := some run }) queue id
        = ⟨({ base with ncalls := some 0 } : EventBase β).modify id fun ev =>
            { ev with ev_pncalls := some run, ev_ncalls := 0 }, .calling queue id⟩ := by
      have twice := EventBase.modify_modify ({ base with ncalls := some 0 } : EventBase β) id
        (fun ev => { ev with ev_pncalls := some run }) fun ev => { ev with ev_ncalls := 0 }
      simp only [EventLoop.again, EventBase.ncalls_modify, counter]
      exact congrArg (EventLoop.mk · (.calling queue id)) twice
    have known' := (EventBase.modify_keeps { base with ncalls := some 0 } id
      (fun ev => { ev with ev_pncalls := some run, ev_ncalls := 0 }) fun known => known).init _ signal
    refine ⟨_, ends, ⟨kept, known', (fun absurd => by cases absurd),
      (fun _ absurd => by cases absurd), ?_⟩, rfl, rfl, rfl⟩
    rintro _ _ ⟨⟩
    exact ⟨rfl, range, by simpa using known⟩

/-- What the step to the next event of the queue does: at the end of the queue the loop is left, and
an event leaves the queue for its callback, unless it was activated for no call. -/
def Picks (loop next : EventLoop β) (queue : Nat) : List EvId → Prop
  | [] => next.phase = .outside ∧ next.base.activequeues = loop.base.activequeues ∧
      next.base.event = loop.base.event
  | id :: rest =>
    next.phase = (if (loop.base.event id).ev_ncalls = 0 then .picking queue else .calling queue id) ∧
      next.base.activequeues = loop.base.activequeues.set queue rest ∧
      ∃ run, next.base.event = Function.update loop.base.event id
        { (loop.base.event id).mark .active false with ev_pncalls := some run, ev_ncalls := 0 }

theorem Sound.call {loop : EventLoop β} (sound : loop.Sound ev_signal k) {queue : Nat}
    (picking : loop.phase = .picking queue) :
    ∃ next l, call loop.base queue = some next ∧ next.Sound ev_signal k ∧
      loop.base.activequeues[queue]? = some l ∧ loop.Picks next queue l := by
  obtain ⟨-, range⟩ := sound.picking queue picking
  have there := List.getElem?_eq_getElem range
  unfold EventLoop.call
  generalize loop.base.activequeues[queue] = l at there
  simp only [there]
  cases l with
  | nil =>
    exact ⟨_, [], rfl, ⟨sound.base.counters _ _ _, sound.signal, fun _ => rfl, (fun _ absurd => by cases absurd),
      (fun _ _ absurd => by cases absurd)⟩, rfl, rfl, rfl, rfl⟩
  | cons id rest =>
    have active : (loop.base.event id).flags .active = true :=
      (sound.base.queues.listed .active id).mp
        (List.mem_flatten.mpr ⟨_, List.mem_of_getElem? there, List.mem_cons_self⟩)
    have known := sound.base.queues.known .active id active
    have mine := sound.base.queues.own queue _ there id List.mem_cons_self
    obtain ⟨base₁, removed, moves⟩ := EventBase.eventQueueRemove_moves sound.base.queues active
    have sound₁ := moves.sound_idle sound.base active known (.inr rfl)
    have becomes := moves.becomes
    have actives : base₁.activequeues = loop.base.activequeues.set queue rest := by
      rw [becomes.actives, if_pos rfl, mine]
      simp [List.modify_eq_set_getElem?, there]
    have event₁ : base₁.event id = (loop.base.event id).mark .active false := becomes.self
    have signal₁ : (base₁.event ev_signal).init = true :=
      (becomes.keeps (by rw [← becomes.actives, moves.priorities]) fun known => known).init _ sound.signal
    obtain ⟨next, ran, kept, phase, queues, event⟩ := Sound.again
      (sound₁.counters base₁.ev_signal_added base₁.runs (some (base₁.event id).ev_ncalls)) signal₁ queue id
      (sound₁.calls id) (by simpa [actives] using range)
      (show (base₁.event id).init = true by rw [event₁]; exact known) rfl rfl base₁.runs
    refine ⟨next, _, ?_, kept, rfl, ?_, queues.trans actives, base₁.runs, ?_⟩
    · simp only [Option.bind_eq_bind, removed, Option.bind_some]
      exact congrArg some ran
    · rw [phase, event₁]
      rfl
    · rw [event]
      simp only [event₁]
      rw [becomes.event, Function.update_idem]

/-- Nothing may be called behind `event_destroy`. -/
theorem Allowed.alive {loop : EventLoop β} {e : LoopStep} (allowed : loop.Allowed ev_signal k e) :
    loop.phase ≠ .destroyed := by
  intro gone
  cases e <;> simp [Allowed, Programs, gone] at allowed

/-- What a step does to the events and to the active queues. -/
def Effect (ev_signal : EvId) (loop next : EventLoop β) : LoopStep → Prop
  | .set id fd events => next.phase = loop.phase ∧ ∃ ev : Event, ev.ev_fd = fd ∧ ev.ev_events = events ∧
      (∀ queue, ev.flags queue = false) ∧
      loop.base.Becomes next.base id ev loop.base.timetree.toList loop.base.activequeues
  | .baseSet id | .prioritySet id _ => next.phase = loop.phase ∧ ∃ pri, loop.base.Becomes next.base id
      { loop.base.event id with ev_pri := pri } loop.base.timetree.toList loop.base.activequeues
  | .add id tv now => next.phase = loop.phase ∧ ∃ timeouts,
      loop.base.Becomes next.base id ((loop.base.event id).added (tv.map now.add)) timeouts
        (if tv.isSome && (loop.base.event id).ev_res.timeout then loop.base.withoutActive id
          else loop.base.activequeues)
  | .del id => next.phase = loop.phase ∧ loop.base.Becomes next.base id (loop.base.event id).deleted
      (loop.base.timetree.toList.erase id) (loop.base.withoutActive id)
  | .active id res ncalls => next.phase = loop.phase ∧
      loop.base.Becomes next.base id ((loop.base.event id).activated res ncalls)
        loop.base.timetree.toList (loop.base.withActive id)
  | .recalc => ∀ id, id ≠ ev_signal → next.base.event id = loop.base.event id
  | .signals _ => ∀ id, id ∉ loop.base.signalqueue → next.base.event id = loop.base.event id
  | .correct off => ∀ id, next.base.event id =
      if (loop.base.event id).flags .timeout then
        { loop.base.event id with ev_timeout := (loop.base.event id).ev_timeout.sub off }
      else loop.base.event id
  | .timeouts now => loop.base.Expires next.base (loop.base.due now)
  | .priorityInit _ | .enter => next.base.event = loop.base.event
  | .call => ∃ queue l, loop.phase = .picking queue ∧ loop.base.activequeues[queue]? = some l ∧
      loop.Picks next queue l
  | .back => ∃ queue id, loop.phase = .calling queue id ∧ next = ⟨loop.base, .picking queue⟩
  | .destroy => next.base = loop.base

/-- `event_base_set` and `event_priority_set` write a priority, or nothing. -/
theorem Sound.writes {loop : EventLoop β} (sound : loop.Sound ev_signal k) (id : EvId) {base : EventBase β}
    (kept : base.Sound k) (written : base = loop.base ∨
      ∃ pri, base = loop.base.modify id fun ev => { ev with ev_pri := pri }) :
    (⟨base, loop.phase⟩ : EventLoop β).Sound ev_signal k ∧ ∃ pri, loop.base.Becomes base id
      { loop.base.event id with ev_pri := pri } loop.base.timetree.toList loop.base.activequeues := by
  rcases written with rfl | ⟨pri, rfl⟩
  · exact ⟨sound, _, loop.base.becomes_self id⟩
  · have becomes := loop.base.modify_becomes id fun ev => { ev with ev_pri := pri }
    exact ⟨sound.onBase kept (becomes.keeps rfl fun known => known), pri, becomes⟩

/-- There is nothing to delete from an event that has not been set. -/
theorem Sound.becomes_unset {loop : EventLoop β} (sound : loop.Sound ev_signal k) {id : EvId}
    (unset : (loop.base.event id).init ≠ true) : loop.base.Becomes loop.base id (loop.base.event id).deleted
      (loop.base.timetree.toList.erase id) (loop.base.withoutActive id) := by
  have queues := sound.base.queues
  have off : ∀ queue, (loop.base.event id).flags queue = false := by
    intro queue
    by_contra on
    exact unset (queues.known queue id (by simpa using on))
  have same : (loop.base.event id).deleted = loop.base.event id := by
    rw [Event.deleted, ← funext off]
  refine ⟨by rw [same, Function.update_eq_self], ?_, (EventBase.withoutActive_of_idle queues (off .active)).symm,
    rfl, rfl, rfl⟩
  refine (List.erase_of_not_mem fun member => ?_).symm
  have on := (queues.listed .timeout id).mp member
  rw [off] at on
  cases on

/-- **What a step can do**: from a sound loop, a step the program may take leads to a sound loop, and has
its effect. -/
theorem Sound.take {loop : EventLoop β}
    (sound : loop.Sound ev_signal k) {e : LoopStep} (allowed : loop.Allowed ev_signal k e) :
    ∃ next, loop.take k.evsel ev_signal e = some next ∧ next.Sound ev_signal k ∧ loop.Effect ev_signal next e := by
  cases e with
  | set id fd events =>
    obtain ⟨-, free, apart⟩ := allowed
    exact ⟨_, rfl, sound.onBase (sound.base.set fd free apart)
      (EventBase.modify_keeps _ _ _ fun _ => rfl), rfl, loop.base.eventSet_becomes id fd events⟩
  | baseSet id =>
    obtain ⟨kept, effect⟩ := sound.writes id (sound.base.baseSet id) <| by
      unfold EventBase.eventBaseSet
      simp only
      split
      case isTrue => exact .inl rfl
      case isFalse => exact .inr ⟨_, rfl⟩
    exact ⟨_, rfl, kept, rfl, effect⟩
  | prioritySet id pri =>
    obtain ⟨kept, effect⟩ := sound.writes id (sound.base.prioritySet id pri) <| by
      unfold EventBase.eventPrioritySet
      split
      case isTrue => exact .inl rfl
      case isFalse =>
        split
        case isTrue => exact .inl rfl
        case isFalse => exact .inr ⟨_, rfl⟩
    exact ⟨_, rfl, kept, rfl, effect⟩
  | add id tv now =>
    obtain ⟨-, known, fits⟩ := allowed
    obtain ⟨ret, base', added, kept, timeouts, becomes, -⟩ := sound.base.add tv now known fits
    refine ⟨⟨base', loop.phase⟩, by simp [EventLoop.take, EventLoop.onBase, added],
      sound.onBase kept (becomes.keeps ?_ fun _ => ?_), rfl, timeouts, becomes⟩
    · split <;> simp
    · simp [known]
  | del id =>
    by_cases known : (loop.base.event id).init = true
    · obtain ⟨ret, base', deleted, kept, becomes⟩ := sound.base.del known
      exact ⟨⟨base', loop.phase⟩, by simp [EventLoop.take, EventLoop.onBase, deleted],
        sound.onBase kept (becomes.keeps (by simp) fun known => known), rfl, becomes⟩
    · exact ⟨loop, by simp [EventLoop.take, EventLoop.onBase, EventBase.eventDel, known], sound, rfl,
        sound.becomes_unset known⟩
  | active id res ncalls =>
    obtain ⟨-, known, few⟩ := allowed
    obtain ⟨base', activated, kept, -, becomes⟩ := sound.base.active res known few
    exact ⟨⟨base', loop.phase⟩, by simp [EventLoop.take, EventLoop.onBase, activated],
      sound.onBase kept (becomes.keeps (by simp) fun known => by simp [known]), rfl, becomes⟩
  | priorityInit npriorities =>
    obtain ⟨outside, idle, some', room⟩ := allowed
    obtain ⟨event, counter⟩ := loop.base.priorityInit_same npriorities
    refine ⟨_, rfl, ⟨sound.base.priorityInit idle some' room, ?_, fun _ => ?_, ?_, ?_⟩, event⟩
    · simp only [event]
      exact sound.signal
    · simp only [counter]
      exact sound.outside outside
    · intro queue picking
      rw [outside] at picking
      cases picking
    · intro queue id calling
      rw [outside] at calling
      cases calling
  | recalc =>
    obtain ⟨-, fits⟩ := allowed
    obtain ⟨base', ran, kept, keeps, others⟩ := sound.base.recalc sound.signal fits
    exact ⟨⟨base', loop.phase⟩, by simp [EventLoop.take, EventLoop.onBase, ran], sound.onBase kept keeps, others⟩
  | signals evsigcaught =>
    obtain ⟨-, once⟩ := allowed
    obtain ⟨base', ran, kept, keeps, others⟩ := sound.base.signals once
    exact ⟨⟨base', loop.phase⟩, by simp [EventLoop.take, EventLoop.onBase, ran], sound.onBase kept keeps, others⟩
  | correct off =>
    obtain ⟨kept, -, queues, counter, event⟩ := EventBase.timeoutCorrect_moves sound.base off
    refine ⟨_, rfl, sound.onBase kept ⟨counter, by rw [queues], fun id known => ?_⟩, event⟩
    rw [event]
    split <;> exact known
  | timeouts now =>
    obtain ⟨base', ran, kept, expires⟩ :=
      EventBase.timeoutLoop_expires now sound.base (le_refl _)
    refine ⟨⟨base', loop.phase⟩, by simp [EventLoop.take, EventLoop.onBase, EventBase.timeoutProcess, ran],
      sound.onBase kept ⟨expires.counter.1, expires.length, fun id known => ?_⟩, expires⟩
    by_cases member : id ∈ loop.base.due now
    · rw [expires.expired id member]
      exact known
    · rw [expires.others id member]
      exact known
  | enter =>
    obtain ⟨next, entered, kept, event, -⟩ := Sound.enter sound allowed
    exact ⟨next, entered, kept, event⟩
  | call =>
    obtain ⟨queue, picking⟩ := allowed
    obtain ⟨next, l, called, kept, there, picks⟩ := sound.call picking
    exact ⟨next, by simp [EventLoop.take, picking, called], kept, queue, l, picking, there, picks⟩
  | back =>
    obtain ⟨queue, id, calling⟩ := allowed
    obtain ⟨counter, range, known⟩ := sound.calling queue id calling
    refine ⟨⟨loop.base, .picking queue⟩, by simp [EventLoop.take, calling, EventLoop.again, counter],
      ⟨sound.base, sound.signal, (fun absurd => by cases absurd), ?_, (fun _ _ absurd => by cases absurd)⟩,
      queue, id, calling, rfl⟩
    rintro _ ⟨⟩
    exact ⟨by rw [counter]; rfl, range⟩
  | destroy =>
    exact ⟨⟨loop.base, .destroyed⟩, rfl, ⟨sound.base, sound.signal, (fun absurd => by cases absurd),
      (fun _ absurd => by cases absurd), (fun _ _ absurd => by cases absurd)⟩, rfl⟩

/-- **A step the program may take is taken**, and it leaves a sound loop. -/
theorem Sound.step {loop : EventLoop β}
    (sound : loop.Sound ev_signal k) {e : LoopStep} (allowed : loop.Allowed ev_signal k e) :
    ∃ next, loop.step k.evsel ev_signal e = some next ∧ next.Sound ev_signal k := by
  obtain ⟨next, taken, sound', -⟩ := sound.take allowed
  exact ⟨next, by rw [EventLoop.step, if_neg allowed.alive, taken], sound'⟩

/-- What a step that was taken has done. -/
theorem Sound.effect {loop loop' : EventLoop β} (sound : loop.Sound ev_signal k) {e : LoopStep}
    (allowed : loop.Allowed ev_signal k e) (taken : loop.step k.evsel ev_signal e = some loop') :
    loop.Effect ev_signal loop' e := by
  obtain ⟨next, taken', -, effect⟩ := sound.take allowed
  rw [EventLoop.step, if_neg allowed.alive, taken'] at taken
  cases taken
  exact effect

theorem sound_init {evbase : β} (inv : k.inv evbase fun _ => none) (ev_signal : EvId) (fd : Int) (now : Timeval) :
    (init evbase ev_signal fd now).Sound ev_signal k := by
  have fresh : ({ blank evbase now with activequeues := [[]] } : EventBase β).Sound k := by
    refine ⟨⟨?_, ?_, ?_, ?_, ?_, .nil, .nil, rfl, rfl⟩, inv, ?_, ?_, ?_, ?_, ?_, Nat.one_pos⟩
    · intro queue id
      cases queue <;> simp [blank, EventBase.members]
    · intro queue
      cases queue <;> simp [blank, EventBase.members]
    · intro pri l there id member
      cases pri with
      | zero => cases there; cases member
      | succ pri => cases there
    · intro queue id flagged
      cases flagged
    · intro id known
      cases known
    · exact fun _ => Nat.zero_le 1
    · exact fun _ => .inl rfl
    · exact fun _ => rfl
    · exact fun _ flagged => by cases flagged
    · exact fun _ flagged => by cases flagged
  have same : (init evbase ev_signal fd now).base =
      ({ blank evbase now with activequeues := [[]] } : EventBase β).evsignalInit ev_signal fd := by
    simp [init, EventBase.eventBasePriorityInit, EventBase.evsignalInit, EventBase.eventSet, EventBase.modify, blank]
  refine ⟨same ▸ fresh.signalInit fd fun _ => rfl, ?_, fun _ => rfl, (fun _ absurd => by cases absurd),
    (fun _ _ absurd => by cases absurd)⟩
  show ((EventBase.evsignalInit _ ev_signal fd).event ev_signal).init = true
  simp [EventBase.evsignalInit, EventBase.eventSet]

/-- Whatever the program and its callbacks do, the loop stays sound. -/
theorem sound_of_run {loop loop' : EventLoop β}
    (sound : loop.Sound ev_signal k) {es : List LoopStep}
    (run : Lib.Runs (EventLoop.step k.evsel ev_signal) (fun loop e _ => loop.Allowed ev_signal k e) loop es loop') :
    loop'.Sound ev_signal k := by
  refine run.invariant sound fun a e b kept taken allowed => ?_
  obtain ⟨next, stepped, sound'⟩ := kept.step allowed
  rw [taken] at stepped
  cases stepped
  exact sound'

/-! ## Callbacks are called in turn -/

/-- The steps that take an event from the active queue: its callback, and the calls that stop or
reschedule it. -/
def Touches (loop : EventLoop β) (id : EvId) : LoopStep → Prop
  | .call => ∃ queue rest, loop.phase = .picking queue ∧
      loop.base.activequeues[queue]? = some (id :: rest)
  | .del x => x = id
  | .add x _ _ => x = id
  | _ => False

/-- The loop is in `event_process_active` on this queue. -/
def Drains (loop : EventLoop β) (queue : Nat) : Prop :=
  loop.phase = .picking queue ∨ ∃ id, loop.phase = .calling queue id

/-- An event stands in the active queue behind `n` others at most. -/
def Stands (base : EventBase β) (queue : Nat) (id : EvId) (n : Nat) : Prop :=
  ∃ l, base.activequeues[queue]? = some l ∧ id ∈ l ∧ l.idxOf id ≤ n

def isCall : LoopStep → Bool
  | .call => true
  | _ => false

theorem idxOf_erase_le {l : List EvId} {id x : EvId} (other : x ≠ id) :
    (l.erase x).idxOf id ≤ l.idxOf id := by
  induction l with
  | nil => exact Nat.le_refl _
  | cons y l ih =>
    by_cases same : y = x
    · subst same
      rw [List.erase_cons_head, List.idxOf_cons_ne _ other]
      exact Nat.le_succ _
    · rw [List.erase_cons_tail (by simpa using same)]
      by_cases mine : y = id
      · subst mine
        simp
      · rw [List.idxOf_cons_ne _ mine, List.idxOf_cons_ne _ mine]
        exact Nat.succ_le_succ ih

theorem Stands.without {base : EventBase β} {queue : Nat} {id x : EvId} {n : Nat}
    (stands : Stands base queue id n) (other : x ≠ id) {base' : EventBase β}
    (actives : base'.activequeues = base.withoutActive x) : Stands base' queue id n := by
  obtain ⟨l, there, member, behind⟩ := stands
  rw [Stands, actives, EventBase.withoutActive, List.getElem?_modify, there]
  simp only [Option.map_eq_map, Option.map_some]
  split
  case isTrue =>
    exact ⟨_, rfl, (List.mem_erase_of_ne other.symm).mpr member, (idxOf_erase_le other).trans behind⟩
  case isFalse => exact ⟨l, rfl, member, behind⟩

theorem Stands.with {base : EventBase β} {queue : Nat} {id : EvId} {n : Nat}
    (stands : Stands base queue id n) (x : EvId) {base' : EventBase β}
    (actives : base'.activequeues = base.withActive x) : Stands base' queue id n := by
  obtain ⟨l, there, member, behind⟩ := stands
  rw [Stands, actives, EventBase.withActive]
  split
  case isTrue => exact ⟨l, there, member, behind⟩
  case isFalse =>
    rw [List.getElem?_modify, there]
    simp only [Option.map_eq_map, Option.map_some]
    split
    case isTrue =>
      refine ⟨_, rfl, List.mem_append_left _ member, ?_⟩
      rwa [List.idxOf_append_of_mem member]
    case isFalse => exact ⟨l, rfl, member, behind⟩

theorem Stands.same {base base' : EventBase β} {queue : Nat} {id : EvId} {n : Nat}
    (stands : Stands base queue id n) (actives : base'.activequeues = base.activequeues) :
    Stands base' queue id n := by
  rw [Stands, actives]
  exact stands

/-- Nothing but its own callback, or a call about it, brings an event back in its queue. -/
theorem Sound.stands {loop loop' : EventLoop β}
    (sound : loop.Sound ev_signal k) {queue : Nat} {id : EvId} {n : Nat} {e : LoopStep}
    (drains : loop.Drains queue) (stands : Stands loop.base queue id n) (allowed : loop.Allowed ev_signal k e)
    (apart : ¬ loop.Touches id e) (taken : loop.step k.evsel ev_signal e = some loop') :
    loop'.Drains queue ∧ if isCall e then 0 < n ∧ Stands loop'.base queue id (n - 1)
      else Stands loop'.base queue id n := by
  have inside : loop.phase ≠ .outside := by
    rcases drains with phase | ⟨x, phase⟩ <;> rw [phase] <;> exact fun absurd => by cases absurd
  have effect := sound.effect allowed taken
  have drains' : loop'.phase = loop.phase → loop'.Drains queue := fun same => by
    rw [Drains, same]
    exact drains
  cases e with
  | set x fd events =>
    obtain ⟨phase, ev, -, -, -, becomes⟩ := effect
    exact ⟨drains' phase, stands.same becomes.actives⟩
  | baseSet x =>
    obtain ⟨phase, pri, becomes⟩ := effect
    exact ⟨drains' phase, stands.same becomes.actives⟩
  | prioritySet x pri =>
    obtain ⟨phase, pri, becomes⟩ := effect
    exact ⟨drains' phase, stands.same becomes.actives⟩
  | add x tv now =>
    obtain ⟨phase, timeouts, becomes⟩ := effect
    have actives := becomes.actives
    refine ⟨drains' phase, ?_⟩
    split at actives
    case isTrue => exact stands.without apart actives
    case isFalse => exact stands.same actives
  | del x =>
    obtain ⟨phase, becomes⟩ := effect
    exact ⟨drains' phase, stands.without apart becomes.actives⟩
  | active x res ncalls =>
    obtain ⟨phase, becomes⟩ := effect
    exact ⟨drains' phase, stands.with x becomes.actives⟩
  | priorityInit npriorities => exact absurd allowed.1 inside
  | recalc => exact absurd allowed.1 inside
  | signals evsigcaught => exact absurd allowed.1 inside
  | correct off => exact absurd allowed inside
  | timeouts now => exact absurd allowed inside
  | enter => exact absurd allowed inside
  | call =>
    obtain ⟨queue', l, picking, there, picks⟩ := effect
    have same : queue' = queue := by
      rcases drains with phase | ⟨x, phase⟩
      · rw [picking] at phase; cases phase; rfl
      · rw [picking] at phase; cases phase
    subst same
    obtain ⟨l', there', member, behind⟩ := stands
    rw [there] at there'
    cases there'
    cases l with
    | nil => cases member
    | cons x rest =>
      obtain ⟨phase, actives, -⟩ := picks
      have other : x ≠ id := by
        rintro rfl
        exact apart ⟨queue', rest, picking, there⟩
      rw [List.idxOf_cons_ne _ other] at behind
      have inRest : id ∈ rest := (List.mem_cons.mp member).resolve_left other.symm
      refine ⟨?_, by omega, rest, ?_, inRest, by omega⟩
      · rw [Drains, phase]
        split
        case isTrue => exact .inl rfl
        case isFalse => exact .inr ⟨x, rfl⟩
      · rw [actives, List.getElem?_set_self (List.getElem?_eq_some_iff.mp there).1]
  | back =>
    obtain ⟨queue', x, calling, rfl⟩ := effect
    have same : queue' = queue := by
      rcases drains with phase | ⟨y, phase⟩
      · rw [calling] at phase; cases phase
      · rw [calling] at phase; cases phase; rfl
    subst same
    exact ⟨.inl rfl, stands⟩
  | destroy => exact absurd allowed inside

end EventLoop

end GreatEvent.Evsys
