import GreatEvent.Net.EpollDispatch
import GreatEvent.Net.EventLoop

/-!
# Every run of the event loop

What holds whatever a program and its callbacks do, from `event_init` on.
-/

namespace GreatEvent.Evsys

namespace EventLoop

variable {β : Type} {k : Kernel β}

theorem idle_init (evbase : β) (ev_signal : EvId) (fd : Int) (now : Timeval) (id : EvId) :
    (∀ queue, ((init evbase ev_signal fd now).base.event id).flags queue = false) ∧
      ((init evbase ev_signal fd now).base.event id).ev_pri = 0 := by
  simp only [init, EventBase.eventBasePriorityInit, EventBase.evsignalInit, EventBase.eventSet, EventBase.modify, blank,
    Function.update_apply]
  by_cases self : id = ev_signal <;> simp [self]

/-- Nobody waits for a descriptor whose entry is empty. -/
theorem Sound.fits {loop : EventLoop Epollop} {ev_signal : EvId} {n : Nat} {refused : Int → Bool}
    (sound : loop.Sound ev_signal (epoll n refused)) {id : EvId} (io : (loop.base.event id).ev_events.signal = false)
    (low : 0 ≤ (loop.base.event id).ev_fd) (high : (loop.base.event id).ev_fd < n)
    (taken : refused (loop.base.event id).ev_fd = false)
    (empty : loop.base.evbase.slot (loop.base.event id).ev_fd = .empty) : loop.base.Fits (epoll n refused) id := by
  have mirrors : loop.base.evbase.Mirrors n refused _ := sound.base.kernel
  intro _ _
  show Epollop.Free n _ _ _
  rw [Epollop.Free, if_neg (by simp [io])]
  refine ⟨low, high, fun x => ⟨fun _ waits => ?_, fun _ waits => ?_⟩⟩
  · have shown := (mirrors.reads _ x).mpr ⟨taken, waits⟩
    rw [empty] at shown
    cases shown
  · have shown := (mirrors.writes _ x).mpr ⟨taken, waits⟩
    rw [empty] at shown
    cases shown

/-- Behind `event_init` there are two priorities and the loop has looked once, so that event 0 waits for
the signal handler on descriptor 2. Event 7 waits for input on descriptor 3. -/
theorem run_reader : ∃ loop : EventLoop Epollop,
    Lib.Runs (EventLoop.step (epoll 4 fun _ => false).evsel 0)
      (fun loop e _ => loop.Allowed 0 (epoll 4 fun _ => false) e)
      (init (Epollop.init 4 fun _ => false) 0 2 .clear)
      [.priorityInit 2, .recalc, .set 7 3 .ofRead, .add 7 (some (.ofSeconds 1)) .clear] loop ∧
    loop.base.evbase.interest 3 = some ⟨true, false⟩ ∧
    (loop.base.event 7).flags .inserted = true ∧ (loop.base.event 7).flags .timeout = true ∧
    (loop.base.event 7).flags .active = false ∧ (loop.base.event 7).ev_fd = 3 ∧
    (loop.base.event 7).ev_events = .ofRead ∧ (loop.base.event 7).ev_timeout.micros = 1000000 := by
  have start := sound_init (k := epoll 4 fun _ => false) (Epollop.mirrors_init 4 fun _ => false) 0 2 .clear
  have idle := idle_init (Epollop.init 4 fun _ => false) 0 2 .clear
  have first : Lib.Runs (EventLoop.step (epoll 4 fun _ => false).evsel 0)
      (fun loop e _ => loop.Allowed 0 (epoll 4 fun _ => false) e)
      (init (Epollop.init 4 fun _ => false) 0 2 .clear) [.priorityInit 2] _ :=
    .single rfl ⟨rfl, fun id => (idle id).1 .active, by decide, fun id _ => by rw [(idle id).2]; decide⟩
  have second := first.snoc (e := LoopStep.recalc) rfl
    ⟨rfl, fun _ => (sound_of_run start first).fits rfl (by decide) (by decide) rfl rfl⟩
  have third := second.snoc (e := LoopStep.set 7 3 .ofRead) rfl ⟨.inl rfl, fun _ => rfl, rfl⟩
  exact ⟨_, third.snoc rfl ⟨.inl rfl, rfl, (sound_of_run start third).fits rfl (by decide) (by decide) rfl rfl⟩,
    rfl, rfl, rfl, rfl, rfl, rfl, rfl⟩

/-- **The kernel watches what the events wait for, in every run**: when a program waits for input on a
descriptor with one event at most, and for output with one, the table knows these events, the kernel is
asked for input exactly where an event waits for it, and for output likewise, a descriptor nobody waits
for is not on its list, and the signals blocked are those waited for. -/
theorem interest_of_run {n : Nat} {refused : Int → Bool} (ev_signal : EvId) (fd : Int) (now : Timeval) {es : List LoopStep}
    {loop : EventLoop Epollop}
    (run : Lib.Runs (EventLoop.step Epollop.epollops ev_signal)
      (fun loop e _ => loop.Allowed ev_signal (epoll n refused) e) (init (Epollop.init n refused) ev_signal fd now)
      es loop) :
    (∀ fd, refused fd = false →
      (∀ id, (loop.base.evbase.slot fd).evread = some id ↔
        (loop.base.event id).flags .inserted = true ∧ (loop.base.event id).ev_fd = fd ∧
          (loop.base.event id).ev_events.read = true) ∧
      (∀ id, (loop.base.evbase.slot fd).evwrite = some id ↔
        (loop.base.event id).flags .inserted = true ∧ (loop.base.event id).ev_fd = fd ∧
          (loop.base.event id).ev_events.write = true) ∧
      ((∃ bits, loop.base.evbase.interest fd = some bits ∧ bits.input = true) ↔
        ∃ id, (loop.base.event id).flags .inserted = true ∧ (loop.base.event id).ev_fd = fd ∧
          (loop.base.event id).ev_events.read = true) ∧
      ((∃ bits, loop.base.evbase.interest fd = some bits ∧ bits.output = true) ↔
        ∃ id, (loop.base.event id).flags .inserted = true ∧ (loop.base.event id).ev_fd = fd ∧
          (loop.base.event id).ev_events.write = true) ∧
      (loop.base.evbase.interest fd = none ↔
        ∀ id, (loop.base.event id).flags .inserted = true → (loop.base.event id).ev_fd ≠ fd)) ∧
    ∀ sig, sig ∈ loop.base.evbase.evsigmask ↔
      ∃ id, (loop.base.event id).flags .signal = true ∧ (loop.base.event id).ev_fd = sig := by
  have sound : loop.Sound ev_signal (epoll n refused) :=
    sound_of_run (sound_init (Epollop.mirrors_init n refused) ev_signal fd now) run
  have mirrors : loop.base.evbase.Mirrors n refused _ := sound.base.kernel
  have readers := fun fd id => sound.base.waits_io EvMask.read (fun events holds => by
    simp [EvMask.io, holds]) fd id
  have writers := fun fd id => sound.base.waits_io EvMask.write (fun events holds => by
    simp [EvMask.io, holds]) fd id
  refine ⟨fun fd taken => ?_, fun sig => ?_⟩
  · have reads : ∀ id, (loop.base.evbase.slot fd).evread = some id ↔
        (loop.base.event id).flags .inserted = true ∧ (loop.base.event id).ev_fd = fd ∧
          (loop.base.event id).ev_events.read = true := by
      intro id
      rw [mirrors.reads, taken, and_iff_right rfl, readers]
    have writes : ∀ id, (loop.base.evbase.slot fd).evwrite = some id ↔
        (loop.base.event id).flags .inserted = true ∧ (loop.base.event id).ev_fd = fd ∧
          (loop.base.event id).ev_events.write = true := by
      intro id
      rw [mirrors.writes, taken, and_iff_right rfl, writers]
    refine ⟨reads, writes, ?_, ?_, ?_⟩
    · simp only [mirrors.interest, Evepoll.input_interest, Option.isSome_iff_exists, reads]
    · simp only [mirrors.interest, Evepoll.output_interest, Option.isSome_iff_exists, writes]
    · rw [mirrors.interest, Evepoll.interest_eq_none, Option.eq_none_iff_forall_ne_some,
        Option.eq_none_iff_forall_ne_some]
      constructor
      · rintro ⟨noReader, noWriter⟩ id inserted here
        have io := sound.base.inserted id inserted
        simp only [EvMask.io, Bool.or_eq_true] at io
        rcases io with read | write
        · exact noReader id ((reads id).mpr ⟨inserted, here, read⟩)
        · exact noWriter id ((writes id).mpr ⟨inserted, here, write⟩)
      · intro nobody
        exact ⟨fun id shown => nobody id ((reads id).mp shown).1 ((reads id).mp shown).2.1,
          fun id shown => nobody id ((writes id).mp shown).1 ((writes id).mp shown).2.1⟩
  · rw [mirrors.signals]
    exact exists_congr fun id => sound.base.waits_signal sig id

theorem interest_of_run_reader : ∃ loop : EventLoop Epollop,
    loop.base.evbase.interest 3 = some ⟨true, false⟩ ∧ (loop.base.evbase.slot 3).evread = some 7 := by
  obtain ⟨loop, run, asked, inserted, -, -, fd, events, -⟩ := run_reader
  have mirrored := (interest_of_run 0 2 .clear run).1 3 rfl
  exact ⟨loop, asked, (mirrored.1 7).mpr ⟨inserted, fd, by rw [events]; rfl⟩⟩

/-- **No timeout fires early and none is missed, in every run**: `timeout_process` makes the events
whose time has come active and leaves the others alone, and in each active queue those events follow
what was there in the order of their times. -/
theorem timeouts_of_run {evbase : β} (inv : k.inv evbase fun _ => none) (ev_signal : EvId) (fd : Int) (start now : Timeval)
    {es : List LoopStep} {loop : EventLoop β}
    (run : Lib.Runs (EventLoop.step k.evsel ev_signal) (fun loop e _ => loop.Allowed ev_signal k e)
      (init evbase ev_signal fd start) es loop) :
    ∃ (base' : EventBase β) (ids : List EvId),
      EventBase.timeoutProcess k.evsel loop.base now = some base' ∧
      ids.Nodup ∧ (∀ id, id ∈ ids ↔ (loop.base.event id).flags .timeout = true ∧
        (loop.base.event id).ev_timeout.micros ≤ now.micros) ∧
      (ids.Pairwise fun x y =>
        (loop.base.event x).ev_timeout.micros ≤ (loop.base.event y).ev_timeout.micros) ∧
      (∀ id, base'.event id
        = if id ∈ ids then (loop.base.event id).expired else loop.base.event id) ∧
      ∀ (pri : Nat) (l : List EvId), loop.base.activequeues[pri]? = some l → base'.activequeues[pri]?
        = some (l.filter (fun id => id ∉ ids) ++
            ids.filter fun id => (loop.base.event id).ev_pri = pri) := by
  obtain ⟨base', ids, ran, -, once, due, inOrder, events, queues⟩ :=
    EventBase.timeoutProcess_fires (sound_of_run (sound_init inv ev_signal fd start) run).base now
  exact ⟨base', ids, ran, once, due, inOrder, events, queues⟩

theorem timeouts_of_run_reader : ∃ (loop : EventLoop Epollop) (base' : EventBase Epollop),
    EventBase.timeoutProcess Epollop.epollops loop.base (.ofSeconds 2) = some base' ∧
      (loop.base.event 7).flags .inserted = true ∧ (base'.event 7).flags .inserted = false ∧
      (base'.event 7).flags .active = true := by
  obtain ⟨loop, run, -, inserted, timed, -, -, -, time⟩ := run_reader
  obtain ⟨base', ids, ran, -, due, -, events, -⟩ := timeouts_of_run
    (Epollop.mirrors_init 4 fun _ => false) 0 2 .clear (.ofSeconds 2) run
  have late : (7 : Nat) ∈ ids := (due 7).mpr ⟨timed, by rw [time]; decide⟩
  refine ⟨loop, base', ran, inserted, ?_, ?_⟩
  · rw [events, if_pos late, Event.expired_flags]
    rfl
  · rw [events, if_pos late, Event.expired_flags]
    rfl

/-- **The loop does not sleep past a timeout, in any run**: what `timeout_next` waits ends no later than
the time of any event, when it is not zero it ends at the time of one, and it is five seconds when no
event has one. -/
theorem sleep_of_run {evbase : β} (inv : k.inv evbase fun _ => none) (ev_signal : EvId) (fd : Int) (start now : Timeval)
    {es : List LoopStep} {loop : EventLoop β}
    (run : Lib.Runs (EventLoop.step k.evsel ev_signal) (fun loop e _ => loop.Allowed ev_signal k e)
      (init evbase ev_signal fd start) es loop) :
    (∀ id, (loop.base.event id).flags .timeout = true → (loop.base.timeoutNext now).micros ≤
        max 0 ((loop.base.event id).ev_timeout.micros - now.micros)) ∧
      ((∃ id, (loop.base.event id).flags .timeout = true) →
        ∃ id, (loop.base.event id).flags .timeout = true ∧ (loop.base.timeoutNext now).micros
          = max 0 ((loop.base.event id).ev_timeout.micros - now.micros)) ∧
      ((∀ id, (loop.base.event id).flags .timeout = false) →
        (loop.base.timeoutNext now).micros = 5000000) :=
  EventBase.timeoutNext_le (sound_of_run (sound_init inv ev_signal fd start) run).base now

theorem sleep_of_run_reader : ∃ loop : EventLoop Epollop,
    (loop.base.event 7).ev_timeout.micros = 1000000 ∧
      (loop.base.timeoutNext ⟨0, 400000, by decide, by decide⟩).micros ≤ 600000 := by
  obtain ⟨loop, run, -, -, timed, -, -, -, time⟩ := run_reader
  have sleep := (sleep_of_run (Epollop.mirrors_init 4 fun _ => false) 0 2 .clear
    ⟨0, 400000, by decide, by decide⟩ run).1 7 timed
  rw [time] at sleep
  exact ⟨loop, time, sleep⟩

/-- **What the kernel reports becomes active, and nothing else**: when `epoll_wait` reports descriptors
of the kernel's list, each once, an event is active afterwards just if it was before or waits for a
condition reported of its descriptor; its callback is told those conditions, an event without
`EV_PERSIST` waits no more, neither for its descriptor nor for its timeout, and no other event is
touched. -/
theorem dispatch_of_run {n : Nat} {refused : Int → Bool} (ev_signal : EvId) (fd : Int) (now : Timeval) {es : List LoopStep}
    {loop : EventLoop Epollop}
    (run : Lib.Runs (EventLoop.step Epollop.epollops ev_signal)
      (fun loop e _ => loop.Allowed ev_signal (epoll n refused) e) (init (Epollop.init n refused) ev_signal fd now)
      es loop)
    {reports : List EpollReport} (once : (reports.map EpollReport.fd).Nodup)
    (listed : ∀ r ∈ reports, (loop.base.evbase.interest r.fd).isSome = true) :
    ∃ base', loop.base.epollDispatch reports = some base' ∧ ∀ id,
      ((base'.event id).flags .active = true ↔ (loop.base.event id).flags .active = true ∨
        (loop.base.event id).met (conditions reports (loop.base.event id).ev_fd) = true) ∧
      ((loop.base.event id).flags .active = false →
        (loop.base.event id).met (conditions reports (loop.base.event id).ev_fd) = true →
        (base'.event id).ev_ncalls = 1 ∧ (base'.event id).ev_res =
          { EvMask.none with
            read := (conditions reports (loop.base.event id).ev_fd).input
              && (loop.base.event id).ev_events.read
            write := (conditions reports (loop.base.event id).ev_fd).output
              && (loop.base.event id).ev_events.write }) ∧
      ((loop.base.event id).met (conditions reports (loop.base.event id).ev_fd) = true →
        (loop.base.event id).ev_events.persist = false →
        (base'.event id).flags .inserted = false ∧ (base'.event id).flags .timeout = false) ∧
      ((loop.base.event id).met (conditions reports (loop.base.event id).ev_fd) = false →
        base'.event id = loop.base.event id) := by
  have sound : loop.Sound ev_signal (epoll n refused) :=
    sound_of_run (sound_init (Epollop.mirrors_init n refused) ev_signal fd now) run
  obtain ⟨base', ran, -, events⟩ := sound.base.dispatch_activates once listed
  exact ⟨base', ran, events⟩

theorem dispatch_of_run_reader : ∃ (loop : EventLoop Epollop) (base' : EventBase Epollop),
    loop.base.epollDispatch [⟨3, true, false, false, false⟩] = some base' ∧
      (loop.base.event 7).flags .active = false ∧ (base'.event 7).flags .active = true ∧
      (base'.event 7).flags .timeout = false := by
  obtain ⟨loop, run, asked, inserted, -, idle, fd, events, -⟩ := run_reader
  obtain ⟨base', ran, effects⟩ := @dispatch_of_run _ _ 0 2 .clear _ _ run
    [⟨3, true, false, false, false⟩] (by decide) (by simp [asked])
  have met : (loop.base.event 7).met (conditions [⟨3, true, false, false, false⟩]
      (loop.base.event 7).ev_fd) = true := by
    simp [Event.met, inserted, fd, events, conditions, EpollReport.what, EvMask.ofRead]
  refine ⟨loop, base', ran, idle, (effects 7).1.mpr (.inr met), ?_⟩
  exact ((effects 7).2.2.1 met (by rw [events]; rfl)).2

/-- **An active event is called in its turn**: while its queue is drained and the event is neither
stopped nor rescheduled, no more callbacks are called before its own than events stood before it,
whatever those callbacks do. -/
theorem called_in_turn {evbase : β} (inv : k.inv evbase fun _ => none) (ev_signal : EvId) (fd : Int) (now : Timeval)
    {earlier : List LoopStep} {loop loop' : EventLoop β}
    (before : Lib.Runs (EventLoop.step k.evsel ev_signal) (fun loop e _ => loop.Allowed ev_signal k e)
      (init evbase ev_signal fd now) earlier loop) {queue : Nat} {id : EvId} {n : Nat} {es : List LoopStep}
    (drains : loop.Drains queue) (stands : Stands loop.base queue id n)
    (run : Lib.Runs (EventLoop.step k.evsel ev_signal)
      (fun loop e _ => loop.Allowed ev_signal k e ∧ ¬ loop.Touches id e) loop es loop') :
    es.countP isCall ≤ n ∧ Stands loop'.base queue id (n - es.countP isCall) ∧
      loop'.Drains queue := by
  have sound := sound_of_run (sound_init inv ev_signal fd now) before
  have all : loop'.Sound ev_signal k ∧ es.countP isCall ≤ n ∧
      Stands loop'.base queue id (n - es.countP isCall) ∧ loop'.Drains queue := by
    induction run with
    | nil => exact ⟨sound, Nat.zero_le n, stands, drains⟩
    | @snoc es t e u run taken allowed ih =>
      obtain ⟨kept, few, behind, inside⟩ := ih
      obtain ⟨next, stepped, sound'⟩ := kept.step allowed.1
      rw [taken] at stepped
      cases stepped
      obtain ⟨drains', behind'⟩ := kept.stands inside behind allowed.1 allowed.2 taken
      rw [List.countP_append, List.countP_singleton]
      split at behind'
      case isTrue called =>
        rw [if_pos called, ← Nat.sub_sub]
        exact ⟨sound', by omega, behind'.2, drains'⟩
      case isFalse other =>
        rw [if_neg other]
        exact ⟨sound', few, behind', drains'⟩
  exact all.2


/-- Of two priorities the lower one has two active events, and the loop is about to call the first of
them. -/
theorem run_two : ∃ loop : EventLoop Epollop,
    Lib.Runs (EventLoop.step (epoll 4 fun _ => false).evsel 0)
      (fun loop e _ => loop.Allowed 0 (epoll 4 fun _ => false) e)
      (init (Epollop.init 4 fun _ => false) 0 2 .clear)
      [.priorityInit 2, .set 7 3 .ofRead, .set 8 3 .ofWrite, .active 7 .ofRead 1, .active 8 .ofWrite 1, .enter] loop ∧
    loop.phase = .picking 1 ∧ loop.base.activequeues = [[], [7, 8]] := by
  have idle := idle_init (Epollop.init 4 fun _ => false) 0 2 .clear
  have first : Lib.Runs (EventLoop.step (epoll 4 fun _ => false).evsel 0)
      (fun loop e _ => loop.Allowed 0 (epoll 4 fun _ => false) e)
      (init (Epollop.init 4 fun _ => false) 0 2 .clear) [.priorityInit 2] _ :=
    .single rfl ⟨rfl, fun id => (idle id).1 .active, by decide, fun id _ => by rw [(idle id).2]; decide⟩
  have second := first.snoc (e := LoopStep.set 7 3 .ofRead) rfl ⟨.inl rfl, fun _ => rfl, rfl⟩
  have third := second.snoc (e := LoopStep.set 8 3 .ofWrite) rfl ⟨.inl rfl, fun _ => rfl, rfl⟩
  have fourth := third.snoc (e := LoopStep.active 7 .ofRead 1) rfl ⟨.inl rfl, rfl, le_refl 1⟩
  have fifth := fourth.snoc (e := LoopStep.active 8 .ofWrite 1) rfl ⟨.inl rfl, rfl, le_refl 1⟩
  exact ⟨_, fifth.snoc (e := LoopStep.enter) rfl rfl, rfl, rfl⟩

/-- The second event has been passed over by one callback, that of the first. -/
theorem called_in_turn_two : ∃ loop' : EventLoop Epollop,
    [LoopStep.call].countP isCall ≤ 1 ∧ Stands loop'.base 1 8 0 ∧ loop'.Drains 1 := by
  obtain ⟨loop, before, picking, there⟩ := run_two
  have allowed : loop.Allowed 0 (epoll 4 fun _ => false) .call := ⟨1, picking⟩
  have sound := sound_of_run (sound_init (Epollop.mirrors_init 4 fun _ => false) 0 2 .clear) before
  obtain ⟨loop', taken, -⟩ := sound.step allowed
  have apart : ¬ loop.Touches 8 .call := by
    rintro ⟨queue, rest, phase, front⟩
    rw [picking] at phase
    cases phase
    rw [there] at front
    cases front
  exact ⟨loop', called_in_turn (Epollop.mirrors_init 4 fun _ => false) 0 2 .clear before
    (.inl picking) ⟨[7, 8], by rw [there]; rfl, by decide, by decide⟩ (.single taken ⟨allowed, apart⟩)⟩

end EventLoop

end GreatEvent.Evsys
