import GreatEvent.Server.Lifecycle

/-!
# Events and sessions are used as they may be

Between two callbacks the flags of a session say which of its events are on
a queue, so that the guards of `addEvent` keep every event from being set
twice (`Guarded`). `addEvent` keeps this, with it every callback, and with
it every step of the loop. A teardown takes the events off their queues
before it deletes the session; no event of a deleted session is ever called.
-/

namespace GreatEvent

open Lib

namespace SessionLife

variable (c : SessionLife) (b : Bool)

theorem busy_mark_self {k : EventKind} (io : k ≠ .time) : (c.mark b k).busy k = b := by
  cases k with
  | time => exact absurd rfl io
  | _ => rfl

theorem mark_busy (k : EventKind) : c.mark (c.busy k) k = c := by cases k <;> rfl

theorem busy_mark_other {k i : EventKind} (other : i ≠ k) : (c.mark b k).busy i = c.busy i := by
  cases k <;> cases i <;> first | rfl | exact absurd rfl other

@[simp] theorem mArg_mark (k : EventKind) : (c.mark b k).mArg = c.mArg := by cases k <;> rfl

@[simp] theorem mKey_mark (k : EventKind) : (c.mark b k).mKey = c.mKey := by cases k <;> rfl

@[simp] theorem mStatus_mark (k : EventKind) : (c.mark b k).mStatus = c.mStatus := by cases k <;> rfl

end SessionLife

/-- Between two callbacks: the session is there, and its flags agree with the queues. -/
structure Guarded (slot : Slot) (c : SessionLife) : Prop where
  alive : slot.session = some c
  arg : c.mArg = true
  busy : ∀ k, k ≠ .time → c.busy k = slot.queued k
  once : ∀ k ev, slot.events k = some ev → ev.Once
  fd : ∀ k ev, k ≠ .time → slot.events k = some ev → key ev.ev_fd = c.mKey

/-- One event of the session changes, and its flag with it. -/
theorem Guarded.change {slot : Slot} {c : SessionLife} (guarded : Guarded slot c) (k : EventKind) {ev : Ev}
    (b : Bool) (once : ev.Once) (fd : k ≠ .time → key ev.ev_fd = c.mKey)
    (agree : k ≠ .time → b = ev.queued) :
    Guarded { session := some (c.mark b k), events := (slot.setEvent k ev).events } (c.mark b k) := by
  constructor
  · rfl
  · rw [SessionLife.mArg_mark]
    exact guarded.arg
  · intro i io
    by_cases own : i = k
    · subst own
      rw [SessionLife.busy_mark_self c b io, agree io]
      exact (Slot.queued_setEvent_self slot i ev).symm
    · rw [SessionLife.busy_mark_other c b own, guarded.busy i io]
      exact (Slot.queued_setEvent_other slot ev own).symm
  · intro i ev' found
    by_cases own : i = k
    · subst own
      cases (Slot.events_setEvent_self slot i ev).symm.trans found
      exact once
    · exact guarded.once i ev' ((Slot.events_setEvent_other slot ev own).symm.trans found)
  · intro i ev' io found
    rw [SessionLife.mKey_mark]
    by_cases own : i = k
    · subst own
      cases (Slot.events_setEvent_self slot i ev).symm.trans found
      exact fd io
    · exact guarded.fd i ev' io ((Slot.events_setEvent_other slot ev own).symm.trans found)

/-- An event stays on its queues, or off them. -/
theorem Guarded.replace {slot : Slot} {c : SessionLife} (guarded : Guarded slot c) (k : EventKind) {ev : Ev}
    (once : ev.Once) (fd : k ≠ .time → key ev.ev_fd = c.mKey)
    (agree : k ≠ .time → slot.queued k = ev.queued) : Guarded (slot.setEvent k ev) c := by
  have changed := guarded.change k (c.busy k) once fd fun io => (guarded.busy k io).trans (agree io)
  rw [SessionLife.mark_busy] at changed
  have kept : slot.setEvent k ev = { session := some c, events := (slot.setEvent k ev).events } :=
    congrArg (Slot.mk · _) guarded.alive
  rw [kept]
  exact changed

/-- The callback of an event finds it off all queues, and takes its flag down. -/
theorem Guarded.leave {slot : Slot} {c : SessionLife} (guarded : Guarded slot c) {k : EventKind} {ev : Ev}
    (found : slot.events k = some ev) (active : ev.active = true) :
    Guarded { session := some (c.mark false k), events := (slot.setEvent k ev.leave).events }
      (c.mark false k) := by
  have once := guarded.once k ev found
  apply guarded.change k false once.leave
  · exact fun io => guarded.fd k ev io found
  · exact fun _ => (once.queued_leave active).symm

/-- A status changes no event. -/
theorem Guarded.status {slot : Slot} {c : SessionLife} (guarded : Guarded slot c) (status : SessionStatus) :
    Guarded { slot with session := some { c with mStatus := status } } { c with mStatus := status } where
  alive := rfl
  arg := guarded.arg
  busy k io := (by cases k <;> rfl : _ = c.busy k).trans (guarded.busy k io)
  once := guarded.once
  fd := guarded.fd

namespace LoopAct

section
variable {s : Scope} {c : SessionLife} {k : EventKind} {ev : Ev} {E : Misuse → Scope → Prop}

theorem wp_session {Q : SessionLife → Scope → Prop} (alive : s.slot.session = some c) :
    wp session Q E s ↔ Q c s := by
  simp only [session, wp_bind, wp_get, alive, wp_pure]

theorem wp_event {Q : Ev → Scope → Prop} (alive : s.slot.session = some c)
    (set' : s.slot.events k = some ev) : wp (event k) Q E s ↔ Q ev s := by
  simp only [event, wp_bind, wp_session alive, wp_get, set', wp_pure]

variable {Q : Unit → Scope → Prop}

theorem wp_modifySession {f : SessionLife → SessionLife} (alive : s.slot.session = some c) :
    wp (modifySession f) Q E s ↔ Q () (s.withSession (f c)) := by
  simp only [modifySession, wp_bind, wp_session alive, wp_modify]

theorem wp_eventSet {fd : Int} {events : EvFlags} (alive : s.slot.session = some c)
    (free : s.slot.queued k = false) :
    wp (eventSet k fd events) Q E s ↔ Q () (s.setEvent k (.set fd events)) := by
  simp only [eventSet, wp_bind, wp_session alive, wp_get, free, wp_ite, if_neg Bool.false_ne_true,
    wp_modify]

theorem wp_eventBaseSet (alive : s.slot.session = some c) (set' : s.slot.events k = some ev)
    (free : ev.queued = false) : wp (eventBaseSet k) Q E s ↔ Q () s := by
  simp only [eventBaseSet, wp_bind, wp_event alive set', free, wp_ite, if_neg Bool.false_ne_true, wp_pure]

theorem wp_eventAdd (alive : s.slot.session = some c) (set' : s.slot.events k = some ev)
    (free : ev.queued = false) :
    wp (eventAdd k) Q E s ↔ Q () (s.setEvent k ev.add) := by
  simp only [eventAdd, wp_bind, wp_event alive set', free, wp_ite, if_neg Bool.false_ne_true, wp_modify]

theorem wp_eventDel (alive : s.slot.session = some c) (set' : s.slot.events k = some ev) :
    wp (eventDel k) Q E s ↔ Q () (s.setEvent k ev.del) := by
  simp only [eventDel, wp_bind, wp_event alive set', wp_modify]

theorem wp_eventDel_unset (alive : s.slot.session = some c) (unset : s.slot.events k = none) :
    wp (eventDel k) Q E s ↔ E .unset s := by
  simp only [eventDel, event, wp_bind, wp_session alive, wp_get, unset, wp_throw]

theorem wp_arg (alive : s.slot.session = some c) (set' : c.mArg = true) : wp arg Q E s ↔ Q () s := by
  simp only [arg, wp_bind, wp_session alive, set', wp_ite, if_pos, wp_pure]

theorem wp_delete (alive : s.slot.session = some c) : wp delete Q E s ↔ Q () s.withDeleted := by
  simp only [delete, wp_bind, wp_session alive, wp_modify]

end

end LoopAct

namespace Lifecycle

open LoopAct

section
variable {s t u : Scope} {c : SessionLife}

/-- The descriptor an `addEvent` names is the session's. -/
def Names (s : Scope) (c : SessionLife) (fd : Int) : Prop :=
  if fd < 0 then (s.slot.events .write).isSome = true else key fd = c.mKey

/-- What `addEvent` calls may do: they set and add events of the session. -/
structure Arms (s : Scope) (c : SessionLife) (t : Scope) (d : SessionLife) : Prop where
  guarded : Guarded t.slot d
  this : t.this = s.this
  manager : t.manager = s.manager
  log : t.log = s.log
  mKey : d.mKey = c.mKey
  mStatus : d.mStatus = c.mStatus
  sets : ∀ k, (s.slot.events k).isSome = true → (t.slot.events k).isSome = true
  timer : t.slot.events .time = s.slot.events .time

theorem Arms.refl (guarded : Guarded s.slot c) : Arms s c s c where
  guarded := guarded
  this := rfl
  manager := rfl
  log := rfl
  mKey := rfl
  mStatus := rfl
  sets _ found := found
  timer := rfl

theorem Arms.trans {d e : SessionLife} (first : Arms s c t d) (second : Arms t d u e) : Arms s c u e where
  guarded := second.guarded
  this := second.this.trans first.this
  manager := second.manager.trans first.manager
  log := second.log.trans first.log
  mKey := second.mKey.trans first.mKey
  mStatus := second.mStatus.trans first.mStatus
  sets k found := second.sets k (first.sets k found)
  timer := second.timer.trans first.timer

variable {Q : Unit → Scope → Prop} {E : Misuse → Scope → Prop}

theorem wp_eventFd {fd : Int} {Q : Int → Scope → Prop} (alive : s.slot.session = some c)
    (write : ∀ ev, s.slot.events .write = some ev → key ev.ev_fd = c.mKey) (names : Names s c fd)
    (post : ∀ fd', key fd' = c.mKey → (0 ≤ fd → fd' = fd) → Q fd' s) : wp (eventFd fd) Q E s := by
  unfold Names at names
  simp only [eventFd, wp_ite, wp_bind, wp_pure]
  split at names
  case isTrue negative =>
    obtain ⟨ev, found⟩ := Option.isSome_iff_exists.mp names
    rw [if_pos negative, wp_event alive found]
    exact post _ (write ev found) fun given => absurd given (by omega)
  case isFalse given =>
    rw [if_neg given]
    exact post fd names fun _ => rfl

/-- An event whose flag is down is set and added. -/
theorem wp_arm {k : EventKind} {events : EvFlags} {fd : Int} (guarded : Guarded s.slot c) (io : k ≠ .time)
    (once : events.persist = false) (names : Names s c fd) (idle : c.busy k = false)
    (post : ∀ t d, Arms s c t d → (∀ i, i ≠ k → t.slot.events i = s.slot.events i) →
      (0 ≤ fd → ∃ ev, t.slot.events k = some ev ∧ ev.ev_fd = fd) → Q () t) :
    wp (arm k events fd) Q E s := by
  have free : s.slot.queued k = false := (guarded.busy k io).symm.trans idle
  simp only [arm, wp_bind, wp_modifySession guarded.alive]
  apply wp_eventFd (c := c.mark true k) rfl
  · intro ev found
    rw [SessionLife.mKey_mark]
    exact guarded.fd .write ev (by decide) found
  · unfold Names
    rw [SessionLife.mKey_mark]
    exact names
  · intro fd' same given
    rw [SessionLife.mKey_mark] at same
    have idle' : (s.withSession (c.mark true k)).slot.queued k = false := free
    have set' := Slot.events_setEvent_self s.slot k (.set fd' events)
    rw [wp_eventSet rfl idle', wp_arg rfl ((SessionLife.mArg_mark c true k).trans guarded.arg),
      wp_eventBaseSet rfl set' (Ev.queued_set _ _), wp_eventAdd rfl set' (Ev.queued_set _ _)]
    have twice := Slot.setEvent_setEvent s.slot k (.set fd' events) (Ev.set fd' events).add
    have added : ((Ev.set fd' events).add).Once := .add (.set once) (Ev.queued_set _ _)
    have armed := guarded.change k true added (fun _ => (congrArg key (Ev.ev_fd_add _)).trans same) (fun _ => (Ev.queued_add _).symm)
    rw [← twice] at armed
    have others : ∀ i, i ≠ k → ((s.slot.setEvent k (.set fd' events)).setEvent k
        (Ev.set fd' events).add).events i = s.slot.events i := by
      intro i other
      rw [twice, Slot.events_setEvent_other _ _ other]
    apply post _ (c.mark true k)
    · constructor
      · exact armed
      · rfl
      · rfl
      · rfl
      · exact SessionLife.mKey_mark _ _ _
      · exact SessionLife.mStatus_mark _ _ _
      · exact fun i found => Slot.isSome_setEvent _ _ _ (Slot.isSome_setEvent _ _ _ found)
      · exact others .time io.symm
    · exact others
    · intro nonneg
      exact ⟨_, Slot.events_setEvent_self _ _ _, (Ev.ev_fd_add _).trans (given nonneg)⟩

theorem Arms.names {d : SessionLife} {fd : Int} (arms : Arms s c t d) (names : Names s c fd) :
    Names t d fd := by
  unfold Names at names ⊢
  split
  case isTrue negative =>
    rw [if_pos negative] at names
    exact arms.sets _ names
  case isFalse given =>
    rw [if_neg given] at names
    exact names.trans arms.mKey.symm

/-- **`addEvent` sets no event that is on a queue**, and leaves the flags right. -/
theorem wp_addEvent {events : EvFlags} {fd : Int} (guarded : Guarded s.slot c)
    (once : events.persist = false) (names : Names s c fd) (post : ∀ t d, Arms s c t d → Q () t) :
    wp (addEvent events fd) Q E s := by
  have second : ∀ t d, Arms s c t d →
      if (events.read && !d.busy .read) = true then wp (arm .read events fd) Q E t else Q () t := by
    intro t d arms
    split
    case isTrue asked =>
      simp only [Bool.and_eq_true, Bool.not_eq_true'] at asked
      apply wp_arm arms.guarded (by decide) once (arms.names names) asked.2
      exact fun u e more _ _ => post u e (arms.trans more)
    case isFalse => exact post t d arms
  simp only [addEvent, wp_bind, wp_session guarded.alive, wp_ite, wp_pure]
  split
  case isTrue asked =>
    simp only [Bool.and_eq_true, Bool.not_eq_true'] at asked
    apply wp_arm guarded (by decide) once names asked.2
    intro t d arms _ _
    rw [wp_session arms.guarded.alive]
    exact second t d arms
  case isFalse => exact second s c (.refl guarded)

/-- `addEvent( session, EV_READ, fd )` with the read event idle: the write event is left alone. -/
theorem wp_addRead {fd : Int} (guarded : Guarded s.slot c) (names : Names s c fd)
    (idle : c.busy .read = false)
    (post : ∀ t d, Arms s c t d → (∀ i, i ≠ .read → t.slot.events i = s.slot.events i) →
      (0 ≤ fd → ∃ ev, t.slot.events .read = some ev ∧ ev.ev_fd = fd) → Q () t) :
    wp (addEvent evRead fd) Q E s := by
  simp only [addEvent, wp_bind, wp_session guarded.alive, wp_ite, wp_pure]
  rw [if_neg (show ¬ (evRead.write && !c.busy .write) = true from Bool.false_ne_true),
    if_pos (show (evRead.read && !c.busy .read) = true by rw [idle]; rfl)]
  exact wp_arm guarded (by decide) rfl names idle post

/-- The calls of a method, one after the other. -/
theorem wp_calls (calls : List EventKind) (guarded : Guarded s.slot c)
    (write : calls ≠ [] → (s.slot.events .write).isSome = true) (post : ∀ t d, Arms s c t d → Q () t) :
    wp (calls.forM fun k => addEvent k.flags (-1)) Q E s := by
  induction calls generalizing s c with
  | nil => exact post s c (.refl guarded)
  | cons k calls ih =>
    have set' := write (List.cons_ne_nil _ _)
    have names : Names s c (-1) := by
      unfold Names
      rwa [if_pos (by decide)]
    change wp (do addEvent k.flags (-1); calls.forM fun k => addEvent k.flags (-1)) Q E s
    rw [wp_bind]
    apply wp_addEvent guarded (by cases k <;> rfl) names
    intro t d arms
    apply ih arms.guarded
    · exact fun _ => arms.sets _ set'
    · exact fun u e more => post u e (arms.trans more)

theorem wp_method {Q : Int → Scope → Prop} (m : Method) (guarded : Guarded s.slot c)
    (write : m.calls ≠ [] → (s.slot.events .write).isSome = true)
    (post : ∀ t d, Arms s c t d → Q m.ret t) : wp (method m) Q E s := by
  simp only [method, wp_bind, wp_pure]
  exact wp_calls m.calls guarded write post

/-- The session goes on, its three events set. -/
structure Continues (s : Scope) (c : SessionLife) (t : Scope) : Prop where
  life : ∃ d, Guarded t.slot d ∧ d.mKey = c.mKey
  sets : ∀ k, (t.slot.events k).isSome = true
  this : t.this = s.this
  manager : t.manager = s.manager
  log : t.log = s.log

/-- What a teardown does, `found` being the session it takes out of the table. -/
def deeds (found : Option Nat) (p : Nat) (fd : Int) : List Deed :=
  (found.map Deed.removed).toList ++ [.deleted p, .closed fd]

theorem count_removed (found : Option Nat) (p q : Nat) (fd : Int) :
    (deeds found p fd).count (.removed q) = if found = some q then 1 else 0 := by
  cases found with
  | none => simp [deeds]
  | some r => simp [deeds, List.count_cons]

theorem count_deleted (found : Option Nat) (p q : Nat) (fd : Int) :
    (deeds found p fd).count (.deleted q) = if p = q then 1 else 0 := by
  cases found with
  | none => simp [deeds, List.count_cons]
  | some r => simp [deeds, List.count_cons]

/-- The session has ended, its events off their queues before it was deleted. -/
structure Ends (s : Scope) (fd : Int) (t : Scope) : Prop where
  gone : t.slot.session = none
  idle : ∀ k, t.slot.queued k = false
  this : t.this = s.this
  manager : t.manager = (s.manager.remove (key fd)).1
  log : t.log = s.log ++ deeds (s.manager.remove (key fd)).2 s.this fd

theorem Arms.continues {d : SessionLife} (arms : Arms s c t d)
    (sets : ∀ k, (s.slot.events k).isSome = true) : Continues s c t where
  life := ⟨d, arms.guarded, arms.mKey⟩
  sets k := arms.sets k (sets k)
  this := arms.this
  manager := arms.manager
  log := arms.log

theorem Arms.ends {d : SessionLife} {fd : Int} (arms : Arms s c t d) (ends : Ends t fd u) :
    Ends s fd u where
  gone := ends.gone
  idle := ends.idle
  this := ends.this.trans arms.this
  manager := ends.manager.trans (by rw [arms.manager])
  log := ends.log.trans (by rw [arms.log, arms.manager, arms.this])

theorem wp_teardown {fd : Int} (guarded : Guarded s.slot c) (sets : ∀ k, (s.slot.events k).isSome = true)
    (post : ∀ t, Ends s fd t → Q () t) : wp (teardown fd) Q E s := by
  obtain ⟨r, read⟩ := Option.isSome_iff_exists.mp (sets .read)
  obtain ⟨w, write⟩ := Option.isSome_iff_exists.mp (sets .write)
  obtain ⟨t, time⟩ := Option.isSome_iff_exists.mp (sets .time)
  have first : (s.withRemoved fd).slot.session = some c := guarded.alive
  have second : ((s.withRemoved fd).setEvent .read r.del).slot.session = some c := guarded.alive
  have third : (((s.withRemoved fd).setEvent .read r.del).setEvent .write w.del).slot.session = some c :=
    guarded.alive
  have last : ((((s.withRemoved fd).setEvent .read r.del).setEvent .write w.del).setEvent .time
      t.del).slot.session = some c := guarded.alive
  simp only [teardown, wp_bind, wp_arg guarded.alive guarded.arg, remove, wp_modify, close]
  rw [wp_eventDel first read, wp_eventDel (k := .write) second write, wp_eventDel (k := .time) third time,
    wp_delete last]
  apply post
  constructor
  · rfl
  · intro k
    cases k <;> rfl
  · rfl
  · rfl
  · simp only [deeds, Scope.withDeleted, Scope.setEvent, Scope.withRemoved, List.append_assoc]
    rfl

/-- How a callback leaves its session. -/
def Settles (s : Scope) (c : SessionLife) (fd : Int) (t : Scope) : Prop := Continues s c t ∨ Ends s fd t

theorem names_own {fd : Int} (sets : ∀ k, (s.slot.events k).isSome = true) (own : key fd = c.mKey) :
    Names s c fd := by
  unfold Names
  split
  · exact sets .write
  · exact own

/-- The last `addEvent` of a callback. -/
theorem Arms.rearm {d : SessionLife} {fd : Int} {events : EvFlags} (arms : Arms s c t d)
    (sets : ∀ k, (s.slot.events k).isSome = true) (own : key fd = c.mKey) (once : events.persist = false)
    (post : ∀ t, Settles s c fd t → Q () t) : wp (addEvent events fd) Q E t := by
  apply wp_addEvent arms.guarded once (arms.names (names_own sets own))
  intro u e more
  exact post u (.inl ((arms.trans more).continues sets))

/-- The end of a callback whose session ends. -/
theorem Arms.teardown {d : SessionLife} {fd : Int} (arms : Arms s c t d)
    (sets : ∀ k, (s.slot.events k).isSome = true) (post : ∀ t, Settles s c fd t → Q () t) :
    wp (teardown fd) Q E t := by
  apply wp_teardown arms.guarded fun k => arms.sets k (sets k)
  exact fun u ends => post u (.inr (arms.ends ends))

/-- A flag taken down first changes nothing about how the callback leaves its session. -/
theorem Settles.marked {v : Bool} {k : EventKind} {fd : Int}
    (settles : Settles (s.withSession (c.mark v k)) (c.mark v k) fd t) : Settles s c fd t := by
  rcases settles with ⟨⟨d, guarded, mKey⟩, sets, this, manager, log⟩ | ⟨gone, idle, this, manager, log⟩
  · exact .inl ⟨⟨d, guarded, mKey.trans (SessionLife.mKey_mark c v k)⟩, sets, this, manager, log⟩
  · exact .inr ⟨gone, idle, this, manager, log⟩

/-- **`onRead`**, called with its event off all queues. -/
theorem wp_onRead {fd : Int} {events : EvFlags} {m : Method} (alive : s.slot.session = some c)
    (guarded : Guarded (s.withSession (c.mark false .read)).slot (c.mark false .read))
    (sets : ∀ k, (s.slot.events k).isSome = true) (own : key fd = c.mKey)
    (post : ∀ t, Settles s c fd t → Q () t) : wp (onRead fd events m) Q E s := by
  have own' : key fd = (c.mark false .read).mKey := own
  have start : Arms (s.withSession (c.mark false .read)) (c.mark false .read) _ _ := .refl guarded
  simp only [onRead, wp_bind, wp_modifySession alive, wp_ite]
  split
  · apply wp_method m guarded fun _ => sets .write
    intro t d arms
    split
    · exact arms.teardown sets fun u settles => post u settles.marked
    · exact arms.rearm sets own' rfl fun u settles => post u settles.marked
  · exact start.rearm sets own' rfl fun u settles => post u settles.marked

/-- **`onWrite`**, called with its event off all queues. -/
theorem wp_onWrite {fd : Int} {events : EvFlags} {m : Method} (alive : s.slot.session = some c)
    (guarded : Guarded (s.withSession (c.mark false .write)).slot (c.mark false .write))
    (sets : ∀ k, (s.slot.events k).isSome = true) (own : key fd = c.mKey)
    (post : ∀ t, Settles s c fd t → Q () t) : wp (onWrite fd events m) Q E s := by
  have own' : key fd = (c.mark false .write).mKey := own
  have ended : ∀ (ret : Int) t d, Arms (s.withSession (c.mark false .write)) (c.mark false .write) t d →
      if ret = ownSockExit then wp (teardown fd) Q E t
      else if ret ≠ 0 then wp (addEvent evWrite fd) Q E t else Q () t := by
    intro ret t d arms
    split
    · exact arms.teardown sets fun u settles => post u settles.marked
    · split
      · exact arms.rearm sets own' rfl fun u settles => post u settles.marked
      · exact post t (Settles.marked (.inl (arms.continues sets)))
  simp only [onWrite, wp_bind, wp_modifySession alive, wp_ite, wp_pure]
  split
  · apply wp_method m guarded fun _ => sets .write
    exact ended m.ret
  · exact ended 0 _ _ (.refl guarded)

/-- The timer is set or added while the session goes on. -/
theorem Arms.timed {d : SessionLife} {ev : Ev} (arms : Arms s c t d) (once : ev.Once) :
    Guarded (t.setEvent .time ev).slot d :=
  arms.guarded.replace .time once (fun io => absurd rfl io) (fun io => absurd rfl io)

/-- **`onTimer`**, called with its event off all queues. -/
theorem wp_onTimer {m : Method} {ev : Ev} (guarded : Guarded s.slot c)
    (sets : ∀ k, (s.slot.events k).isSome = true) (timer : s.slot.events .time = some ev)
    (free : ev.queued = false) (post : ∀ t, Continues s c t → Q () t) : wp (onTimer m) Q E s := by
  simp only [onTimer, wp_bind]
  apply wp_method m guarded fun _ => sets .write
  intro t d arms
  have timer' := arms.timer.trans timer
  rw [wp_eventAdd arms.guarded.alive timer' free]
  have again := arms.timed ((arms.guarded.once _ ev timer').add free)
  have sets' : ∀ k, ((t.setEvent .time ev.add).slot.events k).isSome = true :=
    fun k => Slot.isSome_setEvent _ _ _ (arms.sets k (sets k))
  exact post _ ⟨⟨d, again, arms.mKey⟩, sets', arms.this, arms.manager, arms.log⟩

/-- `onAccept` leaves a session that waits for input and for its timer. -/
structure Accepts (s : Scope) (fd : Int) (t : Scope) : Prop where
  life : ∃ d, Guarded t.slot d ∧ d.mKey = key fd
  sets : ∀ k, (t.slot.events k).isSome = true
  this : t.this = s.this
  manager : t.manager = (s.manager.put (key fd) s.this).1
  log : t.log = s.log

theorem Names.setEvent {fd : Int} {k : EventKind} {ev : Ev} (names : Names s c fd) :
    Names (s.setEvent k ev) c fd := by
  unfold Names at names ⊢
  split at names
  case isTrue negative =>
    rw [if_pos negative]
    exact Slot.isSome_setEvent _ _ _ names
  case isFalse given =>
    rw [if_neg given]
    exact names

/-- The session in which `onAccept` has set its two socket events. -/
theorem guarded_new (fd : Int) :
    Guarded (((Slot.mk (some ⟨key fd, .eNormal, false, false, true⟩) fun _ => none).setEvent .read
      (.set fd evRead)).setEvent .write (.set fd evWrite)) ⟨key fd, .eNormal, false, false, true⟩ where
  alive := rfl
  arg := rfl
  busy k io := by cases k <;> rfl
  once k ev found := by
    cases k <;> cases found <;> exact .set rfl
  fd k ev io found := by
    cases k with
    | time => exact absurd rfl io
    | _ =>
      cases found
      rfl

theorem wp_onAccept {mMaxConnections fd : Int} (fresh : s.slot = .new (key fd)) (post : ∀ t, Accepts s fd t → Q () t) :
    wp (onAccept mMaxConnections fd) Q E s := by
  obtain ⟨this, slot, manager, log⟩ := s
  obtain rfl : slot = .new (key fd) := fresh
  simp only [onAccept, wp_bind, wp_modify]
  rw [wp_modifySession rfl, wp_eventSet (k := .read) rfl rfl, wp_eventSet (k := .write) rfl rfl]
  have names : Names ⟨this, ((Slot.mk (some ⟨key fd, .eNormal, false, false, true⟩) fun _ => none).setEvent .read
      (.set fd evRead)).setEvent .write (.set fd evWrite), (manager.put (key fd) this).1, log⟩
      ⟨key fd, .eNormal, false, false, true⟩ fd := by
    unfold Names
    split <;> rfl
  apply wp_addEvent (guarded_new fd) rfl names
  intro t d arms
  have unset : t.slot.queued .time = false := congrArg (Option.any Ev.queued) arms.timer
  rw [wp_eventSet arms.guarded.alive unset]
  apply wp_addEvent (arms.timed (.set rfl)) rfl (arms.names names).setEvent
  intro u e more
  have timer : u.slot.events .time = some (.set (-1) evNone) :=
    more.timer.trans (Slot.events_setEvent_self _ _ _)
  rw [wp_eventAdd more.guarded.alive timer (Ev.queued_set _ _)]
  have timed : (Ev.set (-1) evNone).Once := .set rfl
  have guarded := more.timed (timed.add (Ev.queued_set _ _))
  have mKey : e.mKey = key fd := more.mKey.trans arms.mKey
  have sets : ∀ k, ((u.setEvent .time (Ev.set (-1) evNone).add).slot.events k).isSome = true := by
    intro k
    cases k with
    | time => rfl
    | read => exact Slot.isSome_setEvent _ _ _ (more.sets _ (Slot.isSome_setEvent _ _ _ (arms.sets _ rfl)))
    | write => exact Slot.isSome_setEvent _ _ _ (more.sets _ (Slot.isSome_setEvent _ _ _ (arms.sets _ rfl)))
  have this' : u.this = this := more.this.trans arms.this
  have manager' : u.manager = (manager.put (key fd) this).1 := more.manager.trans arms.manager
  have log' : u.log = log := more.log.trans arms.log
  simp only [wp_get, wp_ite, wp_bind, wp_pure]
  split
  · rw [wp_modifySession guarded.alive]
    apply wp_addEvent (c := { e with mStatus := .eExit }) (guarded.status .eExit) rfl
    · apply names_own
      · exact sets
      · exact mKey.symm
    intro v f last
    exact post v ⟨⟨f, last.guarded, last.mKey.trans mKey⟩, fun k => last.sets k (sets k), last.this.trans this',
      last.manager.trans manager', last.log.trans log'⟩
  · exact post _ ⟨⟨e, guarded, mKey⟩, sets, this', manager', log'⟩

end

end Lifecycle

namespace LoopState

open Lifecycle

/-- A session that exists is ready for every event of its own that comes up; of one that is gone, none
will. -/
def Stands (slot : Slot) : Prop :=
  (∃ c, Guarded slot c ∧ ∀ k, (slot.events k).isSome = true) ∨
    slot.session = none ∧ ∀ k, slot.queued k = false

/-- What holds after every step of the loop. -/
structure Safe (l : LoopState) : Prop where
  fine : l.misuse = none
  slots : ∀ slot ∈ l.slots, Stands slot
  /-- the table holds a session under its own key, and never one taken out before -/
  table : ∀ key p, (l.manager.entry key).mSession = some p →
    (∃ slot c, l.slots[p]? = some slot ∧ slot.session = some c ∧ c.mKey = key) ∧
      l.log.count (.removed p) = 0
  removed : ∀ p, l.log.count (.removed p) ≤ 1
  deleted : ∀ p slot, l.slots[p]? = some slot →
    l.log.count (.deleted p) = if slot.session.isSome then 0 else 1
  later : ∀ p, l.slots.length ≤ p → l.log.count (.removed p) = 0 ∧ l.log.count (.deleted p) = 0

section
variable {mMaxConnections : Int} {l l' : LoopState} {p : Nat} {slot : Slot}

theorem enter_of_wp {P : LoopState → Prop} {act : LoopAct Unit}
    (returns : wp act (fun _ s => P ⟨l.slots.set p s.slot, s.manager, s.log, none⟩) (fun _ _ => False)
      ⟨p, slot, l.manager, l.log⟩) : P (l.enter p slot act) := by
  unfold wp at returns
  unfold enter
  split at returns <;> rename_i run <;> rw [run]
  · exact returns
  · cases returns

/-- An event of a session that is called finds the session. -/
theorem Safe.guarded (safe : Safe l) {k : EventKind} {ev : Ev} (at' : l.slots[p]? = some slot)
    (found : slot.events k = some ev) (queued : ev.queued = true) :
    ∃ c, Guarded slot c ∧ ∀ k, (slot.events k).isSome = true := by
  rcases safe.slots slot (List.mem_of_getElem? at') with stands | ⟨-, idle⟩
  · exact stands
  · have free := idle k
    rw [Slot.queued, found, Option.any_some, queued] at free
    cases free

/-- A session that goes on keeps the loop safe. -/
theorem Safe.goes_on {slot' : Slot} (safe : Safe l) (at' : l.slots[p]? = some slot) {c d : SessionLife}
    (alive : slot.session = some c) (guarded : Guarded slot' d) (mKey : d.mKey = c.mKey)
    (sets : ∀ k, (slot'.events k).isSome = true) :
    Safe ⟨l.slots.set p slot', l.manager, l.log, none⟩ := by
  have inside := (List.getElem?_eq_some_iff.mp at').1
  constructor
  · rfl
  · intro t member
    rcases List.mem_or_eq_of_mem_set member with old | rfl
    · exact safe.slots t old
    · exact .inl ⟨d, guarded, sets⟩
  · intro key q entry
    obtain ⟨⟨t, e, at'', alive', own⟩, fresh⟩ := safe.table key q entry
    refine ⟨?_, fresh⟩
    by_cases same : p = q
    · subst same
      cases at'.symm.trans at''
      cases alive.symm.trans alive'
      exact ⟨slot', d, List.getElem?_set_self inside, guarded.alive, mKey.trans own⟩
    · exact ⟨t, e, (List.getElem?_set_ne same).trans at'', alive', own⟩
  · exact safe.removed
  · intro q t found
    by_cases same : p = q
    · subst same
      cases (List.getElem?_set_self inside).symm.trans found
      rw [guarded.alive]
      have before := safe.deleted p slot at'
      rw [alive] at before
      exact before
    · exact safe.deleted q t ((List.getElem?_set_ne same).symm.trans found)
  · intro q far
    rw [List.length_set] at far
    exact safe.later q far

/-- A session that ends keeps the loop safe: its key is taken out of the table, and it is deleted for
the first time. -/
theorem Safe.ends {slot' : Slot} {fd : Int} {t : Scope} (safe : Safe l) (at' : l.slots[p]? = some slot)
    {c : SessionLife} (alive : slot.session = some c) (own : key fd = c.mKey)
    (ends : Ends ⟨p, slot', l.manager, l.log⟩ fd t) : Safe ⟨l.slots.set p t.slot, t.manager, t.log, none⟩ := by
  have inside := (List.getElem?_eq_some_iff.mp at').1
  have log : t.log = l.log ++ deeds (l.manager.entry c.mKey).mSession p fd := by
    rw [ends.log, own, SessionManager.remove_snd]
  have owner : ∀ q, (l.manager.entry c.mKey).mSession = some q →
      ∃ slot c', l.slots[q]? = some slot ∧ slot.session = some c' ∧ c'.mKey = c.mKey :=
    fun q entry => (safe.table _ q entry).1
  constructor
  · rfl
  · intro s member
    rcases List.mem_or_eq_of_mem_set member with old | rfl
    · exact safe.slots s old
    · exact .inr ⟨ends.gone, ends.idle⟩
  · intro k q entry
    rw [ends.manager, own, SessionManager.mSession_remove] at entry
    split at entry
    case isTrue => cases entry
    case isFalse other =>
      obtain ⟨⟨s, d, at'', alive', own'⟩, fresh⟩ := safe.table k q entry
      constructor
      · have distinct : p ≠ q := by
          rintro rfl
          cases at'.symm.trans at''
          cases alive.symm.trans alive'
          exact other own'.symm
        exact ⟨s, d, (List.getElem?_set_ne distinct).trans at'', alive', own'⟩
      · rw [log, List.count_append, count_removed, fresh, if_neg]
        intro entry'
        obtain ⟨s', d', atE, alive'', own''⟩ := owner q entry'
        cases at''.symm.trans atE
        cases alive'.symm.trans alive''
        exact other (own'.symm.trans own'')
  · intro q
    rw [log, List.count_append, count_removed]
    split
    case isTrue entry =>
      have never := (safe.table _ q entry).2
      omega
    case isFalse => exact safe.removed q
  · intro q s found
    rw [log, List.count_append, count_deleted]
    by_cases same : p = q
    · subst same
      cases (List.getElem?_set_self inside).symm.trans found
      have before := safe.deleted p slot at'
      rw [alive] at before
      rw [before, ends.gone, if_pos rfl]
      rfl
    · rw [if_neg same]
      exact safe.deleted q s ((List.getElem?_set_ne same).symm.trans found)
  · intro q far
    rw [List.length_set] at far
    obtain ⟨removed, deleted⟩ := safe.later q far
    constructor
    · rw [log, List.count_append, count_removed, removed, if_neg]
      intro entry
      obtain ⟨s, _, at'', -, -⟩ := owner q entry
      rw [List.getElem?_eq_none far] at at''
      cases at''
    · rw [log, List.count_append, count_deleted, deleted, if_neg (by omega)]

/-- How a callback settles its session, the loop stays safe. -/
theorem Safe.settles {slot' : Slot} {fd : Int} {t : Scope} (safe : Safe l) (at' : l.slots[p]? = some slot)
    {c : SessionLife} (alive : slot.session = some c) (own : key fd = c.mKey)
    (settles : Settles ⟨p, slot', l.manager, l.log⟩ c fd t) :
    Safe ⟨l.slots.set p t.slot, t.manager, t.log, none⟩ := by
  rcases settles with goes | ends
  · obtain ⟨d, guarded, mKey⟩ := goes.life
    rw [goes.manager, goes.log]
    exact safe.goes_on at' alive guarded mKey goes.sets
  · exact safe.ends at' alive own ends

/-- Only an event on a queue comes up, and it stays on one. -/
theorem comesUp_queued {k : EventKind} {cause : Cause} {ev ev' : Ev} (up : comesUp k ev cause = some ev') :
    ev.queued = true ∧ ev'.queued = true ∧ (ev.Once → ev'.Once) ∧ ev'.ev_fd = ev.ev_fd := by
  cases cause with
  | ready =>
    simp only [comesUp, Option.ite_none_right_eq_some, Option.some.injEq] at up
    obtain ⟨waits, rfl⟩ := up
    exact ⟨by simp [Ev.queued, Ev.pending, waits], Ev.queued_dispatch _ _, fun once => once.dispatch _,
      Ev.ev_fd_dispatch _ _⟩
  | expired =>
    simp only [comesUp, Option.ite_none_right_eq_some, Option.some.injEq] at up
    obtain ⟨waits, rfl⟩ := up
    exact ⟨by simp [Ev.queued, Ev.pending, waits], Ev.queued_expire _, fun once => once.expire, rfl⟩

/-- An event comes up. -/
theorem Safe.ready {k : EventKind} {cause : Cause} (safe : Safe l)
    (stepped : l.step mMaxConnections (.ready p k cause) = some l') : Safe l' := by
  simp only [step, Option.bind_eq_bind, Option.bind_eq_some_iff] at stepped
  obtain ⟨slot, at', ev, found, ev', up, stepped⟩ := stepped
  rw [if_pos safe.fine] at stepped
  cases stepped
  obtain ⟨queued, queued', once, fd⟩ := comesUp_queued up
  obtain ⟨c, guarded, sets⟩ := safe.guarded at' found queued
  have goes := safe.goes_on at' guarded.alive (guarded.replace k (once (guarded.once k ev found))
    (fun io => by rw [fd]; exact guarded.fd k ev io found)
    (fun _ => by rw [Slot.queued, found, queued']; exact queued)) rfl
    (fun i => Slot.isSome_setEvent _ _ _ (sets i))
  rw [← safe.fine] at goes
  exact goes

/-- An active event is called. -/
theorem Safe.call {k : EventKind} {m : Method} (safe : Safe l)
    (stepped : l.step mMaxConnections (.call p k m) = some l') : Safe l' := by
  simp only [step, Option.bind_eq_bind, Option.bind_eq_some_iff] at stepped
  obtain ⟨slot, at', ev, found, stepped⟩ := stepped
  obtain ⟨⟨-, active⟩, entered⟩ := (Option.ite_none_right_eq_some ..).mp stepped
  cases entered
  obtain ⟨c, guarded, sets⟩ := safe.guarded at' found (by simp [Ev.queued, active])
  have left := guarded.leave found active
  have sets' : ∀ i, ((slot.setEvent k ev.leave).events i).isSome = true :=
    fun i => Slot.isSome_setEvent _ _ _ (sets i)
  apply enter_of_wp
  cases k with
  | read =>
    have own := guarded.fd .read ev (by decide) found
    exact wp_onRead guarded.alive left sets' own fun t settles => safe.settles at' guarded.alive own settles
  | write =>
    have own := guarded.fd .write ev (by decide) found
    exact wp_onWrite guarded.alive left sets' own fun t settles => safe.settles at' guarded.alive own settles
  | time =>
    have once := guarded.once .time ev found
    have again : Guarded (slot.setEvent .time ev.leave) c :=
      guarded.replace .time once.leave (fun io => absurd rfl io) (fun io => absurd rfl io)
    apply wp_onTimer again sets' (Slot.events_setEvent_self _ _ _) (once.queued_leave active)
    intro t goes
    obtain ⟨d, guarded', mKey⟩ := goes.life
    rw [goes.manager, goes.log]
    exact safe.goes_on at' guarded.alive guarded' mKey goes.sets

/-- A connection is accepted. -/
theorem Safe.accept {clientFD : Int} (safe : Safe l)
    (stepped : l.step mMaxConnections (.accept clientFD) = some l') : Safe l' := by
  simp only [step, if_pos safe.fine, Option.some.injEq] at stepped
  subst stepped
  apply enter_of_wp
  apply wp_onAccept rfl
  rintro t ⟨⟨d, guarded, mKey⟩, sets, -, manager, log⟩
  have put : (l.slots ++ [Slot.new (key clientFD)]).set l.slots.length t.slot = l.slots ++ [t.slot] := by
    rw [List.set_append_right _ _ (Nat.le_refl _), Nat.sub_self]
    rfl
  have fresh := safe.later l.slots.length (Nat.le_refl _)
  simp only [put, manager, log]
  constructor
  · rfl
  · intro s member
    rcases List.mem_append.mp member with old | new
    · exact safe.slots s old
    · cases List.mem_singleton.mp new
      exact .inl ⟨d, guarded, sets⟩
  · intro k q entry
    rw [SessionManager.entry_put] at entry
    split at entry
    case isTrue same =>
      cases entry
      exact ⟨⟨t.slot, d, List.getElem?_concat_length, guarded.alive, mKey.trans same.symm⟩, fresh.1⟩
    case isFalse =>
      obtain ⟨⟨s, c, at', alive, own⟩, never⟩ := safe.table k q entry
      have inside := (List.getElem?_eq_some_iff.mp at').1
      exact ⟨⟨s, c, (List.getElem?_append_left inside).trans at', alive, own⟩, never⟩
  · exact safe.removed
  · intro q s found
    by_cases inside : q < l.slots.length
    · exact safe.deleted q s ((List.getElem?_append_left inside).symm.trans found)
    · have last : q = l.slots.length := by
        have bound := (List.getElem?_eq_some_iff.mp found).1
        rw [List.length_append, List.length_singleton] at bound
        omega
      subst last
      cases List.getElem?_concat_length.symm.trans found
      rw [guarded.alive]
      exact fresh.2
  · intro q far
    rw [List.length_append] at far
    exact safe.later q (by omega)

end

/-- **Every step keeps the loop safe.** -/
theorem Safe.step {mMaxConnections : Int} {l l' : LoopState} {e : LoopStep} (safe : Safe l)
    (stepped : l.step mMaxConnections e = some l') : Safe l' := by
  cases e with
  | accept clientFD => exact safe.accept stepped
  | ready p k cause => exact safe.ready stepped
  | call p k m => exact safe.call stepped

theorem safe_init : Safe init where
  fine := rfl
  slots := by
    intro slot member
    cases member
  table key p entry := by
    have empty := congrArg SessionEntry.mSession (SessionManager.entry_init (σ := Nat) key)
    cases empty.symm.trans entry
  removed _ := Nat.zero_le _
  deleted p slot found := by
    cases List.mem_of_getElem? found
  later _ _ := ⟨rfl, rfl⟩

/-- What the life of the sessions owes libevent and the heap: no misuse so far; the flags of each
session say whether its events are on a queue; it has been taken out of the table and deleted at most
once; of a deleted session no event is on a queue, so that every callback finds its session. -/
def Kept (l : LoopState) : Prop :=
  l.misuse = none ∧ ∀ p slot, l.slots[p]? = some slot →
    (∀ c, slot.session = some c → c.mReading = slot.queued .read ∧ c.mWriting = slot.queued .write) ∧
    l.log.count (.removed p) ≤ 1 ∧ l.log.count (.deleted p) ≤ 1 ∧
    (0 < l.log.count (.deleted p) → slot.session = none ∧ ∀ k, slot.queued k = false) ∧
    ∀ k m l', l.step 0 (.call p k m) = some l' → slot.session.isSome = true

theorem Safe.kept {l : LoopState} (safe : Safe l) : Kept l := by
  refine ⟨safe.fine, ?_⟩
  intro p slot at'
  have count := safe.deleted p slot at'
  refine ⟨?_, safe.removed p, ?_, ?_, ?_⟩
  · intro c alive
    rcases safe.slots slot (List.mem_of_getElem? at') with ⟨d, guarded, -⟩ | ⟨gone, -⟩
    · cases guarded.alive.symm.trans alive
      exact ⟨guarded.busy .read (by decide), guarded.busy .write (by decide)⟩
    · rw [gone] at alive
      cases alive
  · rw [count]
    split <;> decide
  · intro deleted
    rcases safe.slots slot (List.mem_of_getElem? at') with ⟨d, guarded, -⟩ | gone
    · rw [guarded.alive] at count
      rw [count] at deleted
      exact absurd deleted (Nat.lt_irrefl 0)
    · exact gone
  · intro k m l' stepped
    simp only [LoopState.step, at', Option.bind_eq_bind, Option.bind_some, Option.bind_eq_some_iff] at stepped
    obtain ⟨ev, found, stepped⟩ := stepped
    obtain ⟨⟨-, active⟩, -⟩ := (Option.ite_none_right_eq_some ..).mp stepped
    obtain ⟨c, guarded, -⟩ := safe.guarded at' found (by simp [Ev.queued, active])
    rw [guarded.alive]
    rfl

/-- **The life cycle of the sessions**, over every run of the loop: any connections, any order in which
events come up and are called, any results and `addEvent` calls of the methods. -/
theorem session_life_cycle {mMaxConnections : Int} {steps : List LoopStep} {l : LoopState}
    (run : Runs (step mMaxConnections) (fun _ _ _ => True) init steps l) : Kept l := by
  have safe : Safe l := run.invariant safe_init fun _ _ _ safe stepped _ => safe.step stepped
  exact safe.kept

/-- Reading and writing come up in one round, and reading ends the session; its socket is used again. -/
theorem session_life_cycle_sample : ∃ l, Runs (step 1) (fun _ _ _ => True) init
    [.accept 7, .ready 0 .time .expired, .ready 0 .read .expired, .call 0 .time ⟨[.write], 0⟩,
      .call 0 .read ⟨[], 0⟩, .ready 0 .write .ready, .ready 0 .read .ready, .call 0 .read ⟨[.write], 0⟩,
      .accept 7, .accept 8, .ready 2 .write .ready, .call 2 .write ⟨[.read], -1528⟩] l ∧ Kept l := by
  have finished : (exec (step 1) (fun _ _ _ => True) init
      [.accept 7, .ready 0 .time .expired, .ready 0 .read .expired, .call 0 .time ⟨[.write], 0⟩,
        .call 0 .read ⟨[], 0⟩, .ready 0 .write .ready, .ready 0 .read .ready, .call 0 .read ⟨[.write], 0⟩,
        .accept 7, .accept 8, .ready 2 .write .ready, .call 2 .write ⟨[.read], -1528⟩]).isSome = true := by
    decide +kernel
  obtain ⟨l, ran⟩ := Option.isSome_iff_exists.mp finished
  exact ⟨l, .of_exec ran, session_life_cycle (.of_exec ran)⟩

end LoopState

end GreatEvent
