import GreatEvent.Net.EpollTable

/-!
# `epoll_dispatch`

The kernel reports descriptors of its list, each once, with the conditions
that hold. The events that wait for one of them become active, those of them
without `EV_PERSIST` stop to wait, and nothing else changes.
-/

namespace GreatEvent.Evsys

/-- `events[i]` after `epoll_wait`: the descriptor whose entry `data.ptr` points to, with the bits
`EPOLLIN`, `EPOLLOUT`, `EPOLLHUP` and `EPOLLERR`. -/
structure EpollReport where
  fd : Int
  input : Bool
  output : Bool
  hup : Bool
  err : Bool
  deriving DecidableEq, Repr

namespace EpollReport

/-- `what`, after `EPOLLHUP` and `EPOLLERR` were taken for both conditions. -/
def what (report : EpollReport) : EpollBits :=
  ⟨report.input || report.hup || report.err, report.output || report.hup || report.err⟩

end EpollReport

namespace EventBase

/-- `if (ev != NULL && !(ev->ev_events & EV_PERSIST)) event_del(ev)` -/
def once (base : EventBase Epollop) (ev : Option EvId) : Option (EventBase Epollop) :=
  match ev with
  | none => some base
  | some id => if (base.event id).ev_events.persist then some base
    else (base.eventDel Epollop.epollops id).map Prod.snd

/-- `if (ev != NULL) event_active(ev, res, 1)` -/
def fire (base : EventBase Epollop) (ev : Option EvId) (res : EvMask) : Option (EventBase Epollop) :=
  match ev with
  | none => some base
  | some id => base.eventActive id res 1

/-- The loop of `epoll_dispatch`, for one report. -/
def report (base : EventBase Epollop) (report : EpollReport) : Option (EventBase Epollop) := do
  let evep ← base.evbase.entry report.fd
  let evread := if report.what.input then evep.evread else none
  let evwrite := if report.what.output then evep.evwrite else none
  let base ← base.once evread
  let base ← base.once (if evwrite = evread then none else evwrite)
  let base ← base.fire evread .ofRead
  base.fire evwrite .ofWrite

/-- `epoll_dispatch`, once `epoll_wait` has returned. -/
def epollDispatch (base : EventBase Epollop) (reports : List EpollReport) :
    Option (EventBase Epollop) :=
  reports.foldlM EventBase.report base

end EventBase

namespace Event

/-- The event after the dispatch took it off the queues, if it is there for one time. -/
def once (ev : Event) : Event := if ev.ev_events.persist then ev else ev.deleted

/-- The event waits for a descriptor, and one of the conditions holds. -/
def met (ev : Event) (what : EpollBits) : Bool :=
  ev.flags .inserted && (what.input && ev.ev_events.read || what.output && ev.ev_events.write)

/-- What the report of its descriptor makes of an event. -/
def reported (ev : Event) (what : EpollBits) : Event :=
  if ev.met what then
    let ev' := if what.input && ev.ev_events.read then ev.once.activated .ofRead 1 else ev.once
    if what.output && ev.ev_events.write then ev'.activated .ofWrite 1 else ev'
  else ev

theorem init_once (ev : Event) : ev.once.init = ev.init := by
  unfold once
  split <;> rfl

end Event

namespace EventBase

variable {n : Nat} {refused : Int → Bool}

/-- One event, or none, is taken off the queues if it is there for one time. -/
theorem Sound.once {base : EventBase Epollop} (sound : base.Sound (epoll n refused)) (ev : Option EvId)
    (known : ∀ id, ev = some id → (base.event id).init = true) :
    ∃ base', base.once ev = some base' ∧ base'.Sound (epoll n refused) ∧
      ∀ x, base'.event x = if ev = some x then (base.event x).once else base.event x := by
  cases ev with
  | none => exact ⟨base, rfl, sound, fun x => rfl⟩
  | some id =>
    by_cases persist : (base.event id).ev_events.persist = true
    · refine ⟨base, by simp [EventBase.once, persist], sound, fun x => ?_⟩
      split
      case isTrue same => cases same; rw [Event.once, if_pos persist]
      case isFalse => rfl
    · obtain ⟨ret, base', deleted, sound', becomes⟩ := sound.del (known id rfl)
      have ran : base.once (some id) = some base' := by
        have told : base.eventDel Epollop.epollops id = some (ret, base') := deleted
        simp [EventBase.once, persist, told]
      refine ⟨base', ran, sound', fun x => ?_⟩
      split
      case isTrue same => cases same; rw [becomes.self, Event.once, if_neg persist]
      case isFalse other => exact becomes.other fun same => other (by rw [same])

/-- One event, or none, becomes active. -/
theorem Sound.fire {base : EventBase Epollop} (sound : base.Sound (epoll n refused)) (ev : Option EvId)
    (res : EvMask) (known : ∀ id, ev = some id → (base.event id).init = true) :
    ∃ base', base.fire ev res = some base' ∧ base'.Sound (epoll n refused) ∧
      ∀ x, base'.event x = if ev = some x then (base.event x).activated res 1 else base.event x := by
  cases ev with
  | none => exact ⟨base, rfl, sound, fun x => rfl⟩
  | some id =>
    obtain ⟨base', activated, sound', -, becomes⟩ := sound.active res (known id rfl) (le_refl 1)
    refine ⟨base', activated, sound', fun x => ?_⟩
    split
    case isTrue same => cases same; exact becomes.self
    case isFalse other => exact becomes.other fun same => other (by rw [same])

/-- The table shows the events that wait for a descriptor. -/
theorem Sound.slot {base : EventBase Epollop} (sound : base.Sound (epoll n refused)) {fd : Int}
    (taken : refused fd = false) (id : EvId) :
    ((base.evbase.slot fd).evread = some id ↔ (base.event id).flags .inserted = true ∧
        (base.event id).ev_fd = fd ∧ (base.event id).ev_events.read = true) ∧
      ((base.evbase.slot fd).evwrite = some id ↔ (base.event id).flags .inserted = true ∧
        (base.event id).ev_fd = fd ∧ (base.event id).ev_events.write = true) := by
  have mirrors : base.evbase.Mirrors n refused _ := sound.kernel
  constructor
  · rw [mirrors.reads, taken, and_iff_right rfl]
    exact sound.waits_io EvMask.read (fun events holds => by simp [EvMask.io, holds]) fd id
  · rw [mirrors.writes, taken, and_iff_right rfl]
    exact sound.waits_io EvMask.write (fun events holds => by simp [EvMask.io, holds]) fd id

/-- **One report**: the events that wait for what it says become active. -/
theorem Sound.report {base : EventBase Epollop} (sound : base.Sound (epoll n refused))
    {r : EpollReport} (low : 0 ≤ r.fd) (high : r.fd < n) (taken : refused r.fd = false) :
    ∃ base', base.report r = some base' ∧ base'.Sound (epoll n refused) ∧
      ∀ x, base'.event x
        = if (base.event x).ev_fd = r.fd then (base.event x).reported r.what else base.event x := by
  have mirrors : base.evbase.Mirrors n refused _ := sound.kernel
  have entry := Epollop.entry_of_range low (by rw [mirrors.size]; exact high)
  have shown := sound.slot taken
  generalize base.evbase.slot r.fd = evep at entry shown
  generalize evread : (if r.what.input then evep.evread else none) = reader
  generalize evwrite : (if r.what.output then evep.evwrite else none) = writer
  have reads : ∀ x, reader = some x ↔ r.what.input = true ∧ (base.event x).flags .inserted = true ∧
      (base.event x).ev_fd = r.fd ∧ (base.event x).ev_events.read = true := by
    intro x
    rw [← evread]
    split
    case isTrue holds => rw [(shown x).1, holds, and_iff_right rfl]
    case isFalse off => simp [off]
  have writes : ∀ x, writer = some x ↔ r.what.output = true ∧ (base.event x).flags .inserted = true ∧
      (base.event x).ev_fd = r.fd ∧ (base.event x).ev_events.write = true := by
    intro x
    rw [← evwrite]
    split
    case isTrue holds => rw [(shown x).2, holds, and_iff_right rfl]
    case isFalse off => simp [off]
  have knownReader : ∀ x, reader = some x → (base.event x).init = true := fun x here =>
    sound.queues.known .inserted x ((reads x).mp here).2.1
  have knownWriter : ∀ x, writer = some x → (base.event x).init = true := fun x here =>
    sound.queues.known .inserted x ((writes x).mp here).2.1
  obtain ⟨base₁, first, sound₁, event₁⟩ := sound.once reader knownReader
  have init₁ : ∀ x, (base₁.event x).init = (base.event x).init := by
    intro x
    rw [event₁]
    split
    case isTrue => exact (base.event x).init_once
    case isFalse => rfl
  obtain ⟨base₂, second, sound₂, event₂⟩ := sound₁.once (if writer = reader then none else writer)
    (fun x here => by
      rw [init₁]
      split at here
      case isTrue => cases here
      case isFalse => exact knownWriter x here)
  have once₂ : ∀ x, base₂.event x
      = if reader = some x ∨ writer = some x then (base.event x).once else base.event x := by
    intro x
    rw [event₂, event₁]
    by_cases isReader : reader = some x
    · simp [isReader]
    · by_cases isWriter : writer = some x
      · simp [isReader, isWriter, Ne.symm isReader]
      · by_cases same : writer = reader
        · simp [isReader, same]
        · simp [isReader, isWriter, same]
  have init₂ : ∀ x, (base₂.event x).init = (base.event x).init := by
    intro x
    rw [once₂]
    split
    case isTrue => exact (base.event x).init_once
    case isFalse => rfl
  obtain ⟨base₃, third, sound₃, event₃⟩ := sound₂.fire reader .ofRead fun x here => by
    rw [init₂]
    exact knownReader x here
  obtain ⟨base', fourth, sound', event'⟩ := sound₃.fire writer .ofWrite fun x here => by
    have known := knownWriter x here
    rw [← init₂] at known
    rw [event₃]
    split
    case isTrue => rw [Event.init_activated]; exact known
    case isFalse => exact known
  refine ⟨base', ?_, sound', fun x => ?_⟩
  · simp only [EventBase.report, entry, Option.bind_eq_bind, Option.bind_some, evread, evwrite, first,
      second, third, fourth]
  · rw [event', event₃, once₂]
    by_cases here : (base.event x).ev_fd = r.fd
    · rw [if_pos here]
      cases inserted : (base.event x).flags .inserted with
      | false =>
        have noReader : reader ≠ some x := fun shown => by simp [(reads x).mp shown] at inserted
        have noWriter : writer ≠ some x := fun shown => by simp [(writes x).mp shown] at inserted
        simp [noReader, noWriter, Event.reported, Event.met, inserted]
      | true =>
        have isReader : reader = some x ↔ (r.what.input && (base.event x).ev_events.read) = true := by
          simp [reads, here, inserted]
        have isWriter : writer = some x ↔ (r.what.output && (base.event x).ev_events.write) = true := by
          simp [writes, here, inserted]
        simp only [isReader, isWriter, Event.reported, Event.met, inserted, Bool.true_and, Bool.or_eq_true]
        cases r.what.input && (base.event x).ev_events.read <;>
          cases r.what.output && (base.event x).ev_events.write <;> rfl
    · have noReader : reader ≠ some x := fun shown => here ((reads x).mp shown).2.2.1
      have noWriter : writer ≠ some x := fun shown => here ((writes x).mp shown).2.2.1
      simp [noReader, noWriter, here]

end EventBase

namespace Event

/-- What the dispatch does to an event depends on the conditions of its descriptor; no report, no
conditions. -/
theorem reported_none (ev : Event) : ev.reported ⟨false, false⟩ = ev := by
  simp [reported, met]

theorem fd_reported (ev : Event) (what : EpollBits) : (ev.reported what).ev_fd = ev.ev_fd := by
  have kept : ∀ (ev : Event) res, (ev.activated res 1).ev_fd = ev.ev_fd := by
    intro ev res
    unfold activated
    split <;> rfl
  have first : ev.once.ev_fd = ev.ev_fd := by
    unfold once
    split <;> rfl
  unfold reported
  split
  case isTrue =>
    simp only
    split <;> split <;> simp only [kept, first]
  case isFalse => rfl

theorem flags_once (ev : Event) (queue : EvList) :
    ev.once.flags queue = (ev.ev_events.persist && ev.flags queue) := by
  unfold once
  split
  case isTrue persist => rw [persist, Bool.true_and]
  case isFalse oneShot => rw [Bool.eq_false_iff.mpr oneShot]; rfl

theorem flags_activated (ev : Event) (res : EvMask) (queue : EvList) :
    (ev.activated res 1).flags queue = (decide (queue = .active) || ev.flags queue) := by
  unfold activated
  split
  case isTrue active => by_cases same : queue = .active <;> simp [same, active]
  case isFalse => by_cases same : queue = .active <;> simp [mark, same]

theorem met_iff (ev : Event) (what : EpollBits) :
    ev.met what = true ↔ ev.flags .inserted = true ∧
      ((what.input && ev.ev_events.read) = true ∨ (what.output && ev.ev_events.write) = true) := by
  simp [met]

/-- An event is active after its report if it was before, or is waiting for what was reported. -/
theorem active_reported (ev : Event) (what : EpollBits) :
    (ev.reported what).flags .active = true ↔ ev.flags .active = true ∨ ev.met what = true := by
  unfold reported
  split
  case isTrue met =>
    rcases ((ev.met_iff what).mp met).2 with holds | holds
    · simp only [holds, if_true, met, or_true, iff_true]
      split <;> simp [flags_activated]
    · simp [holds, met, flags_activated]
  case isFalse unmet => simp [unmet]

/-- The callback of an event that was not active is called once and told what was reported. -/
theorem res_reported {ev : Event} {what : EpollBits} (idle : ev.flags .active = false)
    (met : ev.met what = true) :
    (ev.reported what).ev_ncalls = 1 ∧ (ev.reported what).ev_res =
      { EvMask.none with
        read := what.input && ev.ev_events.read
        write := what.output && ev.ev_events.write } := by
  have idle' : ev.once.flags .active = false := by rw [flags_once, idle, Bool.and_false]
  have fresh : ∀ res, ev.once.activated res 1
      = { ev.once with ev_res := res, ev_ncalls := 1, ev_pncalls := none }.mark .active true := by
    intro res
    rw [activated, if_neg (by simp [idle'])]
  have twice : ∀ res res', (ev.once.activated res 1).activated res' 1
      = { ev.once.activated res 1 with ev_res := (ev.once.activated res 1).ev_res.or res' } := by
    intro res res'
    rw [activated, if_pos (by simp [flags_activated])]
  rw [reported, if_pos met]
  rcases ((ev.met_iff what).mp met).2 with holds | holds
  · cases other : what.output && ev.ev_events.write with
    | true => simp only [holds, if_true, fresh]; exact ⟨rfl, rfl⟩
    | false => simp only [holds, if_true, Bool.false_eq_true, if_false, fresh]; exact ⟨rfl, rfl⟩
  · cases other : what.input && ev.ev_events.read with
    | true => simp only [holds, if_true, fresh]; exact ⟨rfl, rfl⟩
    | false => simp only [holds, if_true, Bool.false_eq_true, if_false, fresh]; exact ⟨rfl, rfl⟩

/-- An event that is there for one time waits no more once it was reported. -/
theorem waits_reported {ev : Event} {what : EpollBits} (met : ev.met what = true)
    (oneShot : ev.ev_events.persist = false) {queue : EvList} (other : queue ≠ .active) :
    (ev.reported what).flags queue = false := by
  have off : ev.once.flags queue = false := by rw [flags_once, oneShot, Bool.false_and]
  rw [reported, if_pos met]
  simp only
  split <;> split <;> simp [flags_activated, other, off]

end Event

/-- The conditions the kernel reported for a descriptor. -/
def conditions (reports : List EpollReport) (fd : Int) : EpollBits :=
  ((reports.find? fun r => r.fd = fd).map EpollReport.what).getD ⟨false, false⟩

theorem conditions_cons_self (r : EpollReport) (reports : List EpollReport) :
    conditions (r :: reports) r.fd = r.what := by
  simp [conditions]

theorem conditions_cons_of_ne {r : EpollReport} {fd : Int} (other : r.fd ≠ fd)
    (reports : List EpollReport) : conditions (r :: reports) fd = conditions reports fd := by
  simp [conditions, other]

theorem conditions_of_not_mem {reports : List EpollReport} {fd : Int}
    (silent : fd ∉ reports.map EpollReport.fd) : conditions reports fd = ⟨false, false⟩ := by
  have none' : reports.find? (fun r => r.fd = fd) = none := by
    rw [List.find?_eq_none]
    intro r member same
    exact silent (List.mem_map.mpr ⟨r, member, by simpa using same⟩)
  rw [conditions, none']
  rfl

namespace EventBase

variable {n : Nat} {refused : Int → Bool}

/-- **All reports**: each event becomes what the report of its descriptor makes of it. -/
theorem Sound.dispatch {base : EventBase Epollop} (sound : base.Sound (epoll n refused))
    {reports : List EpollReport} (once : (reports.map EpollReport.fd).Nodup)
    (listed : ∀ r ∈ reports, 0 ≤ r.fd ∧ r.fd < n ∧ refused r.fd = false) :
    ∃ base', base.epollDispatch reports = some base' ∧ base'.Sound (epoll n refused) ∧
      ∀ x, base'.event x = (base.event x).reported (conditions reports (base.event x).ev_fd) := by
  induction reports generalizing base with
  | nil => exact ⟨base, rfl, sound, fun x => ((base.event x).reported_none).symm⟩
  | cons r reports ih =>
    obtain ⟨low, high, taken⟩ := listed r List.mem_cons_self
    obtain ⟨new, rest⟩ := List.nodup_cons.mp once
    obtain ⟨base₁, first, sound₁, event₁⟩ := sound.report low high taken
    obtain ⟨base', others, sound', event'⟩ := ih sound₁ rest fun s member =>
      listed s (List.mem_cons_of_mem _ member)
    refine ⟨base', ?_, sound', fun x => ?_⟩
    · simp only [epollDispatch, List.foldlM_cons, first, Option.bind_eq_bind, Option.bind_some]
      exact others
    · have fd : (base₁.event x).ev_fd = (base.event x).ev_fd := by
        rw [event₁]
        split
        case isTrue => exact Event.fd_reported _ _
        case isFalse => rfl
      rw [event', fd, event₁]
      split
      case isTrue here =>
        -- the other reports are for other descriptors
        rw [here, conditions_of_not_mem new, conditions_cons_self, Event.reported_none]
      case isFalse here => rw [conditions_cons_of_ne (Ne.symm here)]

/-- What the reports change and what they leave. -/
theorem Sound.dispatch_activates {base : EventBase Epollop} (sound : base.Sound (epoll n refused))
    {reports : List EpollReport} (once : (reports.map EpollReport.fd).Nodup)
    (listed : ∀ r ∈ reports, (base.evbase.interest r.fd).isSome = true) :
    ∃ base', base.epollDispatch reports = some base' ∧ base'.Sound (epoll n refused) ∧ ∀ id,
      ((base'.event id).flags .active = true ↔ (base.event id).flags .active = true ∨
        (base.event id).met (conditions reports (base.event id).ev_fd) = true) ∧
      ((base.event id).flags .active = false →
        (base.event id).met (conditions reports (base.event id).ev_fd) = true →
        (base'.event id).ev_ncalls = 1 ∧ (base'.event id).ev_res =
          { EvMask.none with
            read := (conditions reports (base.event id).ev_fd).input && (base.event id).ev_events.read
            write := (conditions reports (base.event id).ev_fd).output && (base.event id).ev_events.write }) ∧
      ((base.event id).met (conditions reports (base.event id).ev_fd) = true →
        (base.event id).ev_events.persist = false →
        (base'.event id).flags .inserted = false ∧ (base'.event id).flags .timeout = false) ∧
      ((base.event id).met (conditions reports (base.event id).ev_fd) = false →
        base'.event id = base.event id) := by
  have mirrors : base.evbase.Mirrors n refused _ := sound.kernel
  have inTable : ∀ r ∈ reports, 0 ≤ r.fd ∧ r.fd < n ∧ refused r.fd = false := by
    intro r member
    have asked := listed r member
    rw [mirrors.interest, Evepoll.interest] at asked
    split at asked
    case isTrue => cases asked
    case isFalse shown =>
      have taken : refused r.fd = false := by
        by_contra refusal
        rw [mirrors.slot_of_refused (by simpa using refusal)] at shown
        exact shown rfl
      have waits : ∃ id, Epollop.Waits (fun x => (base.event x).waiting) EvMask.io r.fd id := by
        simp only [Evepoll.idle, Bool.and_eq_true, Option.isNone_iff_eq_none, not_and_or] at shown
        rcases shown with reader | writer
        · obtain ⟨id, here⟩ := Option.ne_none_iff_exists'.mp reader
          obtain ⟨events, there, read⟩ := ((mirrors.reads r.fd id).mp here).2
          exact ⟨id, events, there, by simp [EvMask.io, read]⟩
        · obtain ⟨id, here⟩ := Option.ne_none_iff_exists'.mp writer
          obtain ⟨events, there, write⟩ := ((mirrors.writes r.fd id).mp here).2
          exact ⟨id, events, there, by simp [EvMask.io, write]⟩
      obtain ⟨id, waits⟩ := waits
      obtain ⟨low, high⟩ := mirrors.range r.fd id waits
      exact ⟨low, high, taken⟩
  obtain ⟨base', ran, sound', event'⟩ := sound.dispatch once inTable
  refine ⟨base', ran, sound', fun id => ⟨?_, ?_, ?_, ?_⟩⟩
  · rw [event']
    exact Event.active_reported _ _
  · intro idle met
    rw [event']
    exact Event.res_reported idle met
  · intro met oneShot
    rw [event']
    exact ⟨Event.waits_reported met oneShot (by decide), Event.waits_reported met oneShot (by decide)⟩
  · intro unmet
    rw [event', Event.reported, if_neg (by simp [unmet])]

end EventBase

end GreatEvent.Evsys
