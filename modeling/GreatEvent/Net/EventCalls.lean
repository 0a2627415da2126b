import GreatEvent.Net.EventQueues

/-!
# `event.c`: the calls of a program

Each function a program calls finds flags and queues in agreement and leaves
them so. The counter of the callbacks of an event is not written through a
stale pointer as long as an event is never activated for more than one call:
then the counter is down before the callback is called.
-/

namespace GreatEvent.Evsys

variable {β : Type}

/-- What an event waits for, while it does: a signal, or input or output on a descriptor. -/
def Event.waiting (ev : Event) : Option (Int × EvMask) :=
  if ev.flags .inserted || ev.flags .signal then some (ev.ev_fd, ev.ev_events) else none

/-- A kernel side with what it keeps true of itself and of the events that wait, and the events it
has room for. -/
structure Kernel (β : Type) where
  evsel : EventOp β
  inv : β → (EvId → Option (Int × EvMask)) → Prop
  room : (EvId → Option (Int × EvMask)) → Int → EvMask → Prop
  add : ∀ {evbase waiting} id ev, inv evbase waiting → waiting id = none →
    ev.ev_events.io ≠ ev.ev_events.signal → room waiting ev.ev_fd ev.ev_events →
    ∃ ret evbase', evsel.add evbase id ev = some (ret, evbase') ∧
      inv evbase' (Function.update waiting id (some (ev.ev_fd, ev.ev_events)))
  del : ∀ {evbase waiting} id ev, inv evbase waiting → waiting id = some (ev.ev_fd, ev.ev_events) →
    ev.ev_events.io ≠ ev.ev_events.signal →
    ∃ ret evbase', evsel.del evbase id ev = some (ret, evbase') ∧
      inv evbase' (Function.update waiting id none)

namespace Event

/-- The bit of `ev_flags` for a queue, set or cleared. -/
def mark (ev : Event) (queue : EvList) (on : Bool) : Event :=
  { ev with flags := Function.update ev.flags queue on }

/-- The event after `event_del`. -/
def deleted (ev : Event) : Event := { ev with flags := fun _ => false }

/-- The event after `event_active`. -/
def activated (ev : Event) (res : EvMask) (ncalls : Nat) : Event :=
  if ev.flags .active then { ev with ev_res := ev.ev_res.or res }
  else { ev with ev_res := res, ev_ncalls := ncalls, ev_pncalls := none }.mark .active true

/-- The event after the first half of `event_add`. -/
def scheduled (ev : Event) (timeout : Timeval) : Event :=
  { ev with
    ev_timeout := timeout
    flags := Function.update
      (Function.update ev.flags .active (ev.flags .active && !ev.ev_res.timeout)) .timeout true }

def scheduledIf (ev : Event) (timeout : Option Timeval) : Event :=
  match timeout with
  | none => ev
  | some timeout => ev.scheduled timeout

/-- The event after the second half of `event_add`. -/
def awaited (ev : Event) : Event :=
  if ev.ev_events.io && !(ev.flags .inserted || ev.flags .active) then ev.mark .inserted true
  else if ev.ev_events.signal && !ev.flags .signal then ev.mark .signal true
  else ev

/-- The event after `event_add`. -/
def added (ev : Event) (timeout : Option Timeval) : Event := (ev.scheduledIf timeout).awaited

/-- The first half of `event_add`, step by step. -/
theorem scheduled_eq (ev : Event) (timeout : Timeval) : ev.scheduled timeout
    = { (ev.mark .timeout false).mark .active (ev.flags .active && !ev.ev_res.timeout) with
        ev_timeout := timeout }.mark .timeout true := by
  have flags : Function.update
        (Function.update ev.flags .active (ev.flags .active && !ev.ev_res.timeout)) .timeout true
      = Function.update (Function.update (Function.update ev.flags .timeout false) .active
          (ev.flags .active && !ev.ev_res.timeout)) .timeout true := by
    funext queue
    cases queue <;> rfl
  simp only [scheduled, mark, flags]

@[simp] theorem init_deleted (ev : Event) : ev.deleted.init = ev.init := rfl

@[simp] theorem init_activated (ev : Event) (res : EvMask) (ncalls : Nat) :
    (ev.activated res ncalls).init = ev.init := by
  unfold activated
  split <;> rfl

@[simp] theorem init_added (ev : Event) (timeout : Option Timeval) :
    (ev.added timeout).init = ev.init := by
  have first : (ev.scheduledIf timeout).init = ev.init := by cases timeout <;> rfl
  rw [added, awaited]
  split
  case isTrue => exact first
  case isFalse =>
    split
    case isTrue => exact first
    case isFalse => exact first

end Event

namespace EventBase

variable {k : Kernel β}

/-- What holds of a base between the calls of its program. -/
structure Sound (k : Kernel β) (base : EventBase β) : Prop where
  queues : base.Queues
  kernel : k.inv base.evbase fun id => (base.event id).waiting
  calls : ∀ id, (base.event id).ev_ncalls ≤ 1
  counter : ∀ id, (base.event id).ev_ncalls = 0 ∨ (base.event id).ev_pncalls = none
  apart : ∀ id, ((base.event id).ev_events.io && (base.event id).ev_events.signal) = false
  inserted : ∀ id, (base.event id).flags .inserted = true → (base.event id).ev_events.io = true
  signal : ∀ id, (base.event id).flags .signal = true → (base.event id).ev_events.signal = true
  priorities : 0 < base.activequeues.length

theorem Sound.abortLoop {base : EventBase β} (sound : base.Sound k) (id : EvId) :
    base.abortLoop id = some base := by
  unfold EventBase.abortLoop
  split
  case isTrue => rfl
  case isFalse calls =>
    rw [(sound.counter id).resolve_left calls]

theorem Sound.not_signal_of_inserted {base : EventBase β} (sound : base.Sound k) {id : EvId}
    (on : (base.event id).flags .inserted = true) : (base.event id).flags .signal = false := by
  by_contra flagged
  have mixed := sound.apart id
  rw [sound.inserted id on, sound.signal id (by simpa using flagged)] at mixed
  cases mixed

/-- What a call about the event `id` makes of a base: the event becomes `ev`, the timeouts and the
active queues become what is said. -/
structure Becomes (base base' : EventBase β) (id : EvId) (ev : Event) (timeouts : List EvId)
    (actives : List (List EvId)) : Prop where
  event : base'.event = Function.update base.event id ev
  timeouts : base'.timetree.toList = timeouts
  actives : base'.activequeues = actives
  gotterm : base'.event_gotterm = base.event_gotterm
  counter : base'.ncalls = base.ncalls ∧ base'.runs = base.runs

/-- The active queues without an event. -/
def withoutActive (base : EventBase β) (id : EvId) : List (List EvId) :=
  base.activequeues.modify (base.event id).ev_pri fun l => l.erase id

theorem withoutActive_of_idle {base : EventBase β} (queues : base.Queues) {id : EvId}
    (idle : (base.event id).flags .active = false) : base.withoutActive id = base.activequeues := by
  have off : id ∉ base.activequeues.flatten := fun member => by
    rw [(queues.listed .active id).mp member] at idle
    cases idle
  refine List.ext_getElem? fun p => ?_
  rw [withoutActive, List.getElem?_modify]
  split
  case isTrue =>
    cases there : base.activequeues[p]? with
    | none => rfl
    | some l =>
      have notIn : id ∉ l := fun member =>
        off (List.mem_flatten.mpr ⟨l, List.mem_of_getElem? there, member⟩)
      simp [List.erase_of_not_mem notIn]
  case isFalse => simp

/-- The queues move an event and leave the rest of a sound base alone, if the kernel side is told. -/
theorem Moves.sound {base base' : EventBase β} {id : EvId} {queue : EvList} {on : Bool}
    (moves : base.Moves base' id queue on) (sound : base.Sound k)
    (was : (base.event id).flags queue = !on) (known : (base.event id).init = true)
    (io : on = true → queue = .inserted → (base.event id).ev_events.io = true)
    (signal : on = true → queue = .signal → (base.event id).ev_events.signal = true) {evbase : β}
    (kernel : k.inv evbase fun x => (base'.event x).waiting) :
    ({ base' with evbase := evbase } : EventBase β).Sound k := by
  have queues := moves.queues sound.queues was known
  refine ⟨⟨queues.listed, queues.once, queues.own, queues.known, queues.room, queues.balanced,
    queues.sorted, queues.total, queues.active⟩, kernel, ?_, ?_, ?_, ?_, ?_, ?_⟩
  · intro x
    simp only
    rw [moves.fields x]
    exact sound.calls x
  · intro x
    simp only
    rw [moves.fields x]
    exact sound.counter x
  · intro x
    simp only
    rw [moves.fields x]
    exact sound.apart x
  · intro x flagged
    simp only at flagged ⊢
    rw [moves.flags] at flagged
    rw [moves.fields x]
    split at flagged
    case isTrue both => rw [both.1]; exact io flagged both.2.symm
    case isFalse => exact sound.inserted x flagged
  · intro x flagged
    simp only at flagged ⊢
    rw [moves.flags] at flagged
    rw [moves.fields x]
    split at flagged
    case isTrue both => rw [both.1]; exact signal flagged both.2.symm
    case isFalse => exact sound.signal x flagged
  · simp only
    rw [moves.priorities]
    exact sound.priorities

/-- What an event waits for does not depend on its timeout, nor on whether it is active. -/
theorem waiting_mark {ev : Event} {queue : EvList} {on : Bool} (idle : queue = .timeout ∨ queue = .active) :
    (ev.mark queue on).waiting = ev.waiting := by
  rcases idle with rfl | rfl <;> rfl

/-- The kernel side is not told of timeouts and active events. -/
theorem Moves.sound_idle {base base' : EventBase β} {id : EvId} {queue : EvList} {on : Bool}
    (moves : base.Moves base' id queue on) (sound : base.Sound k)
    (was : (base.event id).flags queue = !on) (known : (base.event id).init = true)
    (idle : queue = .timeout ∨ queue = .active) : base'.Sound k := by
  have kernel : k.inv base'.evbase fun x => (base'.event x).waiting := by
    have same : (fun x => (base'.event x).waiting) = fun x => (base.event x).waiting := by
      funext x
      rw [moves.event, flag, event_modify]
      split
      case isTrue self => rw [self]; exact waiting_mark idle
      case isFalse => rfl
    rw [moves.evbase, same]
    exact sound.kernel
  refine moves.sound sound was known ?_ ?_ kernel
  · rintro - rfl
    rcases idle with absurd | absurd <;> cases absurd
  · rintro - rfl
    rcases idle with absurd | absurd <;> cases absurd

theorem Moves.becomes {base base' : EventBase β} {id : EvId} {queue : EvList} {on : Bool}
    (moves : base.Moves base' id queue on) :
    base.Becomes base' id ((base.event id).mark queue on)
      (if queue = .timeout then
          if on then RBTree.putInto (compareEvents base.event) id base.timetree.toList
          else base.timetree.toList.erase id
        else base.timetree.toList)
      (if queue = .active then
          base.activequeues.modify (base.event id).ev_pri fun l => if on then l ++ [id] else l.erase id
        else base.activequeues) := by
  refine ⟨moves.event, ?_, moves.actives, moves.gotterm, moves.counter⟩
  split
  case isTrue same => exact moves.order same
  case isFalse other => exact moves.rest .timeout (Ne.symm other)

/-- A queue is left, if the event is on it. -/
theorem Sound.removeIf {base : EventBase β} (sound : base.Sound k) (id : EvId) {queue : EvList}
    (idle : queue = .timeout ∨ queue = .active) :
    ∃ base', base.removeIf id queue = some base' ∧ base'.Sound k ∧ base'.evbase = base.evbase ∧
      base.Becomes base' id ((base.event id).mark queue false)
        (if queue = .timeout then base.timetree.toList.erase id else base.timetree.toList)
        (if queue = .active then base.withoutActive id else base.activequeues) := by
  unfold EventBase.removeIf
  by_cases on : (base.event id).flags queue = true
  · obtain ⟨base', removed, moves⟩ := eventQueueRemove_moves sound.queues on
    have kept := moves.sound_idle sound on (sound.queues.known queue id on) idle
    exact ⟨base', by rw [if_pos on, removed], kept, moves.evbase, moves.becomes⟩
  · have off : (base.event id).flags queue = false := by simpa using on
    refine ⟨base, if_neg on, sound, rfl, ?_, ?_, ?_, rfl, rfl, rfl⟩
    · have flags : Function.update (base.event id).flags queue false = (base.event id).flags := by
        rw [← off]
        exact Function.update_eq_self _ _
      have same : (base.event id).mark queue false = base.event id := by
        simp only [Event.mark, flags]
      rw [same, Function.update_eq_self]
    · split
      case isTrue timeout =>
        subst timeout
        refine (List.erase_of_not_mem fun member => ?_).symm
        rw [(sound.queues.listed .timeout id).mp member] at off
        cases off
      case isFalse => rfl
    · split
      case isTrue active => subst active; exact (withoutActive_of_idle sound.queues off).symm
      case isFalse => rfl

section Becomes

variable {base base' base'' : EventBase β} {id : EvId} {ev ev' : Event}
  {timeouts timeouts' : List EvId} {actives actives' : List (List EvId)}

theorem Becomes.self (becomes : base.Becomes base' id ev timeouts actives) : base'.event id = ev := by
  rw [becomes.event, Function.update_self]

theorem Becomes.other (becomes : base.Becomes base' id ev timeouts actives) {x : EvId}
    (other : x ≠ id) : base'.event x = base.event x := by
  rw [becomes.event, Function.update_of_ne other]

/-- Two changes of one event. -/
theorem Becomes.trans (first : base.Becomes base' id ev timeouts actives)
    (second : base'.Becomes base'' id ev' timeouts' actives') :
    base.Becomes base'' id ev' timeouts' actives' := by
  refine ⟨?_, second.timeouts, second.actives, second.gotterm.trans first.gotterm,
    second.counter.1.trans first.counter.1, second.counter.2.trans first.counter.2⟩
  rw [second.event, first.event, Function.update_idem]

/-- The kernel side is told. -/
theorem Becomes.evbase (becomes : base.Becomes base' id ev timeouts actives) (evbase : β) :
    base.Becomes { base' with evbase := evbase } id ev timeouts actives :=
  ⟨becomes.event, becomes.timeouts, becomes.actives, becomes.gotterm, becomes.counter⟩

end Becomes

/-- An event that waits is there for a descriptor or for a signal, and not for both. -/
theorem Sound.waits {base : EventBase β} (sound : base.Sound k) {id : EvId} {queue : EvList}
    (on : (base.event id).flags queue = true) (waits : queue = .inserted ∨ queue = .signal) :
    (base.event id).ev_events.io ≠ (base.event id).ev_events.signal ∧
      (base.event id).waiting = some ((base.event id).ev_fd, (base.event id).ev_events) ∧
      ((base.event id).mark queue false).waiting = none := by
  have apart := sound.apart id
  rcases waits with rfl | rfl
  · have io := sound.inserted id on
    rw [io, Bool.true_and] at apart
    refine ⟨by rw [io, apart]; decide, by rw [Event.waiting, on]; rfl, ?_⟩
    simp [Event.waiting, Event.mark, sound.not_signal_of_inserted on]
  · have signal := sound.signal id on
    rw [signal, Bool.and_true] at apart
    have out : (base.event id).flags .inserted = false := by
      by_contra inserted
      rw [sound.not_signal_of_inserted (by simpa using inserted)] at on
      cases on
    refine ⟨by rw [signal, apart]; decide, by rw [Event.waiting, on, Bool.or_true]; rfl, ?_⟩
    simp [Event.waiting, Event.mark, out]

/-- `event_queue_remove` and `evsel->del`. -/
theorem Sound.dequeue {base : EventBase β}
    (sound : base.Sound k) {id : EvId} {queue : EvList} (on : (base.event id).flags queue = true)
    (waits : queue = .inserted ∨ queue = .signal) :
    ∃ ret base', dequeue k.evsel base id queue = some (ret, base') ∧ base'.Sound k ∧
      base.Becomes base' id ((base.event id).mark queue false) base.timetree.toList
        base.activequeues := by
  obtain ⟨base₁, removed, moves⟩ := eventQueueRemove_moves sound.queues on
  obtain ⟨one, waited, left⟩ := sound.waits on waits
  have becomes := moves.becomes
  obtain ⟨ret, evbase, told, inv⟩ := k.del id (base₁.event id) sound.kernel
    (by rw [becomes.self]; exact waited) (by rw [becomes.self]; exact one)
  have kernel : k.inv evbase fun x => (base₁.event x).waiting := by
    have same : (fun x => (base₁.event x).waiting)
        = Function.update (fun x => (base.event x).waiting) id none := by
      funext x
      rw [Function.update_apply]
      split
      case isTrue self => rw [self, becomes.self, left]
      case isFalse other => rw [becomes.other other]
    rwa [same]
  have sound' := moves.sound sound on (sound.queues.known queue id on)
    (fun absurd => by cases absurd) (fun absurd => by cases absurd) kernel
  refine ⟨ret, { base₁ with evbase := evbase }, ?_, sound', ?_⟩
  · rw [← moves.evbase] at told
    simp [EventBase.dequeue, removed, told]
  · have told := becomes.evbase evbase
    rcases waits with rfl | rfl <;> exact told

/-- `event_del` of an event that was set: it leaves all queues. -/
theorem Sound.del {base : EventBase β}
    (sound : base.Sound k) {id : EvId} (known : (base.event id).init = true) :
    ∃ ret base', eventDel k.evsel base id = some (ret, base') ∧ base'.Sound k ∧
      base.Becomes base' id (base.event id).deleted (base.timetree.toList.erase id)
        (base.withoutActive id) := by
  unfold eventDel
  rw [if_neg (by simp [known])]
  obtain ⟨base₁, first, sound₁, -, becomes₁⟩ := sound.removeIf id (.inl rfl)
  obtain ⟨base₂, second, sound₂, -, becomes₂⟩ := sound₁.removeIf id (.inr rfl)
  have actives : base₁.withoutActive id = base.withoutActive id := by
    rw [withoutActive, becomes₁.self, becomes₁.actives]
    rfl
  have both := becomes₁.trans becomes₂
  simp only [if_true, reduceCtorEq, if_false, becomes₁.self, becomes₁.timeouts, actives] at both
  simp only [sound.abortLoop id, Option.bind_eq_bind, Option.bind_some, first, second]
  have noTimeout : (base₂.event id).flags .timeout = false := by
    rw [both.self]
    simp [Event.mark]
  have idle : (base₂.event id).flags .active = false := by
    rw [both.self]
    simp [Event.mark]
  have off : ∀ ev : Event, { ev with flags := fun _ => false } = (base.event id).deleted →
      (∀ queue, ev.flags queue = false) → ev = (base.event id).deleted := by
    intro ev same clear
    rw [← same, ← funext clear]
  split
  case isTrue on =>
    obtain ⟨ret, base', told, sound', becomes'⟩ := sound₂.dequeue on (.inl rfl)
    refine ⟨ret, base', told, sound', ?_⟩
    have ends := both.trans becomes'
    have noSignal := sound₂.not_signal_of_inserted on
    have clear : (base₂.event id).mark .inserted false = (base.event id).deleted := by
      refine off _ (by rw [both.self]; rfl) fun queue => ?_
      cases queue <;> simp [Event.mark, noTimeout, idle, noSignal]
    rwa [clear, both.timeouts, both.actives] at ends
  case isFalse out =>
    split
    case isTrue on =>
      obtain ⟨ret, base', told, sound', becomes'⟩ := sound₂.dequeue on (.inr rfl)
      refine ⟨ret, base', told, sound', ?_⟩
      have ends := both.trans becomes'
      have clear : (base₂.event id).mark .signal false = (base.event id).deleted := by
        refine off _ (by rw [both.self]; rfl) fun queue => ?_
        cases queue <;> simp [Event.mark, noTimeout, idle, out]
      rwa [clear, both.timeouts, both.actives] at ends
    case isFalse none' =>
      refine ⟨0, base₂, rfl, sound₂, ?_⟩
      have clear : base₂.event id = (base.event id).deleted := by
        refine off _ (by rw [both.self]; rfl) fun queue => ?_
        cases queue <;> simp [noTimeout, idle, out, none']
      have ends := both
      rw [← both.self, clear] at ends
      exact ends

/-- A write to fields of an event that neither its queues nor what it waits for depend on. -/
theorem Sound.modify {base : EventBase β} (sound : base.Sound k) {id : EvId} {f : Event → Event}
    (flags : (f (base.event id)).flags = (base.event id).flags)
    (internal : (f (base.event id)).internal = (base.event id).internal)
    (init : (f (base.event id)).init = (base.event id).init)
    (events : (f (base.event id)).ev_events = (base.event id).ev_events)
    (fd : (f (base.event id)).ev_fd = (base.event id).ev_fd)
    (timeout : (base.event id).flags .timeout = true →
      (f (base.event id)).ev_timeout = (base.event id).ev_timeout)
    (pri : (base.event id).flags .active = true → (f (base.event id)).ev_pri = (base.event id).ev_pri)
    (room : (base.event id).init = true → (f (base.event id)).ev_pri < base.activequeues.length)
    (calls : (f (base.event id)).ev_ncalls ≤ 1)
    (counter : (f (base.event id)).ev_ncalls = 0 ∨ (f (base.event id)).ev_pncalls = none) :
    (base.modify id f).Sound k := by
  have keepFlags : ∀ x, ((base.modify id f).event x).flags = (base.event x).flags := by
    intro x
    rw [event_modify]
    split
    case isTrue same => rw [flags, same]
    case isFalse => rfl
  have keepEvents : ∀ x, ((base.modify id f).event x).ev_events = (base.event x).ev_events := by
    intro x
    rw [event_modify]
    split
    case isTrue same => rw [events, same]
    case isFalse => rfl
  have waiting : (fun x => ((base.modify id f).event x).waiting)
      = fun x => (base.event x).waiting := by
    funext x
    rw [event_modify]
    by_cases same : x = id
    · rw [if_pos same, same, Event.waiting, flags, fd, events]
      rfl
    · rw [if_neg same]
  refine ⟨sound.queues.modify flags internal init timeout pri room, by rw [waiting]; exact sound.kernel,
    ?_, ?_, ?_, ?_, ?_, sound.priorities⟩
  · intro x
    rw [event_modify]
    split
    case isTrue => exact calls
    case isFalse => exact sound.calls x
  · intro x
    rw [event_modify]
    split
    case isTrue => exact counter
    case isFalse => exact sound.counter x
  · intro x
    rw [keepEvents]
    exact sound.apart x
  · intro x
    rw [keepFlags, keepEvents]
    exact sound.inserted x
  · intro x
    rw [keepFlags, keepEvents]
    exact sound.signal x

theorem modify_becomes (base : EventBase β) (id : EvId) (f : Event → Event) :
    base.Becomes (base.modify id f) id (f (base.event id)) base.timetree.toList base.activequeues :=
  ⟨rfl, rfl, rfl, rfl, rfl, rfl⟩

/-- The active queues with an event at the end of the one of its priority. -/
def withActive (base : EventBase β) (id : EvId) : List (List EvId) :=
  if (base.event id).flags .active then base.activequeues
  else base.activequeues.modify (base.event id).ev_pri fun l => l ++ [id]

/-- `event_active` of an event that was set, for one call at most. -/
theorem Sound.active {base : EventBase β} (sound : base.Sound k) {id : EvId} (res : EvMask)
    {ncalls : Nat} (known : (base.event id).init = true) (few : ncalls ≤ 1) :
    ∃ base', base.eventActive id res ncalls = some base' ∧ base'.Sound k ∧
      base'.evbase = base.evbase ∧
      base.Becomes base' id ((base.event id).activated res ncalls) base.timetree.toList
        (base.withActive id) := by
  unfold eventActive
  by_cases active : (base.event id).flags .active = true
  · refine ⟨_, if_pos active, ?_, rfl, ?_⟩
    · exact sound.modify rfl rfl rfl rfl rfl (fun _ => rfl) (fun _ => rfl) (sound.queues.room id)
        (sound.calls id) (sound.counter id)
    · have becomes := base.modify_becomes id fun ev => { ev with ev_res := ev.ev_res.or res }
      rw [Event.activated, if_pos active, withActive, if_pos active]
      exact becomes
  · have idle : (base.event id).flags .active = false := by simpa using active
    have sound₁ : (base.modify id fun ev =>
        { ev with ev_res := res, ev_ncalls := ncalls, ev_pncalls := none }).Sound k :=
      sound.modify rfl rfl rfl rfl rfl (fun _ => rfl) (fun _ => rfl) (sound.queues.room id) few (.inr rfl)
    have becomes₁ := base.modify_becomes id fun ev =>
      { ev with ev_res := res, ev_ncalls := ncalls, ev_pncalls := none }
    obtain ⟨base', inserted, moves⟩ := eventQueueInsert_moves sound₁.queues .active
      (by rw [becomes₁.self]; exact idle) (by rw [becomes₁.self]; exact known)
    have kept := moves.sound_idle sound₁ (by rw [becomes₁.self]; exact idle)
      (by rw [becomes₁.self]; exact known) (.inr rfl)
    refine ⟨base', by rw [if_neg active, inserted], kept, moves.evbase, ?_⟩
    have becomes := becomes₁.trans moves.becomes
    rw [becomes₁.self] at becomes
    rw [Event.activated, if_neg active, withActive, if_neg active]
    exact becomes

/-- An event that is on no queue may be written at will. -/
theorem Sound.renew {base : EventBase β} (sound : base.Sound k) {id : EvId} {f : Event → Event}
    (free : ∀ queue, (base.event id).flags queue = false)
    (clear : ∀ queue, (f (base.event id)).flags queue = false)
    (apart : ((f (base.event id)).ev_events.io && (f (base.event id)).ev_events.signal) = false)
    (room : (f (base.event id)).ev_pri < base.activequeues.length)
    (calls : (f (base.event id)).ev_ncalls = 0) : (base.modify id f).Sound k := by
  have off : ∀ queue, id ∉ base.members queue := fun queue member => by
    have flagged := (sound.queues.listed queue id).mp member
    rw [free queue] at flagged
    cases flagged
  have flags : ∀ x queue, ((base.modify id f).event x).flags queue = (base.event x).flags queue := by
    intro x queue
    rw [event_modify]
    split
    case isTrue same => rw [clear, same, free]
    case isFalse => rfl
  have tally : ∀ queue, (base.modify id f).tally queue = base.tally queue := by
    intro queue
    simp only [EventBase.tally, members_modify]
    congr 1
    refine List.countP_congr fun x member => ?_
    have other : x ≠ id := fun same => off queue (same ▸ member)
    rw [event_modify, if_neg other]
  have waiting : (fun x => ((base.modify id f).event x).waiting)
      = fun x => (base.event x).waiting := by
    funext x
    rw [Event.waiting, flags, flags]
    by_cases same : x = id
    · rw [same, Event.waiting, free, free]
      rfl
    · rw [event_modify, if_neg same]
      rfl
  refine ⟨⟨?_, ?_, ?_, ?_, ?_, sound.queues.balanced, ?_, ?_, ?_⟩, by rw [waiting]; exact sound.kernel,
    ?_, ?_, ?_, ?_, ?_, sound.priorities⟩
  · intro queue x
    rw [members_modify, flags]
    exact sound.queues.listed queue x
  · intro queue
    rw [members_modify]
    exact sound.queues.once queue
  · intro p l there x member
    have other : x ≠ id := fun same =>
      off .active (same ▸ List.mem_flatten.mpr ⟨l, List.mem_of_getElem? there, member⟩)
    rw [event_modify, if_neg other]
    exact sound.queues.own p l there x member
  · intro queue x flagged
    rw [flags] at flagged
    have other : x ≠ id := fun same => by
      rw [same, free] at flagged
      cases flagged
    rw [event_modify, if_neg other]
    exact sound.queues.known queue x flagged
  · intro x known
    rw [event_modify] at known ⊢
    split at known
    case isTrue same => rw [if_pos same]; exact room
    case isFalse other => rw [if_neg other]; exact sound.queues.room x known
  · refine sorted_congr sound.queues.sorted fun x member => ?_
    have other : x ≠ id := fun same => off .timeout (same ▸ member)
    rw [event_modify, if_neg other]
  · simp only [tally]
    exact sound.queues.total
  · simp only [tally]
    exact sound.queues.active
  · intro x
    rw [event_modify]
    split
    case isTrue => rw [calls]; exact Nat.zero_le 1
    case isFalse => exact sound.calls x
  · intro x
    rw [event_modify]
    split
    case isTrue => exact .inl calls
    case isFalse => exact sound.counter x
  · intro x
    rw [event_modify]
    split
    case isTrue => exact apart
    case isFalse => exact sound.apart x
  · intro x flagged
    rw [flags] at flagged
    have other : x ≠ id := fun same => by
      rw [same, free] at flagged
      cases flagged
    rw [event_modify, if_neg other]
    exact sound.inserted x flagged
  · intro x flagged
    rw [flags] at flagged
    have other : x ≠ id := fun same => by
      rw [same, free] at flagged
      cases flagged
    rw [event_modify, if_neg other]
    exact sound.signal x flagged

/-- `event_set` of an event that is on no queue. -/
theorem Sound.set {base : EventBase β} (sound : base.Sound k) {id : EvId} (fd : Int) {events : EvMask}
    (free : ∀ queue, (base.event id).flags queue = false)
    (apart : (events.io && events.signal) = false) :
    (base.eventSet id fd events).Sound k :=
  sound.renew free (fun _ => rfl) apart (Nat.div_lt_self sound.priorities Nat.one_lt_two) rfl

theorem mark_self {ev : Event} {queue : EvList} {on : Bool} (same : ev.flags queue = on) :
    ev.mark queue on = ev := by
  rw [Event.mark, ← same, Function.update_eq_self]

/-- Rescheduling takes an event from the active queue that is there for its timeout. -/
theorem Sound.unfire {base : EventBase β} (sound : base.Sound k) (id : EvId) :
    ∃ base', base.unfire id = some base' ∧ base'.Sound k ∧ base'.evbase = base.evbase ∧
      base.Becomes base' id
        ((base.event id).mark .active ((base.event id).flags .active && !(base.event id).ev_res.timeout))
        base.timetree.toList
        (if (base.event id).ev_res.timeout then base.withoutActive id else base.activequeues) := by
  unfold EventBase.unfire
  cases res : (base.event id).ev_res.timeout with
  | false =>
    refine ⟨base, by simp, sound, rfl, ?_, rfl, rfl, rfl, rfl, rfl⟩
    rw [mark_self (by simp), Function.update_eq_self]
  | true =>
    obtain ⟨base', removed, sound', evbase, becomes⟩ := sound.removeIf id (.inr rfl)
    simp only [Bool.and_true, Bool.not_true, Bool.and_false, if_true, sound.abortLoop id,
      Option.bind_some]
    exact ⟨base', removed, sound', evbase, becomes⟩

/-- The first half of `event_add`. -/
theorem Sound.schedule {base : EventBase β} (sound : base.Sound k) {id : EvId} (tv now : Timeval)
    (known : (base.event id).init = true) :
    ∃ base', base.schedule id tv now = some base' ∧ base'.Sound k ∧ base'.evbase = base.evbase ∧
      ∃ timeouts, base.Becomes base' id ((base.event id).scheduled (now.add tv)) timeouts
          (if (base.event id).ev_res.timeout then base.withoutActive id else base.activequeues) ∧
        timeouts.Perm (id :: base.timetree.toList.erase id) := by
  obtain ⟨base₁, first, sound₁, evbase₁, becomes₁⟩ := sound.removeIf id (.inl rfl)
  obtain ⟨base₂, second, sound₂, evbase₂, becomes₂⟩ := sound₁.unfire id
  have both := becomes₁.trans becomes₂
  have actives : base₁.withoutActive id = base.withoutActive id := by
    rw [withoutActive, becomes₁.self, becomes₁.actives]
    rfl
  have noTimeout : (base₂.event id).flags .timeout = false := by
    rw [both.self, becomes₁.self]
    simp [Event.mark]
  have known₂ : (base₂.event id).init = true := by
    rw [both.self, becomes₁.self]
    exact known
  have sound₃ : (base₂.modify id fun ev => { ev with ev_timeout := now.add tv }).Sound k :=
    sound₂.modify rfl rfl rfl rfl rfl (fun on => by rw [noTimeout] at on; cases on) (fun _ => rfl)
      (sound₂.queues.room id) (sound₂.calls id) (sound₂.counter id)
  have becomes₃ := both.trans (base₂.modify_becomes id fun ev => { ev with ev_timeout := now.add tv })
  obtain ⟨base', inserted, moves⟩ := eventQueueInsert_moves sound₃.queues .timeout
    (by rw [becomes₃.self]; exact noTimeout) (by rw [becomes₃.self]; exact known₂)
  have kept := moves.sound_idle sound₃ (by rw [becomes₃.self]; exact noTimeout)
    (by rw [becomes₃.self]; exact known₂) (.inl rfl)
  have whole := becomes₃.trans moves.becomes
  have timeouts : base'.timetree.toList.Perm (id :: base.timetree.toList.erase id) := by
    rw [whole.timeouts, if_pos rfl, if_pos rfl, becomes₃.timeouts, both.timeouts, becomes₁.timeouts]
    exact List.perm_orderedInsert _ _ _
  refine ⟨base', ?_, kept, moves.evbase.trans (evbase₂.trans evbase₁), _, ?_, timeouts⟩
  · simp only [EventBase.schedule, Option.bind_eq_bind, first, second, Option.bind_some, inserted]
  · refine ⟨?_, rfl, ?_, whole.gotterm, whole.counter⟩
    · rw [whole.event, becomes₃.self, both.self, becomes₁.self, (base.event id).scheduled_eq]
      rfl
    · rw [whole.actives, if_neg (by decide), becomes₃.actives, both.actives, becomes₁.self, actives,
        becomes₁.actives]
      rfl

/-- `event_queue_insert` and `evsel->add`. -/
theorem Sound.enqueue {base : EventBase β}
    (sound : base.Sound k) {id : EvId} {queue : EvList} (free : (base.event id).waiting = none)
    (known : (base.event id).init = true)
    (waits : queue = .inserted ∧ (base.event id).ev_events.io = true
      ∨ queue = .signal ∧ (base.event id).ev_events.signal = true)
    (room : k.room (fun x => (base.event x).waiting) (base.event id).ev_fd (base.event id).ev_events) :
    ∃ ret base', enqueue k.evsel base id queue = some (ret, base') ∧ base'.Sound k ∧
      base.Becomes base' id ((base.event id).mark queue true) base.timetree.toList
        base.activequeues := by
  have idle : (base.event id).flags .inserted = false ∧ (base.event id).flags .signal = false := by
    rw [Event.waiting] at free
    simpa using free
  have off : (base.event id).flags queue = false := by
    rcases waits with ⟨rfl, -⟩ | ⟨rfl, -⟩
    · exact idle.1
    · exact idle.2
  have one : (base.event id).ev_events.io ≠ (base.event id).ev_events.signal := by
    have apart := sound.apart id
    rcases waits with ⟨-, io⟩ | ⟨-, signal⟩
    · rw [io, Bool.true_and] at apart
      rw [io, apart]
      decide
    · rw [signal, Bool.and_true] at apart
      rw [signal, apart]
      decide
  have waited : ((base.event id).mark queue true).waiting
      = some ((base.event id).ev_fd, (base.event id).ev_events) := by
    rcases waits with ⟨rfl, -⟩ | ⟨rfl, -⟩ <;> simp [Event.waiting, Event.mark]
  obtain ⟨base₁, inserted, moves⟩ := eventQueueInsert_moves sound.queues queue off known
  have becomes := moves.becomes
  obtain ⟨ret, evbase, told, inv⟩ := k.add id (base₁.event id) sound.kernel free
    (by rw [becomes.self]; exact one) (by rw [becomes.self]; exact room)
  have kernel : k.inv evbase fun x => (base₁.event x).waiting := by
    have same : (fun x => (base₁.event x).waiting) = Function.update (fun x => (base.event x).waiting)
        id (some ((base₁.event id).ev_fd, (base₁.event id).ev_events)) := by
      funext x
      rw [Function.update_apply]
      split
      case isTrue self => rw [self, becomes.self, waited]; rfl
      case isFalse other => rw [becomes.other other]
    rwa [same]
  have sound' : ({ base₁ with evbase := evbase } : EventBase β).Sound k := by
    refine moves.sound sound off known ?_ ?_ kernel
    · rintro - rfl
      rcases waits with ⟨-, io⟩ | ⟨absurd, -⟩
      · exact io
      · cases absurd
    · rintro - rfl
      rcases waits with ⟨absurd, -⟩ | ⟨-, signal⟩
      · cases absurd
      · exact signal
  refine ⟨ret, { base₁ with evbase := evbase }, ?_, sound', ?_⟩
  · rw [← moves.evbase] at told
    simp [EventBase.enqueue, inserted, told]
  · rcases waits with ⟨rfl, -⟩ | ⟨rfl, -⟩ <;> exact becomes.evbase evbase

theorem Sound.scheduleIf {base : EventBase β} (sound : base.Sound k) {id : EvId}
    (tv : Option Timeval) (now : Timeval) (known : (base.event id).init = true) :
    ∃ base', base.scheduleIf id tv now = some base' ∧ base'.Sound k ∧ ∃ timeouts,
      base.Becomes base' id ((base.event id).scheduledIf (tv.map now.add)) timeouts
          (if tv.isSome && (base.event id).ev_res.timeout then base.withoutActive id
            else base.activequeues) ∧
        timeouts.Perm (if tv.isSome then id :: base.timetree.toList.erase id
          else base.timetree.toList) := by
  cases tv with
  | none =>
    exact ⟨base, rfl, sound, _, ⟨(Function.update_eq_self id base.event).symm, rfl, rfl, rfl, rfl, rfl⟩,
      List.Perm.refl _⟩
  | some tv =>
    obtain ⟨base₁, scheduled, sound₁, -, timeouts, becomes, perm⟩ := sound.schedule tv now known
    exact ⟨base₁, scheduled, sound₁, timeouts, becomes, perm⟩

/-- The kernel side has room for an event that is added, if it does not wait already. -/
def Fits (k : Kernel β) (base : EventBase β) (id : EvId) : Prop :=
  (base.event id).waiting = none →
    ((base.event id).ev_events.io || (base.event id).ev_events.signal) = true →
    k.room (fun x => (base.event x).waiting) (base.event id).ev_fd (base.event id).ev_events

theorem waiting_scheduledIf (ev : Event) (timeout : Option Timeval) :
    (ev.scheduledIf timeout).waiting = ev.waiting := by
  cases timeout <;> rfl

/-- `event_add` of an event that was set. -/
theorem Sound.add {base : EventBase β}
    (sound : base.Sound k) {id : EvId} (tv : Option Timeval) (now : Timeval)
    (known : (base.event id).init = true) (fits : base.Fits k id) :
    ∃ ret base', eventAdd k.evsel base id tv now = some (ret, base') ∧ base'.Sound k ∧ ∃ timeouts,
      base.Becomes base' id ((base.event id).added (tv.map now.add)) timeouts
          (if tv.isSome && (base.event id).ev_res.timeout then base.withoutActive id
            else base.activequeues) ∧
        timeouts.Perm (if tv.isSome then id :: base.timetree.toList.erase id
          else base.timetree.toList) := by
  obtain ⟨base₁, timed, sound₁, timeouts, becomes, perm⟩ := sound.scheduleIf tv now known
  have known₁ : (base₁.event id).init = true := by
    rw [becomes.self]
    cases tv <;> exact known
  have events : (base₁.event id).ev_events = (base.event id).ev_events ∧
      (base₁.event id).ev_fd = (base.event id).ev_fd := by
    rw [becomes.self]
    cases tv <;> exact ⟨rfl, rfl⟩
  have waiting : (fun x => (base₁.event x).waiting) = fun x => (base.event x).waiting := by
    funext x
    by_cases self : x = id
    · rw [self, becomes.self, waiting_scheduledIf]
    · rw [becomes.other self]
  have room : (base₁.event id).waiting = none →
      ((base₁.event id).ev_events.io || (base₁.event id).ev_events.signal) = true →
      k.room (fun x => (base₁.event x).waiting) (base₁.event id).ev_fd (base₁.event id).ev_events := by
    rw [waiting, events.1, events.2, congrFun waiting id]
    exact fits
  simp only [eventAdd, Option.bind_eq_bind, timed, Option.bind_some]
  split
  case isTrue waits =>
    simp only [Bool.and_eq_true, Bool.not_eq_true', Bool.or_eq_false_iff] at waits
    have free : (base₁.event id).waiting = none := by
      have apart := sound₁.apart id
      rw [waits.1, Bool.true_and] at apart
      have off : (base₁.event id).flags .signal = false := by
        by_contra on
        rw [sound₁.signal id (by simpa using on)] at apart
        cases apart
      rw [Event.waiting, waits.2.1, off]
      rfl
    obtain ⟨ret, base', told, sound', becomes'⟩ := sound₁.enqueue free known₁ (.inl ⟨rfl, waits.1⟩)
      (room free (by simp [waits.1]))
    refine ⟨ret, base', told, sound', timeouts, ?_, perm⟩
    have whole := becomes.trans becomes'
    rw [becomes.self] at whole waits
    rw [Event.added, Event.awaited, if_pos (by simp [waits])]
    exact ⟨whole.event, whole.timeouts.trans becomes.timeouts, whole.actives.trans becomes.actives,
      whole.gotterm, whole.counter⟩
  case isFalse out =>
    have notIo := out
    rw [becomes.self] at notIo
    split
    case isTrue waits =>
      simp only [Bool.and_eq_true, Bool.not_eq_true'] at waits
      have free : (base₁.event id).waiting = none := by
        have apart := sound₁.apart id
        rw [waits.1, Bool.and_true] at apart
        have off : (base₁.event id).flags .inserted = false := by
          by_contra on
          rw [sound₁.inserted id (by simpa using on)] at apart
          cases apart
        rw [Event.waiting, waits.2, off]
        rfl
      obtain ⟨ret, base', told, sound', becomes'⟩ := sound₁.enqueue free known₁ (.inr ⟨rfl, waits.1⟩)
        (room free (by simp [waits.1]))
      refine ⟨ret, base', told, sound', timeouts, ?_, perm⟩
      have whole := becomes.trans becomes'
      rw [becomes.self] at whole waits
      rw [Event.added, Event.awaited, if_neg notIo, if_pos (by simp [waits])]
      exact ⟨whole.event, whole.timeouts.trans becomes.timeouts,
        whole.actives.trans becomes.actives, whole.gotterm, whole.counter⟩
    case isFalse none' =>
      refine ⟨0, base₁, rfl, sound₁, timeouts, ?_, perm⟩
      rw [becomes.self] at none'
      rw [Event.added, Event.awaited, if_neg notIo, if_neg none']
      exact becomes

/-- `event_priority_set` of an event that was set. -/
theorem Sound.prioritySet {base : EventBase β} (sound : base.Sound k) (id : EvId) (pri : Int) :
    (base.eventPrioritySet id pri).2.Sound k := by
  unfold eventPrioritySet
  split
  case isTrue => exact sound
  case isFalse idle =>
    split
    case isTrue => exact sound
    case isFalse range =>
      refine sound.modify (f := fun ev => { ev with ev_pri := pri.toNat }) rfl rfl rfl rfl rfl
        (fun _ => rfl) (fun on => absurd on idle) (fun _ => ?_) (sound.calls id) (sound.counter id)
      simp only
      omega

/-- `event_base_set` -/
theorem Sound.baseSet {base : EventBase β} (sound : base.Sound k) (id : EvId) :
    (base.eventBaseSet id).2.Sound k := by
  unfold eventBaseSet
  simp only
  split
  case isTrue => exact sound
  case isFalse idle =>
    simp only [Bool.or_eq_true, Bool.not_eq_true', not_or, Bool.not_eq_true] at idle
    refine sound.modify (f := fun ev => { ev with ev_pri := base.activequeues.length / 2 }) rfl rfl
      rfl rfl rfl (fun _ => rfl) (fun on => ?_) (fun _ => ?_) (sound.calls id) (sound.counter id)
    · rw [idle.1.1.2] at on
      cases on
    · exact Nat.div_lt_self sound.priorities Nat.one_lt_two

/-- `event_base_priority_init` while nothing is active. -/
theorem Sound.priorityInit {base : EventBase β} (sound : base.Sound k) {npriorities : Nat}
    (idle : ∀ id, (base.event id).flags .active = false) (some' : 0 < npriorities)
    (room : ∀ id, (base.event id).init = true → (base.event id).ev_pri < npriorities) :
    (base.eventBasePriorityInit npriorities).2.Sound k := by
  have queues := sound.queues
  have none' : base.members .active = [] := by
    refine List.eq_nil_iff_forall_not_mem.mpr fun id member => ?_
    have active := (queues.listed .active id).mp member
    rw [idle id] at active
    cases active
  have zero : base.tally .active = 0 := by
    rw [tally, none']
    rfl
  have empty : (List.replicate npriorities ([] : List EvId)).flatten = [] := by
    simp
  have zero' : ({ base with activequeues := List.replicate npriorities [] } : EventBase β).tally .active = 0 := by
    simp only [tally, members, empty]
    rfl
  have listed : ∀ queue, ({ base with activequeues := List.replicate npriorities [] } : EventBase β).members queue
      = base.members queue := by
    intro queue
    cases queue with
    | active => exact empty.trans none'.symm
    | _ => rfl
  unfold eventBasePriorityInit
  rw [if_neg (by simpa [zero] using queues.active)]
  refine ⟨⟨?_, ?_, ?_, queues.known, ?_, queues.balanced, queues.sorted, ?_, ?_⟩, sound.kernel, sound.calls,
    sound.counter, sound.apart, sound.inserted, sound.signal, by simpa using some'⟩
  · intro queue id
    rw [listed]
    exact queues.listed queue id
  · intro queue
    rw [listed]
    exact queues.once queue
  · intro pri l there id member
    obtain rfl : l = [] := (List.mem_replicate.mp (List.mem_of_getElem? there)).2
    cases member
  · intro id known
    simpa using room id known
  · rw [zero', ← zero]
    exact queues.total
  · rw [zero', ← zero]
    exact queues.active

/-- `evsignal_init` with an event that is on no queue. -/
theorem Sound.signalInit {base : EventBase β} (sound : base.Sound k) {id : EvId} (fd : Int)
    (free : ∀ queue, (base.event id).flags queue = false) :
    (base.evsignalInit id fd).Sound k := by
  have set : (base.eventSet id fd .ofRead).Sound k := sound.set fd free rfl
  refine set.renew ?_ ?_ (set.apart id) ?_ ?_
  · intro queue
    simp [eventSet]
  · intro queue
    simp [eventSet]
  · simpa [eventSet] using Nat.div_lt_self sound.priorities Nat.one_lt_two
  · simp [eventSet]

end EventBase

end GreatEvent.Evsys
