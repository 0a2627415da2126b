import GreatEvent.Net.EventCalls

/-!
# `event.c`: the timeouts

The loop waits no longer than until the first timeout, `timeout_process` makes
the events that are due active, in the order in which they became due, and
`timeout_correct` moves all timeouts alike when the clock was set back.
-/

namespace GreatEvent.Evsys

namespace Event

/-- The event once its timeout has run out. -/
def expired (ev : Event) : Event := ev.deleted.activated .ofTimeout 1

@[simp] theorem expired_pri (ev : Event) : ev.expired.ev_pri = ev.ev_pri := rfl

@[simp] theorem expired_res (ev : Event) : ev.expired.ev_res = .ofTimeout := rfl

theorem expired_flags (ev : Event) (queue : EvList) :
    ev.expired.flags queue = decide (queue = .active) := by
  cases queue <;> rfl

end Event

namespace EventBase

variable {β : Type} {k : Kernel β}

/-- A place in the queue is given up for one at its end. -/
def requeue (l : List EvId) (id : EvId) : List EvId := l.erase id ++ [id]

/-- Those of `ids` that were in the queue leave their places, and all come to its end. -/
theorem foldl_requeue {l ids : List EvId} (once : l.Nodup) (idsOnce : ids.Nodup) :
    ids.foldl requeue l = l.filter (fun x => x ∉ ids) ++ ids := by
  induction ids generalizing l with
  | nil => simp
  | cons id ids ih =>
    obtain ⟨fresh, rest⟩ := List.nodup_cons.mp idsOnce
    have gone : id ∉ l.erase id := once.not_mem_erase
    have next : (requeue l id).Nodup := by
      rw [requeue, List.nodup_append]
      refine ⟨once.erase id, List.nodup_singleton id, fun x member y single => ?_⟩
      rw [List.mem_singleton] at single
      subst single
      rintro rfl
      exact gone member
    have left : (l.erase id).filter (fun x => x ∉ ids) = l.filter fun x => x ∉ id :: ids := by
      rw [once.erase_eq_filter, List.filter_filter]
      refine List.filter_congr fun x _ => ?_
      by_cases same : x = id <;> simp [same]
    rw [List.foldl_cons, ih next rest, requeue, List.filter_append, left]
    simp [fresh]

/-- One event in the loop of `timeout_process`. -/
theorem Sound.expire {base : EventBase β}
    (sound : base.Sound k) {id : EvId} (waits : (base.event id).flags .timeout = true) :
    ∃ base', expire k.evsel base id = some base' ∧ base'.Sound k ∧
      base.Becomes base' id (base.event id).expired (base.timetree.toList.erase id)
        (base.activequeues.modify (base.event id).ev_pri fun l => requeue l id) := by
  have known := sound.queues.known .timeout id waits
  obtain ⟨base₁, removed, moves⟩ := eventQueueRemove_moves sound.queues waits
  have sound₁ := moves.sound_idle sound waits known (.inl rfl)
  have becomes₁ := moves.becomes
  have known₁ : (base₁.event id).init = true := by
    rw [becomes₁.self]
    exact known
  obtain ⟨ret, base₂, deleted, sound₂, becomes₂⟩ := sound₁.del known₁
  have known₂ : (base₂.event id).init = true := by
    rw [becomes₂.self]
    exact known₁
  obtain ⟨base₃, activated, sound₃, -, becomes₃⟩ := sound₂.active .ofTimeout known₂ (le_refl 1)
  have whole := (becomes₁.trans becomes₂).trans becomes₃
  have idle : (base₂.event id).flags .active = false := by
    rw [becomes₂.self]
    rfl
  refine ⟨base₃, ?_, sound₃, ?_⟩
  · simp [EventBase.expire, removed, deleted, activated]
  · have once : (base₁.timetree.toList.erase id) = base.timetree.toList.erase id := by
      rw [becomes₁.timeouts, if_pos rfl, if_neg Bool.false_ne_true]
      exact List.erase_of_not_mem (sound.queues.once .timeout).not_mem_erase
    refine ⟨?_, ?_, ?_, whole.gotterm, whole.counter⟩
    · rw [whole.event, becomes₂.self, becomes₁.self]
      rfl
    · rw [whole.timeouts, becomes₂.timeouts, once]
    · rw [whole.actives, withActive, if_neg (by simp [idle]), becomes₂.actives, withoutActive,
        becomes₂.self, becomes₁.actives, becomes₁.self]
      exact List.modify_modify_eq _ _ _ _

theorem takeWhile_congr {l : List EvId} {p q : EvId → Bool} (same : ∀ x ∈ l, p x = q x) :
    l.takeWhile p = l.takeWhile q := by
  induction l with
  | nil => rfl
  | cons x l ih =>
    simp only [List.takeWhile_cons, same x List.mem_cons_self]
    rw [ih fun y member => same y (List.mem_cons_of_mem x member)]

/-- The events whose timeout is reached at `now`, in the order of the tree. -/
def due (base : EventBase β) (now : Timeval) : List EvId :=
  base.timetree.toList.takeWhile fun id => !now.lt (base.event id).ev_timeout

/-- What `timeout_process` makes of a base. -/
structure Expires (base base' : EventBase β) (ids : List EvId) : Prop where
  expired : ∀ id ∈ ids, base'.event id = (base.event id).expired
  others : ∀ id, id ∉ ids → base'.event id = base.event id
  timeouts : base.timetree.toList = ids ++ base'.timetree.toList
  actives : base'.activequeues = ids.foldl
    (fun queues id => queues.modify (base.event id).ev_pri fun l => requeue l id) base.activequeues
  gotterm : base'.event_gotterm = base.event_gotterm
  counter : base'.ncalls = base.ncalls ∧ base'.runs = base.runs

theorem Expires.refl (base : EventBase β) : base.Expires base [] :=
  ⟨fun _ member => absurd member List.not_mem_nil, fun _ _ => rfl, rfl, rfl, rfl, rfl, rfl⟩

/-- The loop of `timeout_process` takes the events that are due from the front of the tree. -/
theorem timeoutLoop_expires (now : Timeval)
    {fuel : Nat} {base : EventBase β} (sound : base.Sound k)
    (enough : base.timetree.toList.length ≤ fuel) :
    ∃ base', timeoutLoop k.evsel now fuel base base.timetree.min = some base' ∧ base'.Sound k ∧
      base.Expires base' (base.due now) := by
  rw [RBTree.min_eq_head]
  induction fuel generalizing base with
  | zero =>
    have empty : base.timetree.toList = [] := List.length_eq_zero_iff.mp (Nat.le_zero.mp enough)
    refine ⟨base, by simp [empty, timeoutLoop], sound, ?_⟩
    rw [due, empty]
    exact .refl base
  | succ fuel ih =>
    cases order : base.timetree.toList with
    | nil =>
      refine ⟨base, rfl, sound, ?_⟩
      rw [due, order]
      exact .refl base
    | cons id rest =>
      simp only [List.head?_cons, timeoutLoop]
      split
      case isTrue later =>
        refine ⟨base, rfl, sound, ?_⟩
        have none' : base.due now = [] := by
          rw [due, order, List.takeWhile_cons_of_neg (by simp [later])]
        rw [none']
        exact .refl base
      case isFalse reached =>
        have waits : (base.event id).flags .timeout = true :=
          (sound.queues.listed .timeout id).mp (by simp [members, order])
        have once := sound.queues.once .timeout
        have next : base.timetree.next id = rest.head? :=
          RBTree.next_eq_head once (by rw [order]; exact (List.nil_append _).symm)
        obtain ⟨base₁, expired, sound₁, becomes⟩ := sound.expire waits
        have left : base₁.timetree.toList = rest := by
          rw [becomes.timeouts, order, List.erase_cons_head]
        obtain ⟨base', ran, sound', expires⟩ := ih sound₁ (by
          rw [left]
          rw [order] at enough
          exact Nat.le_of_succ_le_succ enough)
        simp only [members, order, List.nodup_cons] at once
        have same : base₁.due now = rest.takeWhile fun x => !now.lt (base.event x).ev_timeout := by
          rw [due, left]
          refine takeWhile_congr fun x member => ?_
          rw [becomes.other fun self => once.1 (self ▸ member)]
        have all : base.due now = id :: base₁.due now := by
          rw [same, due, order, List.takeWhile_cons_of_pos (by simpa using reached)]
        rw [next, ← left]
        have fresh : id ∉ base₁.due now := fun member => by
          rw [same] at member
          exact once.1 ((List.takeWhile_sublist _).subset member)
        refine ⟨base', by simp [expired, ran], sound', ?_⟩
        rw [all]
        refine ⟨?_, ?_, ?_, ?_, expires.gotterm.trans becomes.gotterm,
          expires.counter.1.trans becomes.counter.1, expires.counter.2.trans becomes.counter.2⟩
        · intro x member
          rcases List.mem_cons.mp member with rfl | member
          · rw [expires.others _ fresh, becomes.self]
          · have other : x ≠ id := fun self => fresh (self ▸ member)
            rw [expires.expired x member, becomes.other other]
        · intro x absent
          rw [List.mem_cons, not_or] at absent
          rw [expires.others x absent.2, becomes.other absent.1]
        · rw [order, ← left, expires.timeouts]
          rfl
        · have pris : ∀ x ∈ base₁.due now, (base₁.event x).ev_pri = (base.event x).ev_pri :=
            fun x member => by rw [becomes.other fun self => fresh (self ▸ member)]
          rw [expires.actives, becomes.actives, List.foldl_cons]
          exact List.foldl_ext _ _ _ fun queues x member => by rw [pris x member]

theorem Expires.length {base base' : EventBase β} {ids : List EvId}
    (expires : base.Expires base' ids) :
    base'.activequeues.length = base.activequeues.length := by
  rw [expires.actives]
  have step : ∀ (ids : List EvId) (L : List (List EvId)), (ids.foldl (fun queues id =>
      queues.modify (base.event id).ev_pri fun l => requeue l id) L).length = L.length := by
    intro ids
    induction ids with
    | nil => exact fun _ => rfl
    | cons id ids ih => exact fun L => (ih _).trans (List.length_modify _ _ _)
  exact step ids _

/-- In a list in which what satisfies `p` comes first. -/
theorem takeWhile_eq_filter {l : List EvId} {p : EvId → Bool}
    (front : l.Pairwise fun x y => p y = true → p x = true) : l.takeWhile p = l.filter p := by
  induction l with
  | nil => rfl
  | cons x l ih =>
    obtain ⟨first, rest⟩ := List.pairwise_cons.mp front
    by_cases holds : p x = true
    · simp [holds, ih rest]
    · have none' : l.filter p = [] :=
        List.filter_eq_nil_iff.mpr fun y member later => holds (first y member later)
      simp [holds, none']

/-- Due are the pending events whose time has come, in the order of their times. -/
theorem mem_due {base : EventBase β} (queues : base.Queues) (now : Timeval) (id : EvId) :
    id ∈ base.due now ↔ (base.event id).flags .timeout = true ∧
      (base.event id).ev_timeout.micros ≤ now.micros := by
  have front : base.timetree.toList.Pairwise fun x y =>
      (!now.lt (base.event y).ev_timeout) = true → (!now.lt (base.event x).ev_timeout) = true := by
    refine List.Pairwise.imp (fun {x y} first reached => ?_) queues.sorted
    have order := micros_le_of_compareEvents first
    simp only [Bool.not_eq_true', ← Bool.not_eq_true, Timeval.lt_iff] at reached ⊢
    omega
  rw [due, takeWhile_eq_filter front, List.mem_filter, ← queues.listed .timeout id]
  refine and_congr_right fun _ => ?_
  simp only [Bool.not_eq_true', ← Bool.not_eq_true, Timeval.lt_iff]
  omega

theorem due_sorted {base : EventBase β} (queues : base.Queues) (now : Timeval) :
    (base.due now).Pairwise fun x y =>
      (base.event x).ev_timeout.micros ≤ (base.event y).ev_timeout.micros :=
  List.Pairwise.sublist (List.takeWhile_sublist _)
    (List.Pairwise.imp micros_le_of_compareEvents queues.sorted)

/-- Changes to several queues seen from one of them. -/
theorem getElem?_foldl_modify (pri : EvId → Nat) (ids : List EvId) (L : List (List EvId)) (p : Nat) :
    (ids.foldl (fun queues id => queues.modify (pri id) fun l => requeue l id) L)[p]?
      = L[p]?.map (List.foldl requeue · (ids.filter fun id => pri id = p)) := by
  induction ids generalizing L with
  | nil => cases there : L[p]? <;> simp [there]
  | cons id ids ih =>
    rw [List.foldl_cons, ih, List.getElem?_modify]
    cases L[p]? with
    | none => rfl
    | some l => by_cases mine : pri id = p <;> simp [mine]

/-- The events whose time has come become active and the others are left alone; in each active queue
they follow what was there in the order of their times. -/
theorem timeoutProcess_fires {base : EventBase β}
    (sound : base.Sound k) (now : Timeval) :
    ∃ (base' : EventBase β) (ids : List EvId), timeoutProcess k.evsel base now = some base' ∧ base'.Sound k ∧
      ids.Nodup ∧ (∀ id, id ∈ ids ↔ (base.event id).flags .timeout = true ∧
        (base.event id).ev_timeout.micros ≤ now.micros) ∧
      (ids.Pairwise fun x y => (base.event x).ev_timeout.micros ≤ (base.event y).ev_timeout.micros) ∧
      (∀ id, base'.event id = if id ∈ ids then (base.event id).expired else base.event id) ∧
      ∀ (pri : Nat) (l : List EvId), base.activequeues[pri]? = some l → base'.activequeues[pri]?
        = some (l.filter (fun id => id ∉ ids) ++ ids.filter fun id => (base.event id).ev_pri = pri) := by
  obtain ⟨base', ran, sound', expires⟩ := timeoutLoop_expires now sound (le_refl _)
  have dueOnce : (base.due now).Nodup :=
    (sound.queues.once .timeout).sublist (List.takeWhile_sublist _)
  refine ⟨base', base.due now, ran, sound', dueOnce, mem_due sound.queues now, due_sorted sound.queues now,
    ?_, ?_⟩
  · intro id
    split
    case isTrue member => exact expires.expired id member
    case isFalse absent => exact expires.others id absent
  · intro pri l there
    have once : l.Nodup :=
      (List.nodup_flatten.mp (sound.queues.once .active)).1 l (List.mem_of_getElem? there)
    have same : l.filter (fun id => id ∉ (base.due now).filter fun id => (base.event id).ev_pri = pri)
        = l.filter fun id => id ∉ base.due now := by
      refine List.filter_congr fun id member => ?_
      simp [sound.queues.own pri l there id member]
    rw [expires.actives, getElem?_foldl_modify fun id => (base.event id).ev_pri, there, Option.map_some,
      foldl_requeue once (dueOnce.filter _), same]

/-! ## A clock that is set back -/

/-- `RB_FOREACH` goes through the tree in its order. -/
theorem foreach_eq_toList {tree : RBTree EvId} (once : tree.toList.Nodup) :
    foreach tree tree.toList.length tree.min = tree.toList := by
  have from' : ∀ rest less, tree.toList = less ++ rest →
      foreach tree rest.length rest.head? = rest := by
    intro rest
    induction rest with
    | nil => intro less _; rfl
    | cons x rest ih =>
      intro less order
      have next := RBTree.next_eq_head once order
      rw [List.head?_cons, List.length_cons, foreach, next, ih (less ++ [x]) (by simp [order])]
  rw [RBTree.min_eq_head]
  exact from' tree.toList [] rfl

/-- Only timeouts differ. -/
theorem Sound.retime {base : EventBase β} (sound : base.Sound k) {event' : EvId → Event}
    (same : ∀ id, event' id = { base.event id with ev_timeout := (event' id).ev_timeout })
    (sorted : base.timetree.Sorted (compareEvents event')) :
    ({ base with event := event' } : EventBase β).Sound k := by
  have flags : ∀ id, (event' id).flags = (base.event id).flags := fun id => by rw [same]
  have pri : ∀ id, (event' id).ev_pri = (base.event id).ev_pri := fun id => by rw [same]
  have init : ∀ id, (event' id).init = (base.event id).init := fun id => by rw [same]
  have events : ∀ id, (event' id).ev_events = (base.event id).ev_events := fun id => by rw [same]
  have tally : ∀ queue, EventBase.tally { base with event := event' } queue = base.tally queue := by
    intro queue
    have internal : (fun id => !(event' id).internal) = fun id => !(base.event id).internal := by
      funext id
      rw [same]
    cases queue <;> simp only [EventBase.tally, internal] <;> rfl
  have fd : ∀ id, (event' id).ev_fd = (base.event id).ev_fd := fun id => by rw [same]
  have waiting : (fun id => (event' id).waiting) = fun id => (base.event id).waiting := by
    funext id
    rw [Event.waiting, flags, events, fd]
    rfl
  refine ⟨⟨?_, sound.queues.once, ?_, ?_, ?_, sound.queues.balanced, sorted, ?_, ?_⟩,
    by simp only [waiting]; exact sound.kernel, ?_, ?_, ?_, ?_, ?_, sound.priorities⟩
  · intro queue id
    simp only [flags]
    exact sound.queues.listed queue id
  · intro p l there id member
    simp only [pri]
    exact sound.queues.own p l there id member
  · intro queue id
    simp only [flags, init]
    exact sound.queues.known queue id
  · intro id
    simp only [pri, init]
    exact sound.queues.room id
  · simp only [tally]
    exact sound.queues.total
  · simp only [tally]
    exact sound.queues.active
  · intro id
    simp only
    rw [same]
    exact sound.calls id
  · intro id
    simp only
    rw [same]
    exact sound.counter id
  · intro id
    simp only [events]
    exact sound.apart id
  · intro id
    simp only [flags, events]
    exact sound.inserted id
  · intro id
    simp only [flags, events]
    exact sound.signal id

/-- The events after their timeouts were moved. -/
theorem event_foldl_modify (base : EventBase β) {ids : List EvId} (once : ids.Nodup)
    (f : Event → Event) :
    ids.foldl (fun base id => base.modify id f) base
      = { base with event := fun id => if id ∈ ids then f (base.event id) else base.event id } := by
  induction ids generalizing base with
  | nil => simp
  | cons x ids ih =>
    obtain ⟨fresh, rest⟩ := List.nodup_cons.mp once
    rw [List.foldl_cons, ih _ rest]
    have same : (fun id => if id ∈ ids then f ((base.modify x f).event id)
          else (base.modify x f).event id)
        = fun id => if id ∈ x :: ids then f (base.event id) else base.event id := by
      funext id
      rw [event_modify]
      by_cases self : id = x
      · subst self
        simp [fresh]
      · simp [self]
    rw [same]
    rfl

/-- **When the clock goes back all timeouts go back with it**, in their order. -/
theorem timeoutCorrect_moves {base : EventBase β} (sound : base.Sound k) (off : Timeval) :
    (base.timeoutCorrect off).Sound k ∧ (base.timeoutCorrect off).timetree = base.timetree ∧
      (base.timeoutCorrect off).activequeues = base.activequeues ∧
      (base.timeoutCorrect off).ncalls = base.ncalls ∧
      ∀ id, (base.timeoutCorrect off).event id
        = if (base.event id).flags .timeout then
            { base.event id with ev_timeout := (base.event id).ev_timeout.sub off }
          else base.event id := by
  have once : base.timetree.toList.Nodup := sound.queues.once .timeout
  have whole := event_foldl_modify base once fun ev => { ev with ev_timeout := ev.ev_timeout.sub off }
  unfold timeoutCorrect
  rw [foreach_eq_toList once, whole]
  refine ⟨sound.retime ?_ ?_, rfl, rfl, rfl, ?_⟩
  · intro id
    by_cases member : id ∈ base.timetree.toList <;> simp [member]
  · refine List.Pairwise.imp_of_mem (fun {a b} memA memB first => ?_) sound.queues.sorted
    rw [compareEvents_eq, Ordering.then_eq_lt] at first ⊢
    simp only [if_pos memA, if_pos memB, Timeval.micros_sub]
    rcases first with less | ⟨equal, order⟩
    · rw [Int.compare_eq_lt] at less ⊢
      exact .inl (by omega)
    · rw [Int.compare_eq_eq] at equal ⊢
      exact .inr ⟨by omega, order⟩
  · intro id
    have listed := sound.queues.listed .timeout id
    simp only [members] at listed
    simp only [listed]

/-- What `timeout_next` waits for. -/
theorem timeoutNext_le {base : EventBase β} (sound : base.Sound k) (now : Timeval) :
    (∀ id, (base.event id).flags .timeout = true → (base.timeoutNext now).micros ≤
        max 0 ((base.event id).ev_timeout.micros - now.micros)) ∧
      ((∃ id, (base.event id).flags .timeout = true) →
        ∃ id, (base.event id).flags .timeout = true ∧
          (base.timeoutNext now).micros = max 0 ((base.event id).ev_timeout.micros - now.micros)) ∧
      ((∀ id, (base.event id).flags .timeout = false) → (base.timeoutNext now).micros = 5000000) := by
  have listed := sound.queues.listed .timeout
  simp only [members] at listed
  have sorted := sound.queues.sorted
  unfold timeoutNext
  rw [RBTree.min_eq_head]
  cases order : base.timetree.toList with
  | nil =>
    have none' : ∀ id, (base.event id).flags .timeout = false := by
      intro id
      have absent := (listed id).not
      simpa [order] using absent
    refine ⟨?_, ?_, fun _ => rfl⟩
    · intro id waits
      rw [none'] at waits
      cases waits
    · rintro ⟨id, waits⟩
      rw [none'] at waits
      cases waits
  | cons first rest =>
    have waits : (base.event first).flags .timeout = true := (listed first).mp (by simp [order])
    have wait : (if (base.event first).ev_timeout.le now = true then Timeval.clear
        else (base.event first).ev_timeout.sub now).micros
          = max 0 ((base.event first).ev_timeout.micros - now.micros) := by
      split
      case isTrue reached =>
        rw [Timeval.le_iff] at reached
        rw [Timeval.micros_clear]
        omega
      case isFalse later =>
        rw [Timeval.le_iff] at later
        rw [Timeval.micros_sub]
        omega
    simp only [List.head?_cons, wait]
    refine ⟨fun id flagged => ?_, fun _ => ⟨first, waits, rfl⟩, fun none' => ?_⟩
    · have member := (listed id).mpr flagged
      rw [RBTree.Sorted, order, List.pairwise_cons] at sorted
      rw [order, List.mem_cons] at member
      rcases member with rfl | member
      · exact le_refl _
      · have later := micros_le_of_compareEvents (sorted.1 id member)
        omega
    · rw [none'] at waits
      cases waits

end EventBase

end GreatEvent.Evsys
