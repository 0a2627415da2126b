import GreatEvent.Net.EventBase
import Mathlib.Tactic.Ring

/-!
# `event.c`: flags and queues agree

The flags of an event say which queues hold it, each queue holds it once, and
the counters of the base count what is on the queues. Every function of
`event.c` keeps this, and so `event_errx` is not reached.
-/

namespace GreatEvent.Evsys

/-! ## The order of the timeouts -/

theorem compareEvents_eq (event : EvId → Event) (a b : EvId) :
    compareEvents event a b
      = (compare (event a).ev_timeout.micros (event b).ev_timeout.micros).then (compare a b) := by
  unfold compareEvents
  by_cases less : (event a).ev_timeout.lt (event b).ev_timeout = true
  · rw [if_pos less]
    rw [Timeval.lt_iff] at less
    rw [Int.compare_eq_lt.mpr less]
    rfl
  · rw [if_neg less]
    rw [Timeval.lt_iff] at less
    by_cases more : (event b).ev_timeout.lt (event a).ev_timeout = true
    · rw [if_pos more]
      rw [Timeval.lt_iff] at more
      rw [Int.compare_eq_gt.mpr more]
      rfl
    · rw [if_neg more]
      rw [Timeval.lt_iff] at more
      rw [Int.compare_eq_eq.mpr (by omega)]
      rfl

instance (event : EvId → Event) : Std.TransCmp (compareEvents event) := by
  have same : compareEvents event
      = compareLex (compareOn fun a => (event a).ev_timeout.micros) (compareOn fun a => a) := by
    funext a b
    exact compareEvents_eq event a b
  rw [same]
  infer_instance

/-- Only an event itself compares equal to it. -/
theorem eq_of_compareEvents {event : EvId → Event} {a b : EvId}
    (equal : compareEvents event a b = .eq) : a = b := by
  rw [compareEvents_eq, Ordering.then_eq_eq] at equal
  exact Nat.compare_eq_eq.mp equal.2

/-- An event that comes first does not run out later. -/
theorem micros_le_of_compareEvents {event : EvId → Event} {a b : EvId}
    (first : compareEvents event a b = .lt) :
    (event a).ev_timeout.micros ≤ (event b).ev_timeout.micros := by
  rw [compareEvents_eq, Ordering.then_eq_lt] at first
  rcases first with less | ⟨equal, -⟩
  · exact (Int.compare_eq_lt.mp less).le
  · exact (Int.compare_eq_eq.mp equal).le

namespace EventBase

variable {β : Type}

/-- The events on a queue, those of all priorities for the active ones. -/
def members (base : EventBase β) : EvList → List EvId
  | .timeout => base.timetree.toList
  | .inserted => base.eventqueue
  | .signal => base.signalqueue
  | .active => base.activequeues.flatten

/-- How many counted events are on a queue. -/
def tally (base : EventBase β) (queue : EvList) : Int :=
  ((base.members queue).countP fun id => !(base.event id).internal : Nat)

/-- The flags and the queues agree. -/
structure Queues (base : EventBase β) : Prop where
  listed : ∀ queue id, id ∈ base.members queue ↔ (base.event id).flags queue = true
  once : ∀ queue, (base.members queue).Nodup
  own : ∀ pri l, base.activequeues[pri]? = some l → ∀ id ∈ l, (base.event id).ev_pri = pri
  known : ∀ queue id, (base.event id).flags queue = true → (base.event id).init = true
  room : ∀ id, (base.event id).init = true → (base.event id).ev_pri < base.activequeues.length
  balanced : base.timetree.RedBlack
  sorted : base.timetree.Sorted (compareEvents base.event)
  total : base.event_count
    = base.tally .timeout + base.tally .inserted + base.tally .signal + base.tally .active
  active : base.event_count_active = base.tally .active

/-- What `event_queue_insert` and `event_queue_remove` do to a base: the event goes on the queue, or
off it. -/
structure Moves (base base' : EventBase β) (id : EvId) (queue : EvList) (on : Bool) : Prop where
  event : base'.event = (base.flag id queue on).event
  longer : on = true → (base'.members queue).Perm (id :: base.members queue)
  shorter : on = false → (base.members queue).Perm (id :: base'.members queue)
  rest : ∀ other, other ≠ queue → base'.members other = base.members other
  order : queue = .timeout → base'.timetree.toList
    = if on then RBTree.putInto (compareEvents base.event) id base.timetree.toList
      else base.timetree.toList.erase id
  actives : base'.activequeues
    = if queue = .active then
        base.activequeues.modify (base.event id).ev_pri fun l => if on then l ++ [id] else l.erase id
      else base.activequeues
  own : ∀ pri l', base'.activequeues[pri]? = some l' → ∀ x ∈ l',
    (∃ l, base.activequeues[pri]? = some l ∧ x ∈ l) ∨ x = id ∧ (base.event id).ev_pri = pri
  priorities : base'.activequeues.length = base.activequeues.length
  balanced : base'.timetree.RedBlack
  sorted : base'.timetree.Sorted (compareEvents base.event)
  total : base'.event_count = (base.count id queue (if on then 1 else -1)).event_count
  active : base'.event_count_active = (base.count id queue (if on then 1 else -1)).event_count_active
  evbase : base'.evbase = base.evbase
  gotterm : base'.event_gotterm = base.event_gotterm
  counter : base'.ncalls = base.ncalls ∧ base'.runs = base.runs

/-! ## What a write to one event leaves alone -/

section Modify

variable (base : EventBase β) (id : EvId) (f : Event → Event)

theorem event_modify (x : EvId) :
    (base.modify id f).event x = if x = id then f (base.event id) else base.event x := by
  simp only [modify, Function.update_apply]

@[simp] theorem event_modify_self : (base.modify id f).event id = f (base.event id) := by
  rw [event_modify, if_pos rfl]

@[simp] theorem members_modify (queue : EvList) :
    (base.modify id f).members queue = base.members queue := by
  cases queue <;> rfl

@[simp] theorem activequeues_modify : (base.modify id f).activequeues = base.activequeues := rfl

@[simp] theorem eventqueue_modify : (base.modify id f).eventqueue = base.eventqueue := rfl

@[simp] theorem signalqueue_modify : (base.modify id f).signalqueue = base.signalqueue := rfl

@[simp] theorem timetree_modify : (base.modify id f).timetree = base.timetree := rfl

@[simp] theorem evbase_modify : (base.modify id f).evbase = base.evbase := rfl

@[simp] theorem gotterm_modify : (base.modify id f).event_gotterm = base.event_gotterm := rfl

@[simp] theorem ncalls_modify : (base.modify id f).ncalls = base.ncalls := rfl

@[simp] theorem runs_modify : (base.modify id f).runs = base.runs := rfl

end Modify

/-- The timeouts keep their order when the timeouts of the events in the tree do not change. -/
theorem sorted_congr {event event' : EvId → Event} {tree : RBTree EvId}
    (sorted : tree.Sorted (compareEvents event))
    (same : ∀ id ∈ tree.toList, (event' id).ev_timeout = (event id).ev_timeout) :
    tree.Sorted (compareEvents event') := by
  refine List.Pairwise.imp_of_mem ?_ sorted
  intro a b memA memB first
  rwa [compareEvents, same a memA, same b memB]

/-- **A write to fields the queues do not depend on**: the timeout of an event that is not in the
tree and the priority of one that is not active are such fields. -/
theorem Queues.modify {base : EventBase β} (queues : base.Queues) {id : EvId} {f : Event → Event}
    (flags : (f (base.event id)).flags = (base.event id).flags)
    (internal : (f (base.event id)).internal = (base.event id).internal)
    (init : (f (base.event id)).init = (base.event id).init)
    (timeout : (base.event id).flags .timeout = true →
      (f (base.event id)).ev_timeout = (base.event id).ev_timeout)
    (pri : (base.event id).flags .active = true → (f (base.event id)).ev_pri = (base.event id).ev_pri)
    (room : (base.event id).init = true → (f (base.event id)).ev_pri < base.activequeues.length) :
    (base.modify id f).Queues := by
  have keepFlags : ∀ x, ((base.modify id f).event x).flags = (base.event x).flags := by
    intro x
    rw [event_modify]
    split
    case isTrue same => rw [flags, same]
    case isFalse => rfl
  have keepInternal : ∀ x, ((base.modify id f).event x).internal = (base.event x).internal := by
    intro x
    rw [event_modify]
    split
    case isTrue same => rw [internal, same]
    case isFalse => rfl
  have keepInit : ∀ x, ((base.modify id f).event x).init = (base.event x).init := by
    intro x
    rw [event_modify]
    split
    case isTrue same => rw [init, same]
    case isFalse => rfl
  have keepTally : ∀ queue, (base.modify id f).tally queue = base.tally queue := by
    intro queue
    simp only [tally, members_modify, keepInternal]
  refine ⟨?_, ?_, ?_, ?_, ?_, queues.balanced, ?_, ?_, ?_⟩
  · intro queue x
    rw [members_modify, keepFlags]
    exact queues.listed queue x
  · intro queue
    rw [members_modify]
    exact queues.once queue
  · intro p l there x member
    have listed : (base.event x).flags .active = true :=
      (queues.listed .active x).mp (List.mem_flatten.mpr ⟨l, List.mem_of_getElem? there, member⟩)
    have mine := queues.own p l there x member
    rw [event_modify]
    split
    case isTrue same => subst same; rw [pri listed, mine]
    case isFalse => exact mine
  · intro queue x
    rw [keepFlags, keepInit]
    exact queues.known queue x
  · intro x known
    rw [keepInit] at known
    rw [event_modify]
    split
    case isTrue same => subst same; exact room known
    case isFalse => exact queues.room x known
  · refine sorted_congr queues.sorted fun x member => ?_
    rw [event_modify]
    split
    case isTrue same => subst same; exact timeout ((queues.listed .timeout x).mp member)
    case isFalse => rfl
  · simp only [keepTally]
    exact queues.total
  · simp only [keepTally]
    exact queues.active

/-! ## Going on a queue and off it -/

/-- Putting a list in the place of one of the active queues. -/
theorem perm_flatten_set {L : List (List EvId)} {p : Nat} {l : List EvId} (there : L[p]? = some l)
    (l' : List EvId) : (l ++ (L.set p l').flatten).Perm (l' ++ L.flatten) := by
  induction L generalizing p with
  | nil => cases there
  | cons m L ih =>
    cases p with
    | zero =>
      cases there
      simp only [List.set_cons_zero, List.flatten_cons]
      exact List.perm_append_comm_assoc _ _ _
    | succ p =>
      simp only [List.set_cons_succ, List.flatten_cons]
      calc
        (l ++ (m ++ (L.set p l').flatten)).Perm (m ++ (l ++ (L.set p l').flatten)) :=
          List.perm_append_comm_assoc _ _ _
        List.Perm _ (m ++ (l' ++ L.flatten)) := (ih there).append_left m
        List.Perm _ (l' ++ (m ++ L.flatten)) := List.perm_append_comm_assoc _ _ _

theorem perm_flatten_push {L : List (List EvId)} {p : Nat} {l : List EvId} (there : L[p]? = some l)
    (id : EvId) : (L.set p (l ++ [id])).flatten.Perm (id :: L.flatten) := by
  have moved := perm_flatten_set there (l ++ [id])
  rw [List.append_assoc] at moved
  exact (List.perm_append_left_iff l).mp moved

theorem perm_flatten_erase {L : List (List EvId)} {p : Nat} {l : List EvId} (there : L[p]? = some l)
    {id : EvId} (member : id ∈ l) : L.flatten.Perm (id :: (L.set p (l.erase id)).flatten) := by
  have moved := perm_flatten_set there (l.erase id)
  have split : (l ++ (L.set p (l.erase id)).flatten).Perm
      (l.erase id ++ id :: (L.set p (l.erase id)).flatten) :=
    ((List.perm_cons_erase member).append_right _).trans List.perm_middle.symm
  exact ((List.perm_append_left_iff _).mp (split.symm.trans moved)).symm

theorem own_set {L : List (List EvId)} {p : Nat} {l l' : List EvId} (there : L[p]? = some l)
    {id : EvId} (sub : ∀ x ∈ l', x ∈ l ∨ x = id) :
    ∀ pri m, (L.set p l')[pri]? = some m → ∀ x ∈ m, (∃ l, L[pri]? = some l ∧ x ∈ l) ∨ x = id ∧ p = pri := by
  intro pri m found x member
  by_cases same : p = pri
  · subst same
    rw [List.getElem?_set_self (List.getElem?_eq_some_iff.mp there).1] at found
    cases found
    rcases sub x member with old | rfl
    · exact .inl ⟨l, there, old⟩
    · exact .inr ⟨rfl, rfl⟩
  · rw [List.getElem?_set_ne same] at found
    exact .inl ⟨m, found, member⟩

section Count

variable (base : EventBase β) (id : EvId) (queue : EvList) (by' : Int)

@[simp] theorem event_count' : (base.count id queue by').event = base.event := by
  unfold count
  split <;> rfl

@[simp] theorem activequeues_count : (base.count id queue by').activequeues = base.activequeues := by
  unfold count
  split <;> rfl

@[simp] theorem eventqueue_count : (base.count id queue by').eventqueue = base.eventqueue := by
  unfold count
  split <;> rfl

@[simp] theorem signalqueue_count : (base.count id queue by').signalqueue = base.signalqueue := by
  unfold count
  split <;> rfl

@[simp] theorem timetree_count : (base.count id queue by').timetree = base.timetree := by
  unfold count
  split <;> rfl

@[simp] theorem evbase_count : (base.count id queue by').evbase = base.evbase := by
  unfold count
  split <;> rfl

@[simp] theorem gotterm_count :
    (base.count id queue by').event_gotterm = base.event_gotterm := by
  unfold count
  split <;> rfl

@[simp] theorem ncalls_count : (base.count id queue by').ncalls = base.ncalls := by
  unfold count
  split <;> rfl

@[simp] theorem runs_count : (base.count id queue by').runs = base.runs := by
  unfold count
  split <;> rfl

/-- A flag does not change the order of the timeouts. -/
@[simp] theorem compareEvents_flag (on : Bool) :
    compareEvents (base.flag id queue on).event = compareEvents base.event := by
  have timeouts : ∀ x, ((base.flag id queue on).event x).ev_timeout = (base.event x).ev_timeout := by
    intro x
    rw [flag, event_modify]
    split
    case isTrue same => rw [same]
    case isFalse => rfl
  funext a b
  simp only [compareEvents, timeouts]

theorem event_flag_count (on : Bool) :
    ((base.count id queue by').flag id queue on).event = (base.flag id queue on).event := by
  simp only [flag, modify, event_count']

end Count

/-- `event_queue_insert` of an event that is not on the queue. -/
theorem eventQueueInsert_moves {base : EventBase β} (queues : base.Queues) {id : EvId}
    (queue : EvList) (free : (base.event id).flags queue = false)
    (known : (base.event id).init = true) :
    ∃ base', base.eventQueueInsert id queue = some base' ∧ base.Moves base' id queue true := by
  have same := event_flag_count base id queue 1 true
  have kept : ∀ pri l', base.activequeues[pri]? = some l' → ∀ x ∈ l',
      (∃ l, base.activequeues[pri]? = some l ∧ x ∈ l) ∨ x = id ∧ (base.event id).ev_pri = pri :=
    fun pri l' there x member => .inl ⟨l', there, member⟩
  unfold eventQueueInsert
  rw [if_neg (by simp [free])]
  cases queue with
  | timeout =>
    have fresh : ∀ y ∈ base.timetree.toList, compareEvents base.event id y ≠ .eq := by
      intro y member equal
      have off := (queues.listed .timeout y).mp member
      rw [← eq_of_compareEvents equal, free] at off
      cases off
    obtain ⟨tree, inserted, holds⟩ :=
      RBTree.Holds.insert ⟨queues.balanced, queues.sorted, rfl⟩ fresh
    have order : compareEvents ((base.count id .timeout 1).flag id .timeout true).event
        = compareEvents base.event := by
      rw [same, compareEvents_flag]
    refine ⟨{ (base.count id .timeout 1).flag id .timeout true with timetree := tree }, ?_, ?_⟩
    · have there : ((base.count id .timeout 1).flag id .timeout true).timetree = base.timetree := by
        simp [flag]
      simp only [there, order, inserted]
    · refine ⟨same, fun _ => ?_, fun absurd => (by cases absurd), ?_, fun _ => holds.order, ?_, ?_, ?_,
        holds.balanced, holds.sorted, rfl, rfl, ?_, ?_, ?_⟩
      · rw [members, holds.order]
        exact List.perm_orderedInsert _ _ _
      · intro other ne
        cases other <;> simp [members, flag] at ne ⊢
      · simp [flag]
      · simpa [flag] using kept
      · simp [flag]
      · simp [flag]
      · simp [flag]
      · simp [flag]
  | inserted =>
    refine ⟨_, rfl, same, fun _ => ?_, fun absurd => (by cases absurd), ?_,
      fun absurd => (by cases absurd), ?_, ?_, ?_, ?_, ?_, rfl, rfl, ?_, ?_, ?_⟩
    · simp [members, flag]
    · intro other ne
      cases other <;> simp [members, flag] at ne ⊢
    · simp [flag]
    · simpa [flag] using kept
    · simp [flag]
    · simpa [flag] using queues.balanced
    · simpa [flag] using queues.sorted
    · simp [flag]
    · simp [flag]
    · simp [flag]
  | signal =>
    refine ⟨_, rfl, same, fun _ => ?_, fun absurd => (by cases absurd), ?_,
      fun absurd => (by cases absurd), ?_, ?_, ?_, ?_, ?_, rfl, rfl, ?_, ?_, ?_⟩
    · simp [members, flag]
    · intro other ne
      cases other <;> simp [members, flag] at ne ⊢
    · simp [flag]
    · simpa [flag] using kept
    · simp [flag]
    · simpa [flag] using queues.balanced
    · simpa [flag] using queues.sorted
    · simp [flag]
    · simp [flag]
    · simp [flag]
  | active =>
    obtain ⟨l, there⟩ : ∃ l, base.activequeues[(base.event id).ev_pri]? = some l :=
      ⟨_, List.getElem?_eq_getElem (queues.room id known)⟩
    have pri : (((base.count id .active 1).flag id .active true).event id).ev_pri
        = (base.event id).ev_pri := by
      simp [flag]
    refine ⟨{ (base.count id .active 1).flag id .active true with
      activequeues := base.activequeues.set (base.event id).ev_pri (l ++ [id]) }, ?_, ?_⟩
    · simp [flag, there]
    · refine ⟨same, fun _ => ?_, fun absurd => (by cases absurd), ?_, fun absurd => (by cases absurd),
        ?_, ?_, ?_, ?_, ?_, rfl, rfl, ?_, ?_, ?_⟩
      · exact perm_flatten_push there id
      · intro other ne
        cases other <;> simp [members, flag] at ne ⊢
      · simp [List.modify_eq_set_getElem?, there]
      · refine own_set there fun x member => ?_
        simpa using member
      · simp
      · simpa [flag] using queues.balanced
      · simpa [flag] using queues.sorted
      · simp [flag]
      · simp [flag]
      · simp [flag]

/-- `event_queue_remove` of an event that is on the queue. -/
theorem eventQueueRemove_moves {base : EventBase β} (queues : base.Queues) {id : EvId}
    {queue : EvList} (on : (base.event id).flags queue = true) :
    ∃ base', base.eventQueueRemove id queue = some base' ∧ base.Moves base' id queue false := by
  have same := event_flag_count base id queue (-1) false
  have member := (queues.listed queue id).mpr on
  have kept : ∀ pri l', base.activequeues[pri]? = some l' → ∀ x ∈ l',
      (∃ l, base.activequeues[pri]? = some l ∧ x ∈ l) ∨ x = id ∧ (base.event id).ev_pri = pri :=
    fun pri l' there x member => .inl ⟨l', there, member⟩
  unfold eventQueueRemove
  rw [if_pos on]
  cases queue with
  | timeout =>
    obtain ⟨tree, removed, holds⟩ :=
      RBTree.Holds.remove ⟨queues.balanced, queues.sorted, rfl⟩ member
    refine ⟨{ (base.count id .timeout (-1)).flag id .timeout false with timetree := tree }, ?_, ?_⟩
    · simp [flag, removed]
    · refine ⟨same, fun absurd => (by cases absurd), fun _ => ?_, ?_, fun _ => holds.order, ?_, ?_, ?_,
        holds.balanced, holds.sorted, rfl, rfl, ?_, ?_, ?_⟩
      · simp only [members, holds.order]
        exact List.perm_cons_erase member
      · intro other ne
        cases other <;> simp [members, flag] at ne ⊢
      · simp [flag]
      · simpa [flag] using kept
      · simp [flag]
      · simp [flag]
      · simp [flag]
      · simp [flag]
  | inserted =>
    refine ⟨{ (base.count id .inserted (-1)).flag id .inserted false with
      eventqueue := base.eventqueue.erase id }, ?_, ?_⟩
    · simp only [members] at member
      simp [flag, tailqRemove, member]
    · refine ⟨same, fun absurd => (by cases absurd), fun _ => ?_, ?_, fun absurd => (by cases absurd),
        ?_, ?_, ?_, ?_, ?_, rfl, rfl, ?_, ?_, ?_⟩
      · exact List.perm_cons_erase member
      · intro other ne
        cases other <;> simp [members, flag] at ne ⊢
      · simp [flag]
      · simpa [flag] using kept
      · simp [flag]
      · simpa [flag] using queues.balanced
      · simpa [flag] using queues.sorted
      · simp [flag]
      · simp [flag]
      · simp [flag]
  | signal =>
    refine ⟨{ (base.count id .signal (-1)).flag id .signal false with
      signalqueue := base.signalqueue.erase id }, ?_, ?_⟩
    · simp only [members] at member
      simp [flag, tailqRemove, member]
    · refine ⟨same, fun absurd => (by cases absurd), fun _ => ?_, ?_, fun absurd => (by cases absurd),
        ?_, ?_, ?_, ?_, ?_, rfl, rfl, ?_, ?_, ?_⟩
      · exact List.perm_cons_erase member
      · intro other ne
        cases other <;> simp [members, flag] at ne ⊢
      · simp [flag]
      · simpa [flag] using kept
      · simp [flag]
      · simpa [flag] using queues.balanced
      · simpa [flag] using queues.sorted
      · simp [flag]
      · simp [flag]
      · simp [flag]
  | active =>
    obtain ⟨l, inQueues, inL⟩ := List.mem_flatten.mp member
    obtain ⟨pri, there⟩ := List.mem_iff_getElem?.mp inQueues
    have mine := queues.own pri l there id inL
    subst mine
    refine ⟨{ (base.count id .active (-1)).flag id .active false with
      activequeues := base.activequeues.set (base.event id).ev_pri (l.erase id) }, ?_, ?_⟩
    · simp [flag, there, tailqRemove, inL]
    · refine ⟨same, fun absurd => (by cases absurd), fun _ => ?_, ?_, fun absurd => (by cases absurd),
        ?_, ?_, ?_, ?_, ?_, rfl, rfl, ?_, ?_, ?_⟩
      · exact perm_flatten_erase there inL
      · intro other ne
        cases other <;> simp [members, flag] at ne ⊢
      · simp [List.modify_eq_set_getElem?, there]
      · exact own_set there fun x inErase => .inl (List.mem_of_mem_erase inErase)
      · simp
      · simpa [flag] using queues.balanced
      · simpa [flag] using queues.sorted
      · simp [flag]
      · simp [flag]
      · simp [flag]

section Moves

variable {base base' : EventBase β} {id : EvId} {queue : EvList} {on : Bool}

theorem event_flag (x : EvId) : (base.flag id queue on).event x
    = if x = id then { base.event id with flags := Function.update (base.event id).flags queue on }
      else base.event x := by
  rw [flag, event_modify]

theorem Moves.flags (moves : base.Moves base' id queue on) (x : EvId) (other : EvList) :
    (base'.event x).flags other
      = if x = id ∧ other = queue then on else (base.event x).flags other := by
  rw [moves.event, event_flag]
  by_cases self : x = id
  · subst self
    by_cases same : other = queue
    · simp [same]
    · simp [same]
  · simp [self]

/-- The fields of an event the queues do not write. -/
theorem Moves.fields (moves : base.Moves base' id queue on) (x : EvId) :
    base'.event x = { base.event x with flags := (base'.event x).flags } := by
  rw [moves.event, event_flag]
  split
  case isTrue same => rw [same]
  case isFalse => rfl

theorem Moves.tally (moves : base.Moves base' id queue on) :
    base'.tally queue = base.tally queue
      + (if (base.event id).internal then 0 else if on then 1 else -1) ∧
      ∀ other, other ≠ queue → base'.tally other = base.tally other := by
  have internal : (fun x => !(base'.event x).internal) = fun x => !(base.event x).internal := by
    funext x
    rw [moves.fields x]
  refine ⟨?_, ?_⟩
  · simp only [EventBase.tally, internal]
    cases on with
    | true =>
      rw [(moves.longer rfl).countP_eq, List.countP_cons]
      cases (base.event id).internal <;> simp
    | false =>
      rw [(moves.shorter rfl).countP_eq, List.countP_cons]
      cases (base.event id).internal <;> simp
  · intro other ne
    simp only [EventBase.tally, internal, moves.rest other ne]

theorem Moves.mem (moves : base.Moves base' id queue on) (queues : base.Queues) (x : EvId) :
    x ∈ base'.members queue ↔ if x = id then on = true else x ∈ base.members queue := by
  cases on with
  | true =>
    rw [(moves.longer rfl).mem_iff, List.mem_cons]
    by_cases self : x = id <;> simp [self]
  | false =>
    have whole := moves.shorter rfl
    have once := whole.nodup_iff.mp (queues.once queue)
    rw [whole.mem_iff, List.mem_cons]
    by_cases self : x = id
    · subst self
      simp [(List.nodup_cons.mp once).1]
    · simp [self]

/-- **A move keeps flags and queues in agreement.** -/
theorem Moves.queues (moves : base.Moves base' id queue on) (queues : base.Queues)
    (was : (base.event id).flags queue = !on) (known : (base.event id).init = true) :
    base'.Queues := by
  have init : ∀ x, (base'.event x).init = (base.event x).init := fun x => by rw [moves.fields x]
  have pri : ∀ x, (base'.event x).ev_pri = (base.event x).ev_pri := fun x => by rw [moves.fields x]
  obtain ⟨tally, others⟩ := moves.tally
  refine ⟨?_, ?_, ?_, ?_, ?_, moves.balanced, ?_, ?_, ?_⟩
  · intro other x
    rw [moves.flags]
    by_cases same : other = queue
    · subst same
      rw [moves.mem queues]
      by_cases self : x = id
      · simp [self]
      · simp [self, queues.listed]
    · rw [moves.rest other same, queues.listed]
      simp [same]
  · intro other
    by_cases same : other = queue
    · subst same
      cases on with
      | true =>
        have off : id ∉ base.members other := fun member => by
          rw [(queues.listed other id).mp member] at was
          cases was
        exact (moves.longer rfl).nodup_iff.mpr (List.nodup_cons.mpr ⟨off, queues.once other⟩)
      | false => exact (List.nodup_cons.mp ((moves.shorter rfl).nodup_iff.mp (queues.once other))).2
    · rw [moves.rest other same]
      exact queues.once other
  · intro p l there x member
    rw [pri]
    rcases moves.own p l there x member with ⟨l', before, inside⟩ | ⟨rfl, mine⟩
    · exact queues.own p l' before x inside
    · exact mine
  · intro other x flagged
    rw [moves.flags] at flagged
    rw [init]
    split at flagged
    case isTrue both => rw [both.1]; exact known
    case isFalse => exact queues.known other x flagged
  · intro x initialized
    rw [init] at initialized
    rw [pri, moves.priorities]
    exact queues.room x initialized
  · refine sorted_congr moves.sorted fun x _ => ?_
    rw [moves.fields x]
  · rw [moves.total, count]
    have total := queues.total
    split
    case isTrue internal =>
      rw [if_pos internal] at tally
      cases queue <;> simp [tally, others, total]
    case isFalse internal =>
      rw [if_neg internal] at tally
      cases queue <;> simp only [tally, others, total, ne_eq, reduceCtorEq, not_false_eq_true] <;> ring
  · rw [moves.active, count]
    have active := queues.active
    split
    case isTrue internal =>
      rw [if_pos internal] at tally
      cases queue <;> simp [tally, others, active]
    case isFalse internal =>
      rw [if_neg internal] at tally
      cases queue <;> simp [tally, others, active]

end Moves

end EventBase

end GreatEvent.Evsys
