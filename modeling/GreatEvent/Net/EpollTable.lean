import GreatEvent.Net.Epoll

/-!
# `epoll.c`: the table and the events

The table mirrors the events that wait, and the list of the kernel mirrors the
table, as long as one event at most waits for input on a descriptor and one
for output. Such a program gets all it waits for from the kernel, and nothing
else.
-/

namespace GreatEvent.Evsys

namespace Evepoll

theorem input_interest (evep : Evepoll) :
    (∃ bits, evep.interest = some bits ∧ bits.input = true) ↔ evep.evread.isSome = true := by
  obtain ⟨evread, evwrite⟩ := evep
  cases evread <;> cases evwrite <;> simp [interest, idle, bits]

theorem output_interest (evep : Evepoll) :
    (∃ bits, evep.interest = some bits ∧ bits.output = true) ↔ evep.evwrite.isSome = true := by
  obtain ⟨evread, evwrite⟩ := evep
  cases evread <;> cases evwrite <;> simp [interest, idle, bits]

theorem interest_eq_none (evep : Evepoll) :
    evep.interest = none ↔ evep.evread = none ∧ evep.evwrite = none := by
  obtain ⟨evread, evwrite⟩ := evep
  cases evread <;> cases evwrite <;> simp [interest, idle]

end Evepoll

namespace Epollop

/-- The entry of a descriptor; outside the table nothing waits. -/
def slot (op : Epollop) (fd : Int) : Evepoll := (op.entry fd).getD .empty

/-- An event waits for a condition on a descriptor, or for a signal. -/
def Waits (waiting : EvId → Option (Int × EvMask)) (condition : EvMask → Bool) (fd : Int)
    (id : EvId) : Prop :=
  ∃ events, waiting id = some (fd, events) ∧ condition events = true

/-- The table has `n` entries and says which event waits for input and which for output, except where
the kernel has refused the descriptor; the kernel is asked for just that. -/
structure Mirrors (n : Nat) (refused : Int → Bool) (op : Epollop)
    (waiting : EvId → Option (Int × EvMask)) : Prop where
  size : op.fds.length = n
  refuses : op.refuses = refused
  range : ∀ fd id, Waits waiting EvMask.io fd id → 0 ≤ fd ∧ fd < n
  reads : ∀ fd id, (op.slot fd).evread = some id ↔ refused fd = false ∧ Waits waiting EvMask.read fd id
  writes : ∀ fd id,
    (op.slot fd).evwrite = some id ↔ refused fd = false ∧ Waits waiting EvMask.write fd id
  interest : ∀ fd, op.interest fd = (op.slot fd).interest
  signals : ∀ sig, sig ∈ op.evsigmask ↔ ∃ id, Waits waiting EvMask.signal sig id
  alone : ∀ sig id id', Waits waiting EvMask.signal sig id → Waits waiting EvMask.signal sig id' →
    id = id'

/-- What a program may add: a signal nobody waits for, or a descriptor of the table, for input or
output that nobody waits for. -/
def Free (n : Nat) (waiting : EvId → Option (Int × EvMask)) (fd : Int) (events : EvMask) : Prop :=
  if events.signal then ∀ id, ¬ Waits waiting EvMask.signal fd id
  else 0 ≤ fd ∧ fd < n ∧ ∀ id,
    (events.read = true → ¬ Waits waiting EvMask.read fd id) ∧
      (events.write = true → ¬ Waits waiting EvMask.write fd id)

section Waits

variable {waiting : EvId → Option (Int × EvMask)} {id : EvId} {fd : Int} {events : EvMask}
  {condition : EvMask → Bool}

/-- One more event waits. -/
theorem waits_add (free : waiting id = none) (other : Int) (x : EvId) :
    Waits (Function.update waiting id (some (fd, events))) condition other x ↔
      x = id ∧ other = fd ∧ condition events = true ∨ Waits waiting condition other x := by
  simp only [Waits, Function.update_apply]
  by_cases same : x = id
  · subst same
    rw [if_pos rfl, free]
    constructor
    · rintro ⟨e, here, holds⟩
      cases here
      exact .inl ⟨rfl, rfl, holds⟩
    · rintro (⟨-, rfl, holds⟩ | ⟨e, absurd, -⟩)
      · exact ⟨events, rfl, holds⟩
      · cases absurd
  · rw [if_neg same]
    constructor
    · exact .inr
    · rintro (⟨here, -⟩ | waits)
      · exact absurd here same
      · exact waits

/-- One event waits no more. -/
theorem waits_del (other : Int) (x : EvId) :
    Waits (Function.update waiting id none) condition other x ↔
      x ≠ id ∧ Waits waiting condition other x := by
  simp only [Waits, Function.update_apply]
  by_cases same : x = id
  · simp [same]
  · simp [same]

/-- An event waits for what it was added for. -/
theorem waits_self (there : waiting id = some (fd, events)) (other : Int) :
    Waits waiting condition other id ↔ other = fd ∧ condition events = true := by
  simp only [Waits, there, Option.some.injEq, Prod.mk.injEq]
  constructor
  · rintro ⟨e, ⟨rfl, rfl⟩, holds⟩
    exact ⟨rfl, holds⟩
  · rintro ⟨rfl, holds⟩
    exact ⟨events, ⟨rfl, rfl⟩, holds⟩

end Waits

theorem entry_of_range {op : Epollop} {fd : Int} (low : 0 ≤ fd) (high : fd < op.fds.length) :
    op.entry fd = some (op.slot fd) := by
  have there : fd.toNat < op.fds.length := by omega
  have entry : op.entry fd = some (op.fds[fd.toNat]) := by
    rw [entry, if_neg (by omega), List.getElem?_eq_getElem there]
  rw [slot, entry]
  rfl

theorem slot_setEntry {op : Epollop} {fd : Int} (low : 0 ≤ fd) (high : fd < op.fds.length)
    (evep : Evepoll) (x : Int) :
    (op.setEntry fd evep).slot x = if x = fd then evep else op.slot x := by
  have there : fd.toNat < op.fds.length := by omega
  simp only [slot, entry, setEntry]
  by_cases same : x = fd
  · subst same
    rw [if_neg (by omega), List.getElem?_set_self there, if_pos rfl]
    rfl
  · rw [if_neg same]
    by_cases negative : x < 0
    · rw [if_pos negative, if_pos negative]
    · rw [if_neg negative, if_neg negative, List.getElem?_set_ne (by omega)]

/-- What the kernel does with a request that fits its list. -/
theorem ctl_eq {op : Epollop} {fd : Int} {request : EpollCtl} (events : EpollBits)
    (taken : op.refuses fd = false) (fits : request = .add ↔ op.interest fd = none) :
    op.ctl request fd events = some
      { op with
        interest := Function.update op.interest fd (if request = .del then none else some events) } := by
  simp only [ctl, taken, Bool.false_eq_true, if_false]
  cases request with
  | add =>
    rw [fits.mp rfl]
    rfl
  | mod =>
    obtain ⟨bits, there⟩ := Option.ne_none_iff_exists'.mp fun absent => by cases fits.mpr absent
    rw [there]
    rfl
  | del =>
    obtain ⟨bits, there⟩ := Option.ne_none_iff_exists'.mp fun absent => by cases fits.mpr absent
    rw [there]
    rfl

theorem ctl_refused {op : Epollop} {fd : Int} {request : EpollCtl} {events : EpollBits}
    (refusal : op.refuses fd = true) : op.ctl request fd events = none := by
  simp only [ctl, refusal, if_true]

variable {n : Nat} {refused : Int → Bool} {op : Epollop} {waiting : EvId → Option (Int × EvMask)}

/-- Nothing is in the table for a descriptor the kernel refuses. -/
theorem Mirrors.slot_of_refused (mirrors : op.Mirrors n refused waiting) {fd : Int}
    (refusal : refused fd = true) : op.slot fd = .empty := by
  have off : refused fd ≠ false := by simp [refusal]
  have noRead : (op.slot fd).evread = none := by
    cases there : (op.slot fd).evread with
    | none => rfl
    | some id => exact absurd ((mirrors.reads fd id).mp there).1 off
  have noWrite : (op.slot fd).evwrite = none := by
    cases there : (op.slot fd).evwrite with
    | none => rfl
    | some id => exact absurd ((mirrors.writes fd id).mp there).1 off
  exact congrArg₂ Evepoll.mk noRead noWrite

/-- `evsignal_add` -/
theorem Mirrors.addSignal (mirrors : op.Mirrors n refused waiting) {id : EvId} {ev : Event}
    (free : waiting id = none) (signal : ev.ev_events.signal = true) (apart : ev.ev_events.io = false)
    (new : ∀ x, ¬ Waits waiting EvMask.signal ev.ev_fd x) :
    ∃ ret op', op.epollAdd id ev = some (ret, op') ∧
      op'.Mirrors n refused (Function.update waiting id (some (ev.ev_fd, ev.ev_events))) := by
  have noRead : ev.ev_events.read = false := by
    simp only [EvMask.io, Bool.or_eq_false_iff] at apart
    exact apart.1
  have noWrite : ev.ev_events.write = false := by
    simp only [EvMask.io, Bool.or_eq_false_iff] at apart
    exact apart.2
  refine ⟨0, { op with evsigmask := ev.ev_fd :: op.evsigmask }, ?_, mirrors.size, mirrors.refuses,
    ?_, ?_, ?_, mirrors.interest, ?_, ?_⟩
  · simp [epollAdd, signal, evsignalAdd, apart]
  · intro fd x waits
    simp only [waits_add free, apart, Bool.false_eq_true, and_false, false_or] at waits
    exact mirrors.range fd x waits
  · intro fd x
    simp only [waits_add free, noRead, Bool.false_eq_true, and_false, false_or]
    exact mirrors.reads fd x
  · intro fd x
    simp only [waits_add free, noWrite, Bool.false_eq_true, and_false, false_or]
    exact mirrors.writes fd x
  · intro sig
    simp only [List.mem_cons, waits_add free, mirrors.signals, signal, and_true]
    constructor
    · rintro (rfl | ⟨x, waits⟩)
      · exact ⟨id, .inl ⟨rfl, rfl⟩⟩
      · exact ⟨x, .inr waits⟩
    · rintro ⟨x, ⟨-, rfl⟩ | waits⟩
      · exact .inl rfl
      · exact .inr ⟨x, waits⟩
  · intro sig x y first second
    rw [waits_add free] at first second
    rcases first with ⟨rfl, rfl, -⟩ | first
    · rcases second with ⟨rfl, -, -⟩ | second
      · rfl
      · exact absurd second (new y)
    · rcases second with ⟨rfl, rfl, -⟩ | second
      · exact absurd first (new x)
      · exact mirrors.alone sig x y first second

/-- `evsignal_del` -/
theorem Mirrors.delSignal (mirrors : op.Mirrors n refused waiting) {id : EvId} {ev : Event}
    (there : waiting id = some (ev.ev_fd, ev.ev_events)) (signal : ev.ev_events.signal = true)
    (apart : ev.ev_events.io = false) :
    ∃ ret op', op.epollDel ev = some (ret, op') ∧
      op'.Mirrors n refused (Function.update waiting id none) := by
  have self : ∀ condition : EvMask → Bool, condition ev.ev_events = false → ∀ fd x,
      Waits (Function.update waiting id none) condition fd x ↔ Waits waiting condition fd x := by
    intro condition off fd x
    rw [waits_del]
    refine and_iff_right_of_imp fun waits same => ?_
    rw [same, waits_self there, off] at waits
    cases waits.2
  have noRead : ev.ev_events.read = false ∧ ev.ev_events.write = false := by
    simpa [EvMask.io] using apart
  refine ⟨_, _, if_pos signal, mirrors.size, mirrors.refuses, ?_, ?_, ?_, mirrors.interest, ?_, ?_⟩
  · intro fd x waits
    exact mirrors.range fd x ((self _ apart fd x).mp waits)
  · intro fd x
    rw [self _ noRead.1]
    exact mirrors.reads fd x
  · intro fd x
    rw [self _ noRead.2]
    exact mirrors.writes fd x
  · intro sig
    simp only [ne_eq, decide_not, List.mem_filter, Bool.not_eq_eq_eq_not, Bool.not_true,
      decide_eq_false_iff_not, mirrors.signals, waits_del]
    constructor
    · rintro ⟨⟨x, waits⟩, other⟩
      refine ⟨x, fun same => other ?_, waits⟩
      rw [same, waits_self there] at waits
      exact waits.1
    · rintro ⟨x, other, waits⟩
      refine ⟨⟨x, waits⟩, fun same => other ?_⟩
      exact mirrors.alone sig x id waits ((waits_self there sig).mpr ⟨same, signal⟩)
  · intro sig x y first second
    exact mirrors.alone sig x y ((waits_del sig x).mp first).2 ((waits_del sig y).mp second).2

/-- One entry of the table changes, as one event starts or stops to wait on its descriptor. -/
theorem Mirrors.change (mirrors : op.Mirrors n refused waiting) {fd : Int} {evep : Evepoll}
    {op' : Epollop} {waiting' : EvId → Option (Int × EvMask)} (size : op'.fds.length = op.fds.length)
    (refuses : op'.refuses = op.refuses) (mask : op'.evsigmask = op.evsigmask)
    (interest : op'.interest = Function.update op.interest fd evep.interest)
    (slots : ∀ x, op'.slot x = if x = fd then evep else op.slot x)
    (others : ∀ condition other x, other ≠ fd →
      (Waits waiting' condition other x ↔ Waits waiting condition other x))
    (signals : ∀ sig x, Waits waiting' EvMask.signal sig x ↔ Waits waiting EvMask.signal sig x)
    (range : 0 ≤ fd ∧ fd < n)
    (reads : ∀ x, evep.evread = some x ↔ refused fd = false ∧ Waits waiting' EvMask.read fd x)
    (writes : ∀ x, evep.evwrite = some x ↔ refused fd = false ∧ Waits waiting' EvMask.write fd x) :
    op'.Mirrors n refused waiting' := by
  refine ⟨size.trans mirrors.size, refuses.trans mirrors.refuses, ?_, ?_, ?_, ?_, ?_, ?_⟩
  · intro other x waits
    by_cases here : other = fd
    · rw [here]
      exact range
    · exact mirrors.range other x ((others _ other x here).mp waits)
  · intro other x
    rw [slots]
    split
    case isTrue here => rw [here]; exact reads x
    case isFalse here => rw [others _ other x here]; exact mirrors.reads other x
  · intro other x
    rw [slots]
    split
    case isTrue here => rw [here]; exact writes x
    case isFalse here => rw [others _ other x here]; exact mirrors.writes other x
  · intro other
    rw [interest, slots, Function.update_apply]
    split
    case isTrue => rfl
    case isFalse => exact mirrors.interest other
  · intro sig
    simp only [mask, signals]
    exact mirrors.signals sig
  · intro sig x y first second
    exact mirrors.alone sig x y ((signals sig x).mp first) ((signals sig y).mp second)

/-- The pointer to the event that waits for a condition, once another event is there for it. -/
theorem pointer_add (condition : EvMask → Bool) {id : EvId} {fd : Int} {events : EvMask}
    {pointer : Option EvId} (free : waiting id = none)
    (mirrored : ∀ x, pointer = some x ↔ Waits waiting condition fd x)
    (new : condition events = true → ∀ x, ¬ Waits waiting condition fd x) (x : EvId) :
    (if condition events then some id else pointer) = some x ↔
      Waits (Function.update waiting id (some (fd, events))) condition fd x := by
  rw [waits_add free]
  split
  case isTrue holds =>
    simp only [Option.some.injEq, holds, and_true, new holds x, or_false]
    exact eq_comm
  case isFalse off =>
    rw [mirrored]
    exact (or_iff_right fun waits => off waits.2.2).symm

/-- `epoll_add` where the table has the entry. -/
theorem epollAdd_eq {id : EvId} {ev : Event} (apart : ev.ev_events.signal = false)
    (low : 0 ≤ ev.ev_fd) (high : ev.ev_fd < op.fds.length) {evep : Evepoll}
    (slot : op.slot ev.ev_fd = evep) {told : Option Epollop}
    (request : op.ctl (if evep.idle then .add else .mod) ev.ev_fd
      ⟨evep.evread.isSome || ev.ev_events.read, evep.evwrite.isSome || ev.ev_events.write⟩ = told) :
    op.epollAdd id ev = some (told.elim (-1, op) fun op => (0, op.setEntry ev.ev_fd
      { evread := if ev.ev_events.read then some id else evep.evread
        evwrite := if ev.ev_events.write then some id else evep.evwrite })) := by
  have entry := entry_of_range low high
  rw [slot] at entry
  simp only [epollAdd, apart, Bool.false_eq_true, if_false, ge_iff_le, not_le.mpr high, entry,
    Option.bind_eq_bind, Option.bind_some, request]
  cases told <;> rfl

/-- `epoll_add` for a descriptor of the table. -/
theorem Mirrors.addIo (mirrors : op.Mirrors n refused waiting) {id : EvId} {ev : Event}
    (free : waiting id = none) (apart : ev.ev_events.signal = false) (io : ev.ev_events.io = true)
    (low : 0 ≤ ev.ev_fd) (high : ev.ev_fd < n)
    (new : ∀ x, (ev.ev_events.read = true → ¬ Waits waiting EvMask.read ev.ev_fd x) ∧
      (ev.ev_events.write = true → ¬ Waits waiting EvMask.write ev.ev_fd x)) :
    ∃ ret op', op.epollAdd id ev = some (ret, op') ∧
      op'.Mirrors n refused (Function.update waiting id (some (ev.ev_fd, ev.ev_events))) := by
  have high' : ev.ev_fd < op.fds.length := by rw [mirrors.size]; exact high
  have others : ∀ condition other x, other ≠ ev.ev_fd →
      (Waits (Function.update waiting id (some (ev.ev_fd, ev.ev_events))) condition other x ↔
        Waits waiting condition other x) := by
    intro condition other x here
    simp [waits_add free, here]
  have signals : ∀ sig x,
      Waits (Function.update waiting id (some (ev.ev_fd, ev.ev_events))) EvMask.signal sig x ↔
        Waits waiting EvMask.signal sig x := by
    intro sig x
    simp [waits_add free, apart]
  generalize slot : op.slot ev.ev_fd = evep
  have answer := @epollAdd_eq op id ev apart low high' evep slot
  cases refusal : refused ev.ev_fd with
  | true =>
    have empty := mirrors.slot_of_refused refusal
    have entry : op.interest = Function.update op.interest ev.ev_fd Evepoll.empty.interest := by
      rw [← empty, ← mirrors.interest, Function.update_eq_self]
    refine ⟨-1, op, answer (ctl_refused (mirrors.refuses ▸ refusal)), mirrors.change rfl rfl rfl entry
      (fun x => ?_) others signals ⟨low, high⟩ ?_ ?_⟩
    · split
      case isTrue here => rw [here, empty]
      case isFalse => rfl
    · simp [Evepoll.empty, refusal]
    · simp [Evepoll.empty, refusal]
  | false =>
    have fits : (if evep.idle then EpollCtl.add else .mod) = .add ↔ op.interest ev.ev_fd = none := by
      rw [mirrors.interest, slot, Evepoll.interest]
      cases evep.idle <;> simp
    have keeps : (if evep.idle then EpollCtl.add else .mod) ≠ .del := by
      cases evep.idle <;> decide
    have told := answer (ctl_eq _ (by rw [mirrors.refuses]; exact refusal) fits)
    rw [if_neg keeps] at told
    refine ⟨0, _, told, mirrors.change ?_ rfl rfl ?_ (slot_setEntry low high' _) others signals
      ⟨low, high⟩ ?_ ?_⟩
    · simp [setEntry]
    · have waits : ev.ev_events.read = true ∨ ev.ev_events.write = true := by
        simpa [EvMask.io] using io
      simp only [setEntry, Evepoll.interest, Evepoll.idle, Evepoll.bits]
      rcases waits with read | write
      · simp only [read, if_true, Option.isNone_some, Bool.false_and, Bool.false_eq_true, if_false]
        cases ev.ev_events.write <;> simp
      · simp only [write, if_true, Option.isNone_some, Bool.and_false, Bool.false_eq_true, if_false]
        cases ev.ev_events.read <;> simp
    · intro x
      rw [refusal, and_iff_right rfl]
      refine pointer_add EvMask.read free (fun x => ?_) (fun read x => (new x).1 read) x
      rw [← slot, mirrors.reads, refusal, and_iff_right rfl]
    · intro x
      rw [refusal, and_iff_right rfl]
      refine pointer_add EvMask.write free (fun x => ?_) (fun write x => (new x).2 write) x
      rw [← slot, mirrors.writes, refusal, and_iff_right rfl]

/-- The pointer to the event that waits for a condition, once that event is gone. -/
theorem pointer_del (condition : EvMask → Bool) {id : EvId} {fd : Int} {events : EvMask}
    {pointer : Option EvId} (there : waiting id = some (fd, events))
    (mirrored : ∀ x, pointer = some x ↔ Waits waiting condition fd x) (x : EvId) :
    (if condition events then none else pointer) = some x ↔
      Waits (Function.update waiting id none) condition fd x := by
  have self : Waits waiting condition fd id ↔ fd = fd ∧ condition events = true := waits_self there fd
  rw [waits_del, ← mirrored]
  split
  case isTrue holds =>
    -- it was the one the pointer showed
    have mine : pointer = some id := (mirrored id).mpr (self.mpr ⟨rfl, holds⟩)
    simp only [mine, Option.some.injEq, reduceCtorEq, false_iff, not_and]
    exact fun other same => other same.symm
  case isFalse off =>
    refine (and_iff_right_of_imp fun shown same => ?_).symm
    rw [same, mirrored, self] at shown
    exact off shown.2

/-- `epoll_del` asks the kernel for what is still waited for. -/
theorem delRequest_eq (evep : Evepoll) {events : EvMask} (io : events.io = true) {left : Evepoll}
    (eq : left = { evread := if events.read then none else evep.evread
                   evwrite := if events.write then none else evep.evwrite }) :
    ∃ bits, delRequest evep events = (if left.idle then .del else .mod, bits, left) ∧
      (left.idle = false → bits = left.bits) := by
  subst eq
  obtain ⟨evread, evwrite⟩ := evep
  cases read : events.read <;> cases write : events.write <;> cases evread <;> cases evwrite <;>
    simp [delRequest, read, write, Evepoll.idle, Evepoll.bits, Evepoll.empty] <;>
    simp [EvMask.io, read, write] at io

/-- `epoll_del` for a descriptor of the table. -/
theorem Mirrors.delIo (mirrors : op.Mirrors n refused waiting) {id : EvId} {ev : Event}
    (there : waiting id = some (ev.ev_fd, ev.ev_events)) (apart : ev.ev_events.signal = false)
    (io : ev.ev_events.io = true) :
    ∃ ret op', op.epollDel ev = some (ret, op') ∧
      op'.Mirrors n refused (Function.update waiting id none) := by
  obtain ⟨low, high⟩ := mirrors.range ev.ev_fd id ((waits_self there _).mpr ⟨rfl, io⟩)
  have high' : ev.ev_fd < op.fds.length := by rw [mirrors.size]; exact high
  have others : ∀ condition other x, other ≠ ev.ev_fd →
      (Waits (Function.update waiting id none) condition other x ↔ Waits waiting condition other x) := by
    intro condition other x here
    rw [waits_del]
    refine and_iff_right_of_imp fun waits same => ?_
    rw [same, waits_self there] at waits
    exact here waits.1
  have signals : ∀ sig x, Waits (Function.update waiting id none) EvMask.signal sig x ↔
      Waits waiting EvMask.signal sig x := by
    intro sig x
    rw [waits_del]
    refine and_iff_right_of_imp fun waits same => ?_
    rw [same, waits_self there, apart] at waits
    cases waits.2
  generalize slot : op.slot ev.ev_fd = evep
  have entry := entry_of_range low high'
  rw [slot] at entry
  obtain ⟨bits, request, asked⟩ := delRequest_eq evep io rfl
  generalize left' : ({ evread := if ev.ev_events.read then none else evep.evread
                        evwrite := if ev.ev_events.write then none else evep.evwrite } : Evepoll)
    = left at request asked
  have told : op.epollDel ev
      = some (((op.setEntry ev.ev_fd left).ctl (if left.idle then .del else .mod) ev.ev_fd bits).elim
          (-1, op.setEntry ev.ev_fd left) fun op => (0, op)) := by
    simp only [epollDel, apart, Bool.false_eq_true, if_false, ge_iff_le, not_le.mpr high', entry,
      Option.bind_eq_bind, Option.bind_some, request]
    cases (op.setEntry ev.ev_fd left).ctl (if left.idle then .del else .mod) ev.ev_fd bits <;> rfl
  have slots := slot_setEntry low high' left
  cases refusal : refused ev.ev_fd with
  | true =>
    have empty := mirrors.slot_of_refused refusal
    have gone : left = .empty := by
      rw [← left', ← slot, empty]
      simp [Evepoll.empty]
    rw [ctl_refused (show (op.setEntry ev.ev_fd left).refuses ev.ev_fd = true from
      mirrors.refuses ▸ refusal)] at told
    refine ⟨-1, _, told, mirrors.change (by simp [setEntry]) rfl rfl ?_ slots others signals
      ⟨low, high⟩ ?_ ?_⟩
    · rw [gone, ← empty, ← mirrors.interest, Function.update_eq_self]
      rfl
    · simp [gone, Evepoll.empty, refusal]
    · simp [gone, Evepoll.empty, refusal]
  | false =>
    have reads : ∀ x, evep.evread = some x ↔ Waits waiting EvMask.read ev.ev_fd x := by
      intro x
      rw [← slot, mirrors.reads, refusal, and_iff_right rfl]
    have writes : ∀ x, evep.evwrite = some x ↔ Waits waiting EvMask.write ev.ev_fd x := by
      intro x
      rw [← slot, mirrors.writes, refusal, and_iff_right rfl]
    have shown : evep.idle = false := by
      have waits : ev.ev_events.read = true ∨ ev.ev_events.write = true := by
        simpa [EvMask.io] using io
      rcases waits with read | write
      · simp [Evepoll.idle, (reads id).mpr ((waits_self there _).mpr ⟨rfl, read⟩)]
      · simp [Evepoll.idle, (writes id).mpr ((waits_self there _).mpr ⟨rfl, write⟩)]
    have fits : (if left.idle then EpollCtl.del else .mod) = .add ↔
        (op.setEntry ev.ev_fd left).interest ev.ev_fd = none := by
      rw [show (op.setEntry ev.ev_fd left).interest = op.interest from rfl, mirrors.interest, slot,
        Evepoll.interest, shown]
      cases left.idle <;> simp
    rw [ctl_eq bits (show (op.setEntry ev.ev_fd left).refuses ev.ev_fd = false from
      mirrors.refuses ▸ refusal) fits] at told
    refine ⟨0, _, told, mirrors.change (by simp [setEntry]) rfl rfl ?_ slots others signals
      ⟨low, high⟩ ?_ ?_⟩
    · simp only [setEntry, Evepoll.interest]
      cases idle : left.idle with
      | true => simp
      | false => simp [asked idle]
    · intro x
      rw [refusal, and_iff_right rfl, ← left']
      exact pointer_del EvMask.read there reads x
    · intro x
      rw [refusal, and_iff_right rfl, ← left']
      exact pointer_del EvMask.write there writes x

end Epollop

/-- `epollops` with a table of `n` entries, on a kernel that refuses some descriptors. -/
def epoll (n : Nat) (refused : Int → Bool) : Kernel Epollop where
  evsel := Epollop.epollops
  inv := Epollop.Mirrors n refused
  room := Epollop.Free n
  add := by
    intro op waiting id ev mirrors free one room
    cases signal : ev.ev_events.signal with
    | true =>
      rw [signal] at one
      rw [Epollop.Free, if_pos signal] at room
      exact mirrors.addSignal free signal (by simpa using one) room
    | false =>
      rw [signal] at one
      rw [Epollop.Free, if_neg (by simp [signal])] at room
      exact mirrors.addIo free signal (by simpa using one) room.1 room.2.1 room.2.2
  del := by
    intro op waiting id ev mirrors there one
    cases signal : ev.ev_events.signal with
    | true =>
      rw [signal] at one
      exact mirrors.delSignal there signal (by simpa using one)
    | false =>
      rw [signal] at one
      exact mirrors.delIo there signal (by simpa using one)

/-- The table `epoll_init` sets up. -/
def Epollop.init (n : Nat) (refused : Int → Bool) : Epollop where
  fds := List.replicate n .empty
  interest := fun _ => none
  refuses := refused
  evsigmask := []
  needrecalc := false

theorem Epollop.slot_init (n : Nat) (refused : Int → Bool) (fd : Int) :
    (Epollop.init n refused).slot fd = .empty := by
  simp only [slot, entry, init]
  split
  case isTrue => rfl
  case isFalse =>
    rw [List.getElem?_replicate]
    split <;> rfl

theorem Epollop.mirrors_init (n : Nat) (refused : Int → Bool) :
    (Epollop.init n refused).Mirrors n refused fun _ => none := by
  have nobody : ∀ condition fd id, ¬ Waits (fun _ => none) condition fd id := by
    rintro condition fd id ⟨events, absurd, -⟩
    cases absurd
  refine ⟨List.length_replicate, rfl, fun fd id waits => absurd waits (nobody _ fd id), ?_, ?_, ?_, ?_,
    fun sig id _ waits => absurd waits (nobody _ sig id)⟩
  · intro fd id
    simp [slot_init, Evepoll.empty, nobody]
  · intro fd id
    simp [slot_init, Evepoll.empty, nobody]
  · intro fd
    rw [slot_init]
    rfl
  · intro sig
    simp [init, nobody]

namespace EventBase

variable {β : Type} {k : Kernel β}

/-- An event that waits for a descriptor is inserted. -/
theorem Sound.waits_io {base : EventBase β} (sound : base.Sound k)
    (condition : EvMask → Bool) (io : ∀ events, condition events = true → events.io = true) (fd : Int)
    (id : EvId) :
    Epollop.Waits (fun x => (base.event x).waiting) condition fd id ↔
      (base.event id).flags .inserted = true ∧ (base.event id).ev_fd = fd ∧
        condition (base.event id).ev_events = true := by
  simp only [Epollop.Waits, Event.waiting]
  constructor
  · rintro ⟨events, waits, holds⟩
    split at waits
    case isTrue on =>
      cases waits
      refine ⟨?_, rfl, holds⟩
      by_contra out
      have signal := sound.signal id (by simpa [out] using on)
      have apart := sound.apart id
      rw [io _ holds, signal] at apart
      cases apart
    case isFalse => cases waits
  · rintro ⟨inserted, rfl, holds⟩
    exact ⟨_, by rw [inserted]; rfl, holds⟩

/-- An event that waits for a signal is on the queue of the signals. -/
theorem Sound.waits_signal {base : EventBase β} (sound : base.Sound k) (sig : Int) (id : EvId) :
    Epollop.Waits (fun x => (base.event x).waiting) EvMask.signal sig id ↔
      (base.event id).flags .signal = true ∧ (base.event id).ev_fd = sig := by
  simp only [Epollop.Waits, Event.waiting]
  constructor
  · rintro ⟨events, waits, holds⟩
    split at waits
    case isTrue on =>
      cases waits
      refine ⟨?_, rfl⟩
      by_contra out
      have io := sound.inserted id (by simpa [out] using on)
      have apart := sound.apart id
      rw [io, holds] at apart
      cases apart
    case isFalse => cases waits
  · rintro ⟨flagged, rfl⟩
    exact ⟨_, by rw [flagged, Bool.or_true]; rfl, sound.signal id flagged⟩

end EventBase

end GreatEvent.Evsys
