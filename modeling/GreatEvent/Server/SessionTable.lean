import GreatEvent.Lib.Histories
import GreatEvent.Server.SessionManager

/-!
# The session table as a counted map

What `SessionManager` is for: a session and a sequence number for every key,
and the number of keys that hold a session. Its sessions are always those of
the map. Its counter is moved by `put` on an occupied key and by `remove` of
an absent one as well, so it agrees exactly as long as neither is called.
-/

namespace GreatEvent

/-- The calls on the table. -/
inductive SessionOp (σ : Type) where
  | put (key : UInt16) (session : σ)
  | get (key : UInt16)
  | remove (key : UInt16)

/-- The session of every key and its sequence number, the sessions taken from it so far. -/
structure SessionMap (σ : Type) where
  held : UInt16 → Option σ
  seq : UInt16 → UInt16

namespace SessionMap

variable {σ : Type}

def empty : SessionMap σ := ⟨fun _ => none, fun _ => 0⟩

def hold (t : SessionMap σ) (key : UInt16) (session : Option σ) : UInt16 → Option σ :=
  fun k => if k = key then session else t.held k

/-- The sequence numbers once a session is taken from under a key, if it holds one. -/
def advance (t : SessionMap σ) (key : UInt16) : UInt16 → UInt16 :=
  match t.held key with
  | some _ => fun k => if k = key then t.seq key + 1 else t.seq k
  | none => t.seq

def step (t : SessionMap σ) : SessionOp σ → SessionMap σ
  | .put key session => ⟨t.hold key (some session), t.seq⟩
  | .get _ => t
  | .remove key => ⟨t.hold key none, t.advance key⟩

/-- What a call answers: the session returned and the sequence number given. -/
def answer (t : SessionMap σ) : SessionOp σ → Option σ × Option UInt16
  | .put key _ => (none, some (t.seq key))
  | .get key => (t.held key, some (t.seq key))
  | .remove key => (t.held key, none)

/-- The number of keys that hold a session. -/
def size (t : SessionMap σ) : Nat := (List.range 65536).countP fun i => (t.held (UInt16.ofNat i)).isSome

end SessionMap

/-- Changing a predicate at one element of a list changes the count by this element. -/
theorem countP_update {α : Type} {p q : α → Bool} {l : List α} {a : α} (nodup : l.Nodup) (inside : a ∈ l)
    (others : ∀ x ∈ l, x ≠ a → p x = q x) : l.countP p + (q a).toNat = l.countP q + (p a).toNat := by
  induction l with
  | nil => exact absurd inside List.not_mem_nil
  | cons x l ih =>
    obtain ⟨apart, nodup⟩ := List.nodup_cons.mp nodup
    have later : ∀ y ∈ l, y ≠ a → p y = q y := fun y member => others y (List.mem_cons_of_mem x member)
    rw [List.countP_cons, List.countP_cons]
    by_cases here : x = a
    · subst here
      have same : l.countP p = l.countP q := by
        apply List.countP_congr
        intro y member
        rw [later y member (ne_of_mem_of_not_mem member apart)]
      rw [same]
      cases p x <;> cases q x <;> rfl
    · have rest := ih nodup ((List.mem_cons.mp inside).resolve_left (Ne.symm here)) later
      rw [others x List.mem_cons_self here]
      omega

namespace SessionMap

variable {σ : Type}

theorem size_empty : (empty : SessionMap σ).size = 0 := by
  rw [size, List.countP_eq_zero]
  intro i _
  exact Bool.false_ne_true

theorem step_put (t : SessionMap σ) (key : UInt16) (session : σ) :
    t.step (.put key session) = ⟨t.hold key (some session), t.seq⟩ := rfl

theorem step_remove (t : SessionMap σ) (key : UInt16) : t.step (.remove key) = ⟨t.hold key none, t.advance key⟩ := rfl

/-- Another session under one key. -/
theorem size_hold (t : SessionMap σ) (key : UInt16) (session : Option σ) (seq : UInt16 → UInt16) :
    (⟨t.hold key session, seq⟩ : SessionMap σ).size + (t.held key).isSome.toNat =
      t.size + session.isSome.toNat := by
  have own : UInt16.ofNat key.toNat = key := UInt16.ofNat_toNat
  have inside : key.toNat ∈ List.range 65536 := List.mem_range.mpr key.toNat_lt
  have moved := countP_update (p := fun i => (t.hold key session (UInt16.ofNat i)).isSome)
    (q := fun i => (t.held (UInt16.ofNat i)).isSome) List.nodup_range inside fun i member apart => by
      have other : UInt16.ofNat i ≠ key := by
        intro same
        apply apart
        rw [← same, UInt16.toNat_ofNat_of_lt' (List.mem_range.mp member)]
      simp only [hold, if_neg other]
  simpa only [size, own, hold, if_pos] using moved

theorem size_put_empty {t : SessionMap σ} {key : UInt16} (none' : t.held key = none) (session : σ) :
    (t.step (.put key session)).size = t.size + 1 := by
  have sized := t.size_hold key (some session) t.seq
  rw [← step_put, none'] at sized
  -- over any numbers: the sizes are not to be evaluated
  have one : ∀ a b : Nat, a + (none : Option σ).isSome.toNat = b + (some session).isSome.toNat → a = b + 1 :=
    fun a b same => same
  exact one _ _ sized

theorem size_put_held {t : SessionMap σ} {key : UInt16} {other : σ} (held : t.held key = some other) (session : σ) :
    (t.step (.put key session)).size = t.size := by
  have sized := t.size_hold key (some session) t.seq
  rw [← step_put, held] at sized
  exact Nat.succ.inj sized

theorem size_remove {t : SessionMap σ} {key : UInt16} {session : σ} (held : t.held key = some session) :
    (t.step (.remove key)).size + 1 = t.size := by
  have sized := t.size_hold key none (t.advance key)
  rw [← step_remove, held] at sized
  have one : ∀ a b : Nat, a + (some session).isSome.toNat = b + (none : Option σ).isSome.toNat → a + 1 = b :=
    fun a b same => same
  exact one _ _ sized

/-- A map is known by its answers. -/
theorem ext_answers {t u : SessionMap σ} (answers : ∀ op, t.answer op = u.answer op) : t = u := by
  have held : t.held = u.held := by
    funext key
    exact congrArg Prod.fst (answers (.get key))
  have seq : t.seq = u.seq := by
    funext key
    exact Option.some.inj (congrArg Prod.snd (answers (.get key)))
  cases t
  cases u
  cases held
  cases seq
  rfl

end SessionMap

namespace SessionManager

variable {σ : Type}

def step (m : SessionManager σ) : SessionOp σ → SessionManager σ
  | .put key session => (m.put key session).1
  | .get _ => m
  | .remove key => (m.remove key).1

/-- What a call answers: the session returned and the sequence number given. -/
def answer (m : SessionManager σ) : SessionOp σ → Option σ × Option UInt16
  | .put key session => (none, some (m.put key session).2)
  | .get key => ((m.get key).1, some (m.get key).2)
  | .remove key => ((m.remove key).2, none)

/-- The map the table stands for. -/
def table (m : SessionManager σ) : SessionMap σ := ⟨fun key => (m.entry key).mSession, fun key => (m.entry key).mSeq⟩

theorem answer_eq (m : SessionManager σ) (op : SessionOp σ) : m.answer op = m.table.answer op := by
  cases op with
  | put key session => rfl
  | get key => rw [answer, get_eq, SessionMap.answer, table]
  | remove key => rw [answer, remove_snd, SessionMap.answer, table]

@[simp] theorem table_init : (init : SessionManager σ).table = SessionMap.empty := rfl

/-- `remove` does nothing to a row that was never allocated. -/
theorem remove_unallocated {m : SessionManager σ} {key : UInt16} (missing : ¬ m.Allocated key) :
    (m.remove key).1 = m := by
  have row : m.mArray (row key) = none := Option.not_isSome_iff_eq_none.mp missing
  simp only [remove, row]

/-- What `remove` does to the table once the row of the key is there. -/
theorem entry_remove {m : SessionManager σ} {key : UInt16} (allocated : m.Allocated key) (k : UInt16) :
    (m.remove key).1.entry k = if k = key then ⟨(m.entry key).mSeq + 1, none⟩ else m.entry k := by
  obtain ⟨list, found⟩ := Option.isSome_iff_exists.mp allocated
  have own : list (col key) = m.entry key := by rw [entry, found, Option.getD_some]
  have written := entry_write m key k ⟨(list (col key)).mSeq + 1, none⟩ (m.mCount - 1)
  simp only [remove, found] at written ⊢
  rw [Option.getD_some] at written
  rw [written, own]

theorem entry_unallocated {m : SessionManager σ} {key : UInt16} (missing : ¬ m.Allocated key) :
    m.entry key = ⟨0, none⟩ := by
  have row : m.mArray (row key) = none := Option.not_isSome_iff_eq_none.mp missing
  rw [entry, row]
  rfl

theorem table_put (m : SessionManager σ) (key : UInt16) (session : σ) :
    (m.put key session).1.table = m.table.step (.put key session) := by
  simp only [table, SessionMap.step, entry_put, SessionMap.mk.injEq]
  constructor
  · funext k
    rw [SessionMap.hold, apply_ite SessionEntry.mSession]
  · funext k
    split
    case isTrue same => rw [same]
    case isFalse => rfl

/-- `remove` of a key that holds a session. -/
theorem table_remove {m : SessionManager σ} {key : UInt16} {session : σ}
    (held : (m.entry key).mSession = some session) (allocated : m.Allocated key) :
    (m.remove key).1.table = m.table.step (.remove key) := by
  simp only [table, SessionMap.step, entry_remove allocated, SessionMap.advance, held, SessionMap.mk.injEq]
  constructor
  · funext k
    rw [SessionMap.hold, apply_ite SessionEntry.mSession]
  · funext k
    rw [apply_ite SessionEntry.mSeq]

/-- Taking away what is not there changes nothing in the map. -/
theorem table_step_empty {m : SessionManager σ} {key : UInt16} (none' : (m.entry key).mSession = none) :
    m.table.step (.remove key) = m.table := by
  simp only [table, SessionMap.step, SessionMap.advance, none', SessionMap.mk.injEq, and_true]
  funext k
  rw [SessionMap.hold]
  split
  case isTrue same => rw [same, none']
  case isFalse => rfl

/-- A key that holds a session has its row. -/
theorem allocated_of_held {m : SessionManager σ} {key : UInt16}
    (held : (m.entry key).mSession ≠ none) : m.Allocated key := by
  apply Classical.byContradiction
  intro missing
  rw [entry_unallocated missing] at held
  exact held rfl

/-- The sessions of the table are those of the map after any call. -/
theorem held_step (m : SessionManager σ) (op : SessionOp σ) (t : SessionMap σ) (same : m.table.held = t.held) :
    (m.step op).table.held = (t.step op).held := by
  have here : ∀ k, (m.entry k).mSession = t.held k := congrFun same
  funext k
  cases op with
  | put key session =>
    rw [step, table_put]
    simp only [SessionMap.step, SessionMap.hold, same]
  | get key => exact here k
  | remove key =>
    change ((m.remove key).1.entry k).mSession = if k = key then none else t.held k
    rw [mSession_remove, here]

/-- **The sessions are always those of the map**, whatever is put or removed. -/
theorem held_run (ops : List (SessionOp σ)) :
    (ops.foldl step init).table.held = (ops.foldl SessionMap.step SessionMap.empty).held :=
  List.foldl_rel (r := fun (m : SessionManager σ) t => m.table.held = t.held) rfl
    fun op _ m t same => held_step m op t same

/-- The table answers every call as the map does and counts its sessions. -/
structure CountedMap (m : SessionManager σ) (t : SessionMap σ) : Prop where
  answers : ∀ op, m.answer op = t.answer op
  count : m.getCount = t.size

/-- A call that leaves the counter right: `put` on an empty key, `remove` of a held one or of
one whose row was never allocated. -/
def Balanced (m : SessionManager σ) : SessionOp σ → Prop
  | .put key _ => (m.entry key).mSession = none
  | .get _ => True
  | .remove key => (m.entry key).mSession ≠ none ∨ ¬ m.Allocated key

theorem countedMap_iff {m : SessionManager σ} {t : SessionMap σ} :
    CountedMap m t ↔ m.table = t ∧ m.getCount = t.size := by
  constructor
  · rintro ⟨answers, count⟩
    refine ⟨SessionMap.ext_answers fun op => ?_, count⟩
    rw [← answer_eq, answers]
  · rintro ⟨rfl, count⟩
    exact ⟨answer_eq m, count⟩

/-- A `put` keeps the counter right exactly on an empty key. -/
theorem countedMap_put {m : SessionManager σ} (count : m.getCount = m.table.size) (key : UInt16) (session : σ) :
    CountedMap (m.put key session).1 (m.table.step (.put key session)) ↔ (m.entry key).mSession = none := by
  rw [countedMap_iff, and_iff_right (table_put m key session), getCount_put, count]
  cases occupied : (m.entry key).mSession with
  | none =>
    have grown := SessionMap.size_put_empty (t := m.table) occupied session
    exact iff_of_true (by rw [grown]; rfl) rfl
  | some other =>
    have same := SessionMap.size_put_held (t := m.table) occupied session
    refine iff_of_false ?_ (Option.some_ne_none other)
    rw [same]
    omega

/-- A `remove` keeps the counter right exactly on a held key or where no row is. -/
theorem countedMap_remove {m : SessionManager σ} (count : m.getCount = m.table.size) (key : UInt16) :
    CountedMap (m.remove key).1 (m.table.step (.remove key)) ↔
      (m.entry key).mSession ≠ none ∨ ¬ m.Allocated key := by
  cases held : (m.entry key).mSession with
  | some session =>
    have allocated : m.Allocated key := allocated_of_held (by rw [held]; exact Option.some_ne_none session)
    have shrunk := SessionMap.size_remove (t := m.table) held
    refine iff_of_true (countedMap_iff.mpr ⟨table_remove held allocated, ?_⟩) (.inl (Option.some_ne_none session))
    rw [getCount_remove allocated, count]
    omega
  | none =>
    rw [table_step_empty held]
    by_cases allocated : m.Allocated key
    · refine iff_of_false (fun counted => ?_) (not_or.mpr ⟨fun some' => some' rfl, fun missing => missing allocated⟩)
      have miscount := counted.count
      rw [getCount_remove allocated, count] at miscount
      omega
    · rw [remove_unallocated allocated]
      exact iff_of_true (countedMap_iff.mpr ⟨rfl, count⟩) (.inr allocated)

/-- One call keeps table and map in step exactly when it is balanced. -/
theorem countedMap_step (m : SessionManager σ) (t : SessionMap σ) (op : SessionOp σ) (counted : CountedMap m t) :
    CountedMap (m.step op) (t.step op) ↔ m.Balanced op := by
  obtain ⟨rfl, count⟩ := countedMap_iff.mp counted
  cases op with
  | get key => exact iff_of_true counted trivial
  | put key session => exact countedMap_put count key session
  | remove key => exact countedMap_remove count key

/-- The states of table and map side by side. -/
def sideBySide (both : SessionManager σ × SessionMap σ) (op : SessionOp σ) : SessionManager σ × SessionMap σ :=
  (both.1.step op, both.2.step op)

theorem countedMap_init : CountedMap (init : SessionManager σ) SessionMap.empty :=
  countedMap_iff.mpr ⟨table_init, by rw [SessionMap.size_empty]; rfl⟩

/-- **The table is a counted map throughout exactly the histories of balanced calls.** -/
theorem counted_map_iff (ops : List (SessionOp σ)) :
    Lib.Throughout sideBySide (fun both => CountedMap both.1 both.2) (init, SessionMap.empty) ops ↔
      Lib.EachMeets step Balanced init ops := by
  have steps : Lib.Throughout sideBySide (fun both => CountedMap both.1 both.2) (init, SessionMap.empty) ops ↔
      Lib.EachMeets sideBySide (fun both => Balanced both.1) (init, SessionMap.empty) ops := by
    apply Lib.throughout_iff (I := fun _ => True)
    · exact countedMap_init
    · trivial
    · intros
      trivial
    · intro both op counted _
      exact countedMap_step both.1 both.2 op counted
  exact steps.trans (Lib.eachMeets_map Prod.fst fun both op => rfl)

/-- A session removed a second time is counted down a second time. -/
theorem counted_twice : ¬ ∀ ops : List (SessionOp Nat),
    Lib.Throughout sideBySide (fun both => CountedMap both.1 both.2) (init, SessionMap.empty) ops := by
  intro always
  have state := always [.put 5 1, .remove 5, .remove 5] _ (List.prefix_refl _)
  have down : (-1 : Int) = _ := state.count
  omega

end SessionManager

end GreatEvent
