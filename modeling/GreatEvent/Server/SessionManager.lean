/-!
# `SessionManager`: the table of sessions

A session is found by its socket: 64 rows of 1024 entries, a row allocated
when its first session is put. `mCount` decides the connection limit.
-/

namespace GreatEvent

/-- `SessionEntry` -/
structure SessionEntry (σ : Type) where
  mSeq : UInt16
  mSession : Option σ

/-- `SessionManager` over pointers `σ` to sessions. -/
structure SessionManager (σ : Type) where
  mCount : Int
  mArray : Fin 64 → Option (Fin 1024 → SessionEntry σ)

namespace SessionManager

variable {σ : Type}

/-- `SessionManager()` -/
def init : SessionManager σ := ⟨0, fun _ => none⟩

/-- `key / 1024` -/
def row (key : UInt16) : Fin 64 := ⟨key.toNat / 1024, by have := key.toNat_lt; omega⟩

/-- `key % 1024` -/
def col (key : UInt16) : Fin 1024 := ⟨key.toNat % 1024, Nat.mod_lt _ (by decide)⟩

/-- A row as `calloc` gives it. -/
def callocRow : Fin 1024 → SessionEntry σ := fun _ => ⟨0, none⟩

def setRow (mArray : Fin 64 → Option (Fin 1024 → SessionEntry σ)) (r : Fin 64)
    (list : Fin 1024 → SessionEntry σ) : Fin 64 → Option (Fin 1024 → SessionEntry σ) :=
  fun i => if i = r then some list else mArray i

def setEntry (list : Fin 1024 → SessionEntry σ) (c : Fin 1024) (entry : SessionEntry σ) :
    Fin 1024 → SessionEntry σ :=
  fun i => if i = c then entry else list i

/-- `getCount` -/
def getCount (m : SessionManager σ) : Int := m.mCount

/-- `put`, with the number it leaves in `*seq`. -/
def put (m : SessionManager σ) (key : UInt16) (session : σ) : SessionManager σ × UInt16 :=
  let list := (m.mArray (row key)).getD callocRow
  let mSeq := (list (col key)).mSeq
  (⟨m.mCount + 1, setRow m.mArray (row key) (setEntry list (col key) ⟨mSeq, some session⟩)⟩, mSeq)

/-- `get`, with the number it leaves in `*seq`. -/
def get (m : SessionManager σ) (key : UInt16) : Option σ × UInt16 :=
  match m.mArray (row key) with
  | some list => ((list (col key)).mSession, (list (col key)).mSeq)
  | none => (none, 0)

/-- `remove` -/
def remove (m : SessionManager σ) (key : UInt16) : SessionManager σ × Option σ :=
  match m.mArray (row key) with
  | some list =>
    let entry := list (col key)
    (⟨m.mCount - 1, setRow m.mArray (row key) (setEntry list (col key) ⟨entry.mSeq + 1, none⟩)⟩,
      entry.mSession)
  | none => (m, none)

/-- The entry of a key; a row not allocated counts as zeroes. -/
def entry (m : SessionManager σ) (key : UInt16) : SessionEntry σ :=
  ((m.mArray (row key)).getD callocRow) (col key)

theorem get_eq (m : SessionManager σ) (key : UInt16) :
    m.get key = ((m.entry key).mSession, (m.entry key).mSeq) := by
  unfold get entry
  cases m.mArray (row key) <;> rfl

/-- A key is given by its row and column. -/
theorem key_ext {a b : UInt16} (rows : row a = row b) (cols : col a = col b) : a = b := by
  have div : a.toNat / 1024 = b.toNat / 1024 := congrArg Fin.val rows
  have mod : a.toNat % 1024 = b.toNat % 1024 := congrArg Fin.val cols
  apply UInt16.toNat_inj.mp
  omega

/-- Writing one entry of an allocated row changes this entry only. -/
theorem entry_write (m : SessionManager σ) (key k : UInt16) (e : SessionEntry σ) (count : Int) :
    entry ⟨count, setRow m.mArray (row key) (setEntry ((m.mArray (row key)).getD callocRow) (col key) e)⟩ k =
      if k = key then e else m.entry k := by
  simp only [entry, setRow]
  by_cases rows : row k = row key
  · rw [if_pos rows, Option.getD_some, setEntry]
    by_cases cols : col k = col key
    · rw [if_pos (key_ext rows cols), if_pos cols]
    · rw [if_neg fun same => cols (congrArg col same), if_neg cols, rows]
  · rw [if_neg fun same => rows (congrArg row same), if_neg rows]

/-- What `put` does to the table. -/
theorem entry_put (m : SessionManager σ) (key k : UInt16) (session : σ) :
    (m.put key session).1.entry k = if k = key then ⟨(m.entry key).mSeq, some session⟩ else m.entry k :=
  entry_write m key k _ _

/-- What `remove` does to the sessions of the table. -/
theorem mSession_remove (m : SessionManager σ) (key k : UInt16) :
    ((m.remove key).1.entry k).mSession = if k = key then none else (m.entry k).mSession := by
  cases found : m.mArray (row key) with
  | none =>
    simp only [remove, found]
    split
    case isTrue same =>
      subst same
      simp only [entry, found]
      rfl
    case isFalse => rfl
  | some list =>
    simp only [remove, found]
    have written := entry_write m key k ⟨(list (col key)).mSeq + 1, none⟩ (m.mCount - 1)
    rw [found] at written
    have sessions := congrArg SessionEntry.mSession written
    rw [apply_ite SessionEntry.mSession] at sessions
    exact sessions

/-- `remove` returns the session of the key. -/
theorem remove_snd (m : SessionManager σ) (key : UInt16) : (m.remove key).2 = (m.entry key).mSession := by
  unfold remove entry
  cases m.mArray (row key) <;> rfl

@[simp] theorem entry_init (key : UInt16) : (init : SessionManager σ).entry key = ⟨0, none⟩ := rfl

/-- The row of a key has been allocated. -/
def Allocated (m : SessionManager σ) (key : UInt16) : Prop := (m.mArray (row key)).isSome = true

theorem setRow_isSome {mArray : Fin 64 → Option (Fin 1024 → SessionEntry σ)} {i : Fin 64} (r : Fin 64)
    (list : Fin 1024 → SessionEntry σ) (allocated : (mArray i).isSome = true) :
    (setRow mArray r list i).isSome = true := by
  unfold setRow
  split
  · rfl
  · exact allocated

theorem allocated_put (m : SessionManager σ) (key : UInt16) (session : σ) :
    (m.put key session).1.Allocated key := by
  simp only [Allocated, SessionManager.put, setRow, if_pos, Option.isSome_some]

theorem Allocated.put {m : SessionManager σ} {k : UInt16} (allocated : m.Allocated k) (key : UInt16)
    (session : σ) : (m.put key session).1.Allocated k :=
  setRow_isSome _ _ allocated

theorem Allocated.remove {m : SessionManager σ} {k : UInt16} (allocated : m.Allocated k) (key : UInt16) :
    (m.remove key).1.Allocated k := by
  unfold SessionManager.remove
  split
  · exact setRow_isSome _ _ allocated
  · exact allocated

@[simp] theorem getCount_put (m : SessionManager σ) (key : UInt16) (session : σ) :
    (m.put key session).1.getCount = m.getCount + 1 := rfl

/-- `remove` counts down once the row of the key is there. -/
theorem getCount_remove {m : SessionManager σ} {key : UInt16} (allocated : m.Allocated key) :
    (m.remove key).1.getCount = m.getCount - 1 := by
  obtain ⟨list, found⟩ := Option.isSome_iff_exists.mp allocated
  simp only [remove, found, getCount]

end SessionManager

end GreatEvent
