import GreatEvent.Lib.Bytes
import GreatEvent.Lib.Histories
import GreatEvent.Lib.Ring

/-!
# `SP_CircleQueue`: a queue in a ring that grows

`push` into a full ring unrolls it into a larger array. The new size is
computed in 32 bits, `mMaxCount * 3 / 2 + 1`, and wraps around at the
forty-seventh growth, from 1796357450 entries to 547052528: the copy then runs
past the new array. Up to there the queue is first in, first out.
-/

namespace GreatEvent

open Lib

/-- `SP_CircleQueue` of pointers `α`; a cell nothing has been stored in is `none`. -/
structure CircleQueue (α : Type) where
  mEntries : List (Option α)
  mHead : Nat
  mTail : Nat
  mCount : Nat
  mMaxCount : Nat

/-- The calls that change the queue. -/
inductive QueueOp (α : Type) where
  | push (item : α)
  | pop

namespace CircleQueue

variable {α : Type}

/-- `SP_CircleQueue()` -/
def init : CircleQueue α := ⟨List.replicate 8 none, 0, 0, 0, 8⟩

/-- `( mMaxCount * 3 ) / 2 + 1` in `unsigned int`. -/
def nextSize (mMaxCount : Nat) : Nat := mMaxCount * 3 % 2 ^ 32 / 2 + 1

/-- A difference in `unsigned int`. -/
def minus (a b : Nat) : Nat := (a + (2 ^ 32 - b)) % 2 ^ 32

/-- The first part of `push`: a full ring is copied into a larger array, in two pieces where it goes
around the end. `none` if a piece is not inside the arrays. -/
def grow (c : CircleQueue α) : Option (CircleQueue α) :=
  let mMaxCount := nextSize c.mMaxCount
  let newEntries := List.replicate mMaxCount none
  let headLen := if c.mHead < c.mTail then c.mTail - c.mHead else minus c.mCount c.mTail
  let tailLen := if c.mHead < c.mTail then 0 else c.mTail
  if c.mHead + headLen ≤ c.mEntries.length ∧ headLen ≤ mMaxCount then
    let newEntries := poke newEntries 0 ((c.mEntries.drop c.mHead).take headLen)
    if tailLen = 0 ∨ tailLen ≤ c.mEntries.length ∧ headLen + tailLen ≤ mMaxCount then
      let newEntries := poke newEntries headLen (c.mEntries.take tailLen)
      some ⟨newEntries, 0, headLen + tailLen, c.mCount, mMaxCount⟩
    else none
  else none

/-- The second part of `push`: the item is stored at `mTail`. -/
def store (c : CircleQueue α) (item : α) : Option (CircleQueue α) :=
  if c.mTail < c.mEntries.length then
    some { c with
      mEntries := c.mEntries.set c.mTail (some item)
      mTail := (c.mTail + 1) % c.mMaxCount
      mCount := (c.mCount + 1) % 2 ^ 32 }
  else none

/-- `push`; `none` if it accesses memory outside the arrays. -/
def push (c : CircleQueue α) (item : α) : Option (CircleQueue α) :=
  if c.mMaxCount ≤ c.mCount then c.grow.bind fun grown => grown.store item else c.store item

/-- `pop`; where nothing has been stored it reads `none`. -/
def pop (c : CircleQueue α) : CircleQueue α × Option α :=
  if 0 < c.mCount then
    ({ c with mHead := (c.mHead + 1) % c.mMaxCount, mCount := c.mCount - 1 }, c.mEntries.getD c.mHead none)
  else (c, none)

/-- `top` -/
def top (c : CircleQueue α) : Option α := if 0 < c.mCount then c.mEntries.getD c.mHead none else none

/-- `getLength`: `mCount` as an `int`. -/
def getLength (c : CircleQueue α) : Int := (c.mCount : Int).bmod (2 ^ 32)

def step (c : Option (CircleQueue α)) : QueueOp α → Option (CircleQueue α)
  | .push item => c.bind fun c => c.push item
  | .pop => c.map fun c => c.pop.1

/-- The size of the ring after `k` growths. -/
def sizeAt : Nat → Nat
  | 0 => 8
  | k + 1 => nextSize (sizeAt k)

/-- The size from which the next one wraps around. -/
def largest : Nat := 1796357450

theorem sizeAt_largest : sizeAt 47 = largest := by decide +kernel

/-- A growth short of the largest size makes room. -/
theorem sizeAt_lt : ∀ k, k < 47 → sizeAt k < largest ∧ sizeAt k < sizeAt (k + 1) := by decide +kernel

theorem nextSize_largest : nextSize largest < largest := by decide

/-- The ring holds the items of the queue `q`, and its size is one it grows to. -/
structure Inner (c : CircleQueue α) (q : List α) : Prop where
  sized : c.mEntries.length = c.mMaxCount
  size : ∃ k ≤ 47, c.mMaxCount = sizeAt k
  head : c.mHead < c.mMaxCount
  count : c.mCount = q.length
  within : c.mCount ≤ c.mMaxCount
  tail : c.mTail = (c.mHead + c.mCount) % c.mMaxCount
  items : window c.mEntries c.mHead c.mCount = q.map some

theorem inner_init : Inner (init : CircleQueue α) [] where
  sized := rfl
  size := ⟨0, by decide, rfl⟩
  head := show 0 < 8 by decide
  count := rfl
  within := show 0 ≤ 8 by decide
  tail := rfl
  items := rfl

theorem Inner.le_largest {c : CircleQueue α} {q : List α} (inner : Inner c q) : c.mMaxCount ≤ largest := by
  obtain ⟨k, bound, size⟩ := inner.size
  rw [size]
  rcases Nat.lt_or_eq_of_le bound with less | rfl
  · exact Nat.le_of_lt (sizeAt_lt k less).1
  · exact Nat.le_of_eq sizeAt_largest

/-- Short of the largest size the next one is larger. -/
theorem Inner.next {c : CircleQueue α} {q : List α} (inner : Inner c q) (short : c.mMaxCount ≠ largest) :
    c.mMaxCount < nextSize c.mMaxCount ∧ ∃ k ≤ 47, nextSize c.mMaxCount = sizeAt k := by
  obtain ⟨k, bound, size⟩ := inner.size
  have less : k < 47 := Nat.lt_of_le_of_ne bound fun last => short (by rw [size, last, sizeAt_largest])
  rw [size]
  exact ⟨(sizeAt_lt k less).2, k + 1, less, rfl⟩

/-- **An item is stored where there is room.** -/
theorem Inner.store {c : CircleQueue α} {q : List α} (inner : Inner c q) (room : c.mCount < c.mMaxCount) (item : α) :
    ∃ c', c.store item = some c' ∧ Inner c' (q ++ [item]) := by
  have small := inner.le_largest
  have pos : 0 < c.mMaxCount := Nat.zero_lt_of_lt room
  have inside : c.mTail < c.mEntries.length := by
    rw [inner.sized, inner.tail]
    exact Nat.mod_lt _ pos
  have count : (c.mCount + 1) % 2 ^ 32 = c.mCount + 1 := Nat.mod_eq_of_lt (by rw [largest] at small; omega)
  have filled := window_push c.mHead (some item) (inner.sized ▸ room)
  rw [inner.sized, ← inner.tail, inner.items] at filled
  rw [CircleQueue.store, if_pos inside, count]
  refine ⟨_, rfl, ⟨?_, inner.size, inner.head, ?_, room, ?_, ?_⟩⟩
  · rw [List.length_set, inner.sized]
  · rw [List.length_append, inner.count, List.length_singleton]
  · rw [inner.tail, Nat.mod_add_mod, Nat.add_assoc]
  · rw [filled, List.map_append, List.map_singleton]

/-- **A full ring is unrolled into a larger one.** -/
theorem Inner.grow {c : CircleQueue α} {q : List α} (inner : Inner c q) (full : c.mMaxCount ≤ c.mCount)
    (short : c.mMaxCount ≠ largest) : ∃ c', c.grow = some c' ∧ Inner c' q ∧ c'.mCount < c'.mMaxCount := by
  obtain ⟨more, size⟩ := inner.next short
  have small := inner.le_largest
  have head := inner.head
  have sized := inner.sized
  have count : c.mCount = c.mMaxCount := Nat.le_antisymm inner.within full
  have tail : c.mTail = c.mHead := by rw [inner.tail, count, Nat.add_mod_right, Nat.mod_eq_of_lt head]
  have headLen : minus c.mCount c.mHead = c.mMaxCount - c.mHead := by
    rw [largest] at small
    rw [minus]
    omega
  have pieces : c.mMaxCount - c.mHead + c.mHead = c.mMaxCount := by omega
  have first : (c.mEntries.drop c.mHead).take (c.mMaxCount - c.mHead) = c.mEntries.drop c.mHead :=
    List.take_of_length_le (by rw [List.length_drop, sized])
  have firstLen : (c.mEntries.drop c.mHead).length = c.mMaxCount - c.mHead := by rw [List.length_drop, sized]
  have whole := window_full (show c.mHead ≤ c.mEntries.length by omega)
  rw [sized, ← count, inner.items] at whole
  rw [CircleQueue.grow]
  simp only [tail, Nat.lt_irrefl, if_false, headLen, first]
  rw [if_pos (by omega), if_pos (.inr (by omega)), poke_zero, firstLen, ← firstLen, poke_append_right,
    ← List.append_assoc, ← whole, firstLen, pieces]
  refine ⟨_, rfl, ⟨?_, size, by dsimp only; omega, inner.count, by dsimp only; omega, ?_, ?_⟩, by dsimp only; omega⟩
  · simp only [List.length_append, List.length_map, List.length_drop, List.length_replicate, List.length_take]
    rw [← inner.count]
    omega
  · dsimp only
    rw [Nat.zero_add, count, Nat.mod_eq_of_lt more]
  · exact window_start (by rw [List.length_map, inner.count])

/-- At the largest size the ring outgrows the array it is copied to. -/
theorem Inner.grow_largest {c : CircleQueue α} {q : List α} (inner : Inner c q) (full : c.mCount = largest) :
    c.grow = none := by
  have last : c.mMaxCount = largest := Nat.le_antisymm inner.le_largest (full ▸ inner.within)
  have head := inner.head
  have tail : c.mTail = c.mHead := by
    rw [inner.tail, full, last, Nat.add_mod_right, Nat.mod_eq_of_lt (last ▸ head)]
  have headLen : minus c.mCount c.mHead = largest - c.mHead := by
    rw [full, minus]
    rw [last, largest] at head
    rw [largest]
    omega
  have less := nextSize_largest
  rw [CircleQueue.grow]
  simp only [tail, Nat.lt_irrefl, if_false, headLen, last]
  split
  case isTrue inside =>
    rw [last] at head
    exact if_neg (by omega)
  case isFalse => rfl

theorem Inner.push {c : CircleQueue α} {q : List α} (inner : Inner c q) (short : c.mCount ≠ largest) (item : α) :
    ∃ c', c.push item = some c' ∧ Inner c' (q ++ [item]) := by
  by_cases full : c.mMaxCount ≤ c.mCount
  · have count : c.mCount = c.mMaxCount := Nat.le_antisymm inner.within full
    obtain ⟨grown, grow, inner', room⟩ := inner.grow full (count ▸ short)
    rw [CircleQueue.push, if_pos full, grow, Option.bind_some]
    exact inner'.store room item
  · rw [CircleQueue.push, if_neg full]
    exact inner.store (Nat.lt_of_not_le full) item

theorem Inner.push_largest {c : CircleQueue α} {q : List α} (inner : Inner c q) (full : c.mCount = largest) (item : α) :
    c.push item = none := by
  have atMax : c.mMaxCount ≤ c.mCount := full ▸ inner.le_largest
  rw [CircleQueue.push, if_pos atMax, inner.grow_largest full, Option.bind_none]

/-- The item at the head of the ring is the first of the queue. -/
theorem Inner.getD_head {c : CircleQueue α} {q : List α} (inner : Inner c q) (some' : 0 < c.mCount) :
    c.mEntries.getD c.mHead none = q.head? := by
  have inside : c.mHead < c.mEntries.length := inner.sized ▸ inner.head
  have first := head?_window inside some'
  rw [inner.items, List.head?_map] at first
  rw [List.getD_eq_getElem?_getD, ← first]
  cases q.head? <;> rfl

theorem Inner.empty {c : CircleQueue α} {q : List α} (inner : Inner c q) (none' : ¬ 0 < c.mCount) : q = [] :=
  List.eq_nil_of_length_eq_zero (by have := inner.count; omega)

theorem Inner.pop {c : CircleQueue α} {q : List α} (inner : Inner c q) : Inner c.pop.1 q.tail := by
  unfold CircleQueue.pop
  split
  case isTrue some' =>
    have popped := window_pop c.mHead (inner.sized ▸ inner.within)
    rw [inner.sized, inner.items] at popped
    have pos : 0 < c.mMaxCount := Nat.zero_lt_of_lt inner.head
    refine ⟨inner.sized, inner.size, Nat.mod_lt _ pos, ?_, Nat.le_trans (Nat.sub_le _ _) inner.within, ?_, ?_⟩
    · rw [List.length_tail, inner.count]
    · have moved : c.mHead + 1 + (c.mCount - 1) = c.mHead + c.mCount := by omega
      rw [inner.tail, Nat.mod_add_mod, moved]
    · rw [popped, List.map_tail]
  case isFalse none' =>
    have nothing := inner.empty none'
    subst nothing
    exact inner

/-- What the callers of the queue see, and the shape of its ring. -/
structure Fifo (c : CircleQueue α) (q : List α) : Prop where
  top : c.top = q.head?
  pop : c.pop.2 = q.head?
  length : c.getLength = q.length
  head : c.mHead < c.mMaxCount
  tail : c.mTail < c.mMaxCount
  count : c.mCount ≤ c.mMaxCount
  around : (c.mHead + c.mCount) % c.mMaxCount = c.mTail

theorem asInt_small {n : Nat} (small : n ≤ largest) : (n : Int).bmod (2 ^ 32) = n := by
  rw [largest] at small
  have low : -((2 ^ 32 : Nat) : Int) ≤ (n : Int) * 2 := by omega
  have high : (n : Int) * 2 < ((2 ^ 32 : Nat) : Int) := by omega
  exact Int.bmod_eq_of_le_mul_two low high

theorem Inner.fifo {c : CircleQueue α} {q : List α} (inner : Inner c q) : Fifo c q := by
  have small := inner.le_largest
  have within := inner.within
  have shown : (if 0 < c.mCount then c.mEntries.getD c.mHead none else none) = q.head? := by
    split
    case isTrue some' => exact inner.getD_head some'
    case isFalse none' => rw [inner.empty none', List.head?_nil]
  refine ⟨shown, ?_, ?_, inner.head, ?_, within, inner.tail.symm⟩
  · rw [← shown, CircleQueue.pop, apply_ite Prod.snd]
  · rw [← inner.count]
    exact asInt_small (Nat.le_trans within small)
  · rw [inner.tail]
    exact Nat.mod_lt _ (Nat.zero_lt_of_lt inner.head)

/-- The calls on a queue of items. -/
def queueStep (q : List α) : QueueOp α → List α
  | .push item => q ++ [item]
  | .pop => q.tail

/-- Ring and queue side by side. -/
def sideBySide (both : Option (CircleQueue α) × List α) (op : QueueOp α) : Option (CircleQueue α) × List α :=
  (step both.1 op, queueStep both.2 op)

/-- The ring is there and is the queue. -/
def IsFifo (both : Option (CircleQueue α) × List α) : Prop := ∃ c, both.1 = some c ∧ Fifo c both.2

/-- A `push` does not find the ring at its largest and full. -/
def Spacious (c : Option (CircleQueue α)) : QueueOp α → Prop
  | .push _ => ∀ d, c = some d → d.mCount ≠ largest
  | .pop => True

/-- One call, from a ring in which the items lie as they should. -/
theorem Inner.step {c : CircleQueue α} {q : List α} (inner : Inner c q) {op : QueueOp α} (spacious : Spacious (some c) op) :
    ∃ c', CircleQueue.step (some c) op = some c' ∧ Inner c' (queueStep q op) := by
  cases op with
  | push item => exact inner.push (spacious c rfl) item
  | pop => exact ⟨c.pop.1, rfl, inner.pop⟩

/-- A call that is carried out has found room. -/
theorem Inner.spacious {c c' : CircleQueue α} {q : List α} (inner : Inner c q) {op : QueueOp α}
    (there : CircleQueue.step (some c) op = some c') : Spacious (some c) op := by
  cases op with
  | push item =>
    rintro _ ⟨⟩ full
    rw [CircleQueue.step, Option.bind_some, inner.push_largest full] at there
    cases there
  | pop => trivial

/-- The items lie in the ring as they should. -/
def Sorted (both : Option (CircleQueue α) × List α) : Prop := ∃ c, both.1 = some c ∧ Inner c both.2

theorem sorted_step (both : Option (CircleQueue α) × List α) (op : QueueOp α) (sorted : Sorted both)
    (after : IsFifo (sideBySide both op)) : Sorted (sideBySide both op) := by
  obtain ⟨_, q⟩ := both
  obtain ⟨c, rfl, inner⟩ := sorted
  obtain ⟨c', there, -⟩ := after
  exact inner.step (inner.spacious there)

/-- The ring is the queue throughout exactly the histories whose calls find room. -/
theorem isFifo_iff (ops : List (QueueOp α)) :
    Throughout sideBySide IsFifo (some init, []) ops ↔
      EachMeets sideBySide (fun both => Spacious both.1) (some init, []) ops := by
  apply throughout_iff (I := Sorted)
  · exact ⟨init, rfl, inner_init.fifo⟩
  · exact ⟨init, rfl, inner_init⟩
  · intro both op _ sorted after
    exact sorted_step both op sorted after
  · rintro ⟨_, q⟩ op - ⟨c, rfl, inner⟩
    constructor
    · rintro ⟨c', there, -⟩
      exact inner.spacious there
    · intro spacious
      obtain ⟨c', there, inner'⟩ := inner.step spacious
      exact ⟨c', there, inner'.fifo⟩

/-- **`SP_CircleQueue` is first in, first out** throughout exactly the histories in which no `push`
finds 1796357450 items. -/
theorem circle_queue_iff (ops : List (QueueOp α)) :
    Throughout sideBySide IsFifo (some init, []) ops ↔ EachMeets step Spacious (some init) ops :=
  (isFifo_iff ops).trans (eachMeets_map Prod.fst fun _ _ => rfl)

theorem foldl_pushes (item : α) (n : Nat) (both : Option (CircleQueue α) × List α) :
    ((List.replicate n (QueueOp.push item)).foldl sideBySide both).2 = both.2 ++ List.replicate n item := by
  induction n generalizing both with
  | zero => exact (List.append_nil _).symm
  | succ n ih =>
    rw [List.replicate_succ, List.foldl_cons, ih, List.replicate_succ]
    exact List.append_assoc _ [item] _

/-- One more `push` than the largest ring has entries. -/
theorem pushed_over : ¬ ∀ ops : List (QueueOp Nat), Throughout sideBySide IsFifo (some init, []) ops := by
  intro always
  have front : List.replicate largest (QueueOp.push 7) ++ [.push 7] <+: List.replicate (largest + 1) (.push 7) := by
    rw [← List.replicate_succ']
  have all := always (List.replicate (largest + 1) (.push 7))
  have room := (isFifo_iff _).mp all _ _ front
  have sorted := all.inv ⟨init, rfl, inner_init⟩ fun both op _ sorted after => sorted_step both op sorted after
  obtain ⟨c, there, inner⟩ := sorted _ ((List.prefix_append _ _).trans front)
  have full := inner.count
  rw [foldl_pushes, List.nil_append, List.length_replicate] at full
  exact room c there full

end CircleQueue

end GreatEvent
