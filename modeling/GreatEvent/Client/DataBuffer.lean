import GreatEvent.Lib.Selection
import GreatEvent.Client.Buffer

/-!
# `CDataBuffer`: the player's pool of buffers

`WriteData` copies a block into a `Buffer` from the list of unused ones, the
smallest that is large enough, and queues it; `GetData` and `RemoveHead` put
the first of the queue back among the unused ones. The lists hold pointers to
`Buffer` objects, so an object in both would be written to while it is queued.
-/

namespace GreatEvent

open Lib

/-- `CDataBuffer`, with the `Buffer` objects its lists point to and the address of the next one. -/
structure DataBuffer where
  objects : Nat → Buffer
  next : Nat
  m_listData : List Nat
  m_listUnuse : List Nat

namespace DataBuffer

/-- `CDataBuffer()` -/
def init : DataBuffer := ⟨fun _ => Buffer.init, 0, [], []⟩

def setObject (b : DataBuffer) (p : Nat) (x : Buffer) : DataBuffer :=
  { b with objects := fun q => if q = p then x else b.objects q }

/-- `new Buffer` -/
def newObject (b : DataBuffer) : DataBuffer := { b.setObject b.next Buffer.init with next := b.next + 1 }

/-- `(len + 1023) / 1024 * 1024` -/
def roundUp (len : Int) : Int := (len + 1023).tdiv 1024 * 1024

/-- The loop of `GetUnuseBuffer` from position `it` on; an iterator is the position and the pointer
there, `end()` is `none`. -/
def look (b : DataBuffer) (len : Int) : Nat → List Nat → Kept Nat → Kept Nat → Kept Nat × Kept Nat
  | _, [], itRet, itMax => (itRet, itMax)
  | it, p :: rest, itRet, itMax =>
    let size := (b.objects p).m_nBufferSize
    let itRet' :=
      if uint len ≤ size then
        if itRet.all fun r => size < (b.objects r.2).m_nBufferSize then some (it, p) else itRet
      else itRet
    let itMax' := if itMax.all fun r => (b.objects r.2).m_nBufferSize < size then some (it, p) else itMax
    look b len (it + 1) rest itRet' itMax'

/-- `GetUnuseBuffer` -/
def getUnuseBuffer (b : DataBuffer) (len : Int) : DataBuffer × Nat :=
  match b.m_listUnuse with
  | [] =>
    let made := b.newObject
    (made.setObject b.next ((made.objects b.next).extendBuffer (uint (roundUp len))).1, b.next)
  | _ :: _ =>
    match b.look len 0 b.m_listUnuse none none with
    | (some itRet, _) => ({ b with m_listUnuse := b.m_listUnuse.eraseIdx itRet.1 }, itRet.2)
    | (none, some itMax) =>
      let grown := b.setObject itMax.2 ((b.objects itMax.2).extendBuffer (uint (roundUp len))).1
      ({ grown with m_listUnuse := b.m_listUnuse.eraseIdx itMax.1 }, itMax.2)
    | (none, none) => (b, b.next)  -- not reached: a loop over a list that is not empty sets itMax

/-- `WriteData` once it has its buffer. -/
def writeBuffer (b : DataBuffer) (lpBuffer : Nat) (lpData : List Byte) (nLength : Int) : DataBuffer :=
  let cleared := (b.objects lpBuffer).clearData
  let filled := (cleared.appendData (some (lpData.map some)) (uint nLength)).1
  { b.setObject lpBuffer filled with m_listData := b.m_listData ++ [lpBuffer] }

/-- `WriteData` of the `nLength` bytes `lpData`. -/
def writeData (b : DataBuffer) (lpData : List Byte) : DataBuffer :=
  let nLength : Int := lpData.length
  let (found, lpBuffer) := b.getUnuseBuffer nLength
  found.writeBuffer lpBuffer lpData nLength

/-- `GetData`, with what it leaves in `dataBuf`. -/
def getData (b : DataBuffer) (dataBuf : Buffer) : DataBuffer × Buffer × Bool :=
  match b.m_listData with
  | [] => (b, dataBuf, false)
  | it :: rest =>
    let head := b.objects it
    ({ b with m_listData := rest, m_listUnuse := b.m_listUnuse ++ [it] },
      (dataBuf.clearData.appendData head.pointed head.m_nDataSize).1, true)

/-- `GetHead`: the memory the pointer it returns points at. -/
def getHead (b : DataBuffer) : Option (List Cell) :=
  match b.m_listData with
  | [] => none
  | it :: _ => (b.objects it).pointed

/-- `RemoveHead` -/
def removeHead (b : DataBuffer) : DataBuffer :=
  match b.m_listData with
  | [] => b
  | it :: rest => { b with m_listData := rest, m_listUnuse := b.m_listUnuse ++ [it] }

/-- The loop of `ClearBuffer`: what it makes of `m_listUnuse`. -/
def clearLoop : List Nat → List Nat → List Nat
  | [], unuse => unuse
  | p :: rest, unuse => clearLoop rest (unuse ++ [p])

/-- `ClearBuffer` -/
def clearBuffer (b : DataBuffer) : DataBuffer :=
  { b with m_listData := [], m_listUnuse := clearLoop b.m_listData b.m_listUnuse }

/-- `GetDataCount`, a `DWORD`. -/
def getDataCount (b : DataBuffer) : UInt32 := UInt32.ofNat b.m_listData.length

@[simp] theorem objects_setObject (b : DataBuffer) (p q : Nat) (x : Buffer) :
    (b.setObject p x).objects q = if q = p then x else b.objects q := rfl

theorem clearLoop_eq (data unuse : List Nat) : clearLoop data unuse = unuse ++ data := by
  induction data generalizing unuse with
  | nil => rw [clearLoop, List.append_nil]
  | cons p rest ih => rw [clearLoop, ih, List.append_assoc, List.singleton_append]

section
variable (b : DataBuffer) (len : Int)

/-- The buffer is large enough. -/
def fits (p : Nat) : Bool := uint len ≤ (b.objects p).m_nBufferSize

/-- The capacity of a buffer. -/
def size (p : Nat) : Int := (b.objects p).m_nBufferSize

theorem ret_eq (best : Kept Nat) (it p : Nat) :
    (if uint len ≤ (b.objects p).m_nBufferSize then
      if best.all fun r => (b.objects p).m_nBufferSize < (b.objects r.2).m_nBufferSize then some (it, p) else best
    else best) = keepLeast (b.fits len) b.size best it p := by
  cases best with
  | none => simp only [keepLeast, fits, Option.all_none, decide_eq_true_eq, if_pos]
  | some r =>
    simp only [keepLeast, fits, size, Option.all_some, Bool.and_eq_true, decide_eq_true_eq, Int.ofNat_lt]
    split
    case isTrue enough => simp only [enough, true_and]
    case isFalse small => simp only [small, false_and, if_false]

theorem max_eq (best : Kept Nat) (it p : Nat) :
    (if best.all fun r => (b.objects r.2).m_nBufferSize < (b.objects p).m_nBufferSize then some (it, p) else best) =
      keepLeast (fun _ => true) (fun p => -b.size p) best it p := by
  cases best with
  | none => simp only [keepLeast, Option.all_none, if_pos]
  | some r =>
    simp only [keepLeast, size, Option.all_some, Bool.true_and, decide_eq_true_eq, Int.neg_lt_neg_iff, Int.ofNat_lt]

/-- **The two iterators after the loop**: the first of the smallest buffers that fit, and the first
of the largest. -/
theorem look_keeping (rest : List Nat) {seen : List Nat} {itRet itMax : Kept Nat}
    (ret : Keeping (b.fits len) b.size seen itRet) (max : Keeping (fun _ => true) (fun p => -b.size p) seen itMax) :
    Keeping (b.fits len) b.size (seen ++ rest) (b.look len seen.length rest itRet itMax).1 ∧
      Keeping (fun _ => true) (fun p => -b.size p) (seen ++ rest) (b.look len seen.length rest itRet itMax).2 := by
  induction rest generalizing seen itRet itMax with
  | nil =>
    rw [List.append_nil]
    exact ⟨ret, max⟩
  | cons p rest ih =>
    have next := ih (ret.snoc p) (max.snoc p)
    rw [List.append_assoc, List.singleton_append, List.length_append, List.length_singleton] at next
    rw [look, ret_eq, max_eq]
    exact next

/-- What `GetUnuseBuffer` can do. -/
inductive Picked : DataBuffer → Nat → Prop where
  | fit (front : List Nat) (p : Nat) (back : List Nat) (list : b.m_listUnuse = front ++ p :: back)
      (least : FirstLeast (b.fits len) b.size front p back) : Picked { b with m_listUnuse := front ++ back } p
  | grow (front : List Nat) (p : Nat) (back : List Nat) (list : b.m_listUnuse = front ++ p :: back)
      (none' : ∀ q ∈ b.m_listUnuse, b.fits len q = false)
      (largest : FirstLeast (fun _ => true) (fun q => -b.size q) front p back) :
      Picked { b.setObject p ((b.objects p).extendBuffer (uint (roundUp len))).1 with m_listUnuse := front ++ back } p
  | new (empty : b.m_listUnuse = []) :
      Picked (b.newObject.setObject b.next (Buffer.init.extendBuffer (uint (roundUp len))).1) b.next

theorem eraseIdx_split {α : Type} (front : List α) (x : α) (back : List α) :
    (front ++ x :: back).eraseIdx front.length = front ++ back := by
  rw [List.eraseIdx_append_of_length_le (Nat.le_refl _), Nat.sub_self, List.eraseIdx_cons_zero]

theorem getUnuseBuffer_picked : Picked b len (b.getUnuseBuffer len).1 (b.getUnuseBuffer len).2 := by
  have keeping := b.look_keeping len b.m_listUnuse keeping_nil keeping_nil
  rw [List.nil_append, List.length_nil] at keeping
  unfold getUnuseBuffer
  split
  case h_1 empty =>
    have made : b.newObject.objects b.next = Buffer.init := if_pos rfl
    dsimp only
    rw [made]
    exact .new empty
  case h_2 p rest list =>
    split
    case h_1 itRet itMax found =>
      rw [found] at keeping
      obtain ⟨front, back, split', pos, least⟩ := keeping.1
      rw [pos, split', eraseIdx_split]
      exact .fit front itRet.2 back split' least
    case h_2 itMax found =>
      rw [found] at keeping
      obtain ⟨none', front, back, split', pos, largest⟩ := keeping
      dsimp only
      rw [pos, split', eraseIdx_split]
      exact .grow front itMax.2 back split' none' largest
    case h_3 found =>
      rw [found, list] at keeping
      exact absurd (keeping.2 p List.mem_cons_self) Bool.true_eq_false.mp

end

/-- `n` is `len` rounded up to a multiple of 1024. -/
def RoundedUp (len n : Int) : Prop := 1024 ∣ n ∧ len ≤ n ∧ n < len + 1024

/-- The lengths `WriteData` may pass: the sum in `roundUp` does not overflow. -/
def Length (len : Int) : Prop := 0 < len ∧ len < 2 ^ 31 - 1024

theorem roundedUp {len : Int} (length : Length len) : RoundedUp len (uint (roundUp len)) := by
  obtain ⟨pos, small⟩ := length
  have floor : roundUp len = (len + 1023) / 1024 * 1024 := by
    rw [roundUp, Int.tdiv_eq_ediv_of_nonneg (by omega)]
  rw [RoundedUp, uint_of_nonneg (by omega) (by omega), floor]
  omega

theorem fits_iff {b : DataBuffer} {len : Int} (length : Length len) (p : Nat) :
    b.fits len p = true ↔ len ≤ b.size p := by
  have same := uint_of_nonneg (Int.le_of_lt length.1) (by have := length.2; omega)
  rw [fits, size, decide_eq_true_eq, ← Int.ofNat_le]
  change (uint len : Int) ≤ _ ↔ _
  rw [same]

/-- **`GetUnuseBuffer` takes the best fit**, or the largest buffer grown, or a new one. -/
structure BestFit (b : DataBuffer) (len : Int) (b' : DataBuffer) (p : Nat) : Prop where
  capacity : len ≤ b'.size p
  taken : p ∉ b'.m_listUnuse
  queue : b'.m_listData = b.m_listData
  others : ∀ q, q ≠ p → b'.objects q = b.objects q
  fit : (∃ q ∈ b.m_listUnuse, len ≤ b.size q) →
    ∃ front back, b.m_listUnuse = front ++ p :: back ∧ b'.m_listUnuse = front ++ back ∧
      (∀ q ∈ front, len ≤ b.size q → b.size p < b.size q) ∧
      (∀ q ∈ back, len ≤ b.size q → b.size p ≤ b.size q) ∧ b'.objects p = b.objects p
  grown : b.m_listUnuse ≠ [] → (∀ q ∈ b.m_listUnuse, b.size q < len) →
    ∃ front back, b.m_listUnuse = front ++ p :: back ∧ b'.m_listUnuse = front ++ back ∧
      (∀ q ∈ front, b.size q < b.size p) ∧ (∀ q ∈ back, b.size q ≤ b.size p) ∧ RoundedUp len (b'.size p)
  new : b.m_listUnuse = [] → b'.m_listUnuse = [] ∧ p = b.next ∧ RoundedUp len (b'.size p)

theorem size_extended {b : DataBuffer} {len : Int} (length : Length len) {x : Buffer} (p : Nat)
    (small : (x.m_nBufferSize : Int) < len) :
    RoundedUp len ((b.setObject p (x.extendBuffer (uint (roundUp len))).1).size p) := by
  have rounded := roundedUp length
  have grows : x.m_nBufferSize < uint (roundUp len) := by
    have := rounded.2.1
    omega
  rw [size, objects_setObject, if_pos rfl, Buffer.extendBuffer_size grows]
  exact rounded

theorem not_mem_of_middle {front back : List Nat} {p : Nat} (distinct : (front ++ p :: back).Nodup) :
    p ∉ front ++ back := (List.nodup_cons.mp (List.perm_middle.nodup_iff.mp distinct)).1

theorem best_fit {b : DataBuffer} {len : Int} (distinct : b.m_listUnuse.Nodup) (length : Length len) :
    BestFit b len (b.getUnuseBuffer len).1 (b.getUnuseBuffer len).2 := by
  have picked := b.getUnuseBuffer_picked len
  generalize (b.getUnuseBuffer len).1 = b', (b.getUnuseBuffer len).2 = p at picked ⊢
  cases picked with
  | fit front _ back list least =>
    have member : p ∈ b.m_listUnuse := by rw [list]; simp
    have enough := (fits_iff length p).mp least.meets
    rw [list] at distinct
    exact {
      capacity := enough
      taken := not_mem_of_middle distinct
      queue := rfl
      others := fun _ _ => rfl
      fit := fun _ => ⟨front, back, list, rfl,
        fun q member fits => least.before q member ((fits_iff length q).mpr fits),
        fun q member fits => least.after q member ((fits_iff length q).mpr fits), rfl⟩
      grown := fun _ small => absurd (small p member) (Int.not_lt.mpr enough)
      new := fun empty => absurd member (by rw [empty]; exact List.not_mem_nil) }
  | grow front _ back list none' largest =>
    have member : p ∈ b.m_listUnuse := by rw [list]; simp
    have small : ∀ q ∈ b.m_listUnuse, b.size q < len := by
      intro q member
      have short := none' q member
      rw [Bool.eq_false_iff, ne_eq, fits_iff length] at short
      exact Int.not_le.mp short
    have rounded := size_extended (b := b) length p (small p member)
    rw [list] at distinct
    exact {
      capacity := rounded.2.1
      taken := not_mem_of_middle distinct
      queue := rfl
      others := fun q other => if_neg other
      fit := fun ⟨q, member, fits⟩ => absurd (small q member) (Int.not_lt.mpr fits)
      grown := fun _ _ => ⟨front, back, list, rfl,
        fun q member => Int.neg_lt_neg_iff.mp (largest.before q member rfl),
        fun q member => Int.neg_le_neg_iff.mp (largest.after q member rfl), rounded⟩
      new := fun empty => absurd member (by rw [empty]; exact List.not_mem_nil) }
  | new empty =>
    have rounded := size_extended (b := b.newObject) (x := Buffer.init) length b.next length.1
    exact {
      capacity := rounded.2.1
      taken := by
        change b.next ∉ b.m_listUnuse
        rw [empty]
        exact List.not_mem_nil
      queue := rfl
      others := fun q other => (if_neg other).trans (if_neg other)
      fit := fun ⟨q, member, _⟩ => absurd member (by rw [empty]; exact List.not_mem_nil)
      grown := fun some' => absurd empty some'
      new := fun _ => ⟨empty, rfl, rounded⟩ }

/-- Two unused buffers of 4 KiB, one of 2 and one of 1: the first of the 4 KiB ones fits 3000 bytes. -/
def samplePool : DataBuffer :=
  ⟨fun p => ⟨none, [1024, 4096, 2048, 4096].getD p 0, none, 0⟩, 4, [], [0, 1, 2, 3]⟩

theorem best_fit_sample :
    BestFit samplePool 3000 (samplePool.getUnuseBuffer 3000).1 (samplePool.getUnuseBuffer 3000).2 ∧
      (samplePool.getUnuseBuffer 3000).2 = 1 :=
  ⟨best_fit (by decide) ⟨by decide, by decide⟩, by decide⟩

end DataBuffer

end GreatEvent
