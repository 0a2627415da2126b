import Mathlib.Data.List.Rotate
import Mathlib.Data.Nat.ModEq

/-!
# A queue in a ring of cells

The items of a queue kept in an array are the `count` cells from `head` on,
going around its end: the front of the array rotated to `head`. An item is
added behind them, the first is taken by moving `head` on.
-/

namespace Lib

variable {α : Type}

/-- The `count` cells of the ring from `head` on. -/
def window (cells : List α) (head count : Nat) : List α := (cells.rotate head).take count

/-- Counted from `head`, the `n`-th cell is at `head + n` around the end. -/
theorem rotate_set {cells : List α} {head n : Nat} (x : α) (inside : n < cells.length) :
    (cells.set ((head + n) % cells.length) x).rotate head = (cells.rotate head).set n x := by
  apply List.ext_getElem?
  intro k
  by_cases within : k < cells.length
  · have same : (head + n) % cells.length = (k + head) % cells.length ↔ n = k := by
      constructor
      · intro equal
        rw [Nat.add_comm k] at equal
        exact Nat.ModEq.eq_of_lt_of_lt (Nat.ModEq.add_left_cancel' head equal) inside within
      · rintro rfl
        rw [Nat.add_comm]
    have pos : 0 < cells.length := Nat.zero_lt_of_lt within
    rw [List.getElem?_rotate (by rwa [List.length_set]), List.length_set, List.getElem?_set, List.getElem?_set,
      List.getElem?_rotate within, List.length_rotate]
    simp only [same, inside, Nat.mod_lt _ pos, if_true]
  · have past : cells.length ≤ k := Nat.le_of_not_lt within
    rw [List.getElem?_eq_none (by rwa [List.length_rotate, List.length_set]),
      List.getElem?_eq_none (by rwa [List.length_set, List.length_rotate])]

/-- **A cell is filled behind the items.** -/
theorem window_push {cells : List α} (head : Nat) {count : Nat} (x : α) (room : count < cells.length) :
    window (cells.set ((head + count) % cells.length) x) head (count + 1) = window cells head count ++ [x] := by
  have inside : count < (cells.rotate head).length := by rwa [List.length_rotate]
  rw [window, rotate_set x room, window, List.take_add_one, List.take_set_of_le (Nat.le_refl _),
    List.getElem?_set_self inside, Option.toList_some]

/-- **The first item is taken.** -/
theorem window_pop {cells : List α} (head : Nat) {count : Nat} (within : count ≤ cells.length) :
    window cells ((head + 1) % cells.length) (count - 1) = (window cells head count).tail := by
  rw [window, List.rotate_mod, ← List.rotate_rotate, window]
  have long : count ≤ (cells.rotate head).length := by rwa [List.length_rotate]
  generalize cells.rotate head = ring at long ⊢
  cases ring with
  | nil => simp
  | cons y rest =>
    rw [List.rotate_cons_succ, List.rotate_zero]
    cases count with
    | zero => simp
    | succ count =>
      rw [List.take_succ_cons, List.tail_cons, Nat.add_sub_cancel, List.take_append_of_le_length]
      exact Nat.le_of_succ_le_succ long

/-- The first item is the cell at `head`. -/
theorem head?_window {cells : List α} {head count : Nat} (inside : head < cells.length) (some : 0 < count) :
    (window cells head count).head? = cells[head]? := by
  rw [window, List.head?_take, if_neg (Nat.ne_of_gt some), List.head?_rotate inside]

/-- A full ring is its two pieces. -/
theorem window_full {cells : List α} {head : Nat} (inside : head ≤ cells.length) :
    window cells head cells.length = cells.drop head ++ cells.take head := by
  rw [window, List.take_of_length_le (Nat.le_of_eq (List.length_rotate _ _)),
    List.rotate_eq_drop_append_take inside]

/-- Items laid out from the start of a ring. -/
theorem window_start {items cells : List α} {count : Nat} (length : items.length = count) :
    window (items ++ cells) 0 count = items := by
  rw [window, List.rotate_zero, ← length, List.take_left]

end Lib
