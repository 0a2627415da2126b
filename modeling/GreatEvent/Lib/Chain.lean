import Mathlib.Data.List.Nodup
import Mathlib.Logic.Function.Basic

/-!
# Linked lists in arrays

The nodes of a list are cells of an array, and another array says for each
cell which one follows. What the pointers mean is the list of the cells met
from the first pointer on.
-/

namespace Lib

/-- From the pointer `p` on one meets the cells `cells`, and then the pointer `q`. -/
def Segment (next : Nat → Option Nat) : Option Nat → List Nat → Option Nat → Prop
  | p, [], q => p = q
  | p, cell :: cells, q => p = some cell ∧ Segment next (next cell) cells q

variable {next next' : Nat → Option Nat} {p q : Option Nat} {cells before behind : List Nat} {i j : Nat}

theorem segment_append :
    Segment next p (before ++ behind) q ↔ ∃ r, Segment next p before r ∧ Segment next r behind q := by
  induction before generalizing p with
  | nil => simp [Segment]
  | cons cell before ih => simp [Segment, ih, and_assoc]

/-- Only the pointers of the cells met matter. -/
theorem Segment.congr (segment : Segment next p cells q) (same : ∀ i ∈ cells, next' i = next i) :
    Segment next' p cells q := by
  induction cells generalizing p with
  | nil => exact segment
  | cons cell cells ih =>
    obtain ⟨here, rest⟩ := segment
    refine ⟨here, ?_⟩
    rw [same cell List.mem_cons_self]
    exact ih rest fun i member => same i (List.mem_cons_of_mem _ member)

/-- The pointer of another cell is written. -/
theorem Segment.update (segment : Segment next p cells q) (free : i ∉ cells) (r : Option Nat) :
    Segment (Function.update next i r) p cells q :=
  segment.congr fun j member => Function.update_of_ne (fun same : j = i => free (same ▸ member)) _ _

/-- The first pointer shows the first cell. -/
theorem Segment.head (segment : Segment next p cells none) : p = cells.head? := by
  cases cells with
  | nil => exact segment
  | cons cell cells => exact segment.1

/-- The pointer of a cell shows the next one. -/
theorem Segment.shown (segment : Segment next p (before ++ i :: behind) none) :
    next i = behind.head? := by
  obtain ⟨r, -, -, rest⟩ := segment_append.mp segment
  exact rest.head

/-- A cell is put in front. -/
theorem Segment.push (segment : Segment next p cells q) (free : i ∉ cells) :
    Segment (Function.update next i p) (some i) (i :: cells) q := by
  refine ⟨rfl, ?_⟩
  rw [Function.update_self]
  exact segment.update free p

/-- A cell is put behind the cell `i`. -/
theorem Segment.insert (segment : Segment next p (before ++ i :: behind) q)
    (once : (before ++ i :: behind).Nodup) (free : j ∉ before ++ i :: behind) :
    Segment (Function.update (Function.update next j (next i)) i (some j)) p
      (before ++ i :: j :: behind) q := by
  obtain ⟨r, front, here, rest⟩ := segment_append.mp segment
  simp only [List.mem_append, List.mem_cons, not_or] at free
  have other := (List.nodup_cons.mp (List.nodup_middle.mp once)).1
  simp only [List.mem_append, not_or] at other
  obtain ⟨notBefore, notBehind⟩ := other
  refine segment_append.mpr ⟨r, (front.update free.1 _).update notBefore _, here, ?_⟩
  rw [Function.update_self]
  refine ⟨rfl, ?_⟩
  rw [Function.update_of_ne free.2.1, Function.update_self]
  exact (rest.update free.2.2 _).update notBehind _

/-- The cell behind the cell `i` is left out. -/
theorem Segment.skip (segment : Segment next p (before ++ i :: j :: behind) q)
    (once : (before ++ i :: j :: behind).Nodup) :
    Segment (Function.update next i (next j)) p (before ++ i :: behind) q := by
  obtain ⟨r, front, here, -, rest⟩ := segment_append.mp segment
  have other := (List.nodup_cons.mp (List.nodup_middle.mp once)).1
  simp only [List.mem_append, not_or] at other
  obtain ⟨notBefore, notBehind⟩ := other
  refine segment_append.mpr ⟨r, front.update notBefore _, here, ?_⟩
  rw [Function.update_self]
  exact rest.update (fun member => notBehind (List.mem_cons_of_mem _ member)) _

/-- Another cell takes the place of the cell `i`, when what shows `i` is turned to it. -/
theorem Segment.replace (segment : Segment next (some i) (i :: behind) q)
    (free : j ∉ i :: behind) :
    Segment (Function.update next j (next i)) (some j) (j :: behind) q := by
  refine ⟨rfl, ?_⟩
  rw [Function.update_self]
  exact segment.2.update (fun member => free (List.mem_cons_of_mem _ member)) _

/-- Another cell takes the place of the cell `i` behind `k`. -/
theorem Segment.substitute {k : Nat} (segment : Segment next p (before ++ k :: i :: behind) q)
    (once : (before ++ k :: i :: behind).Nodup) (free : j ∉ before ++ k :: i :: behind) :
    Segment (Function.update (Function.update next j (next i)) k (some j)) p (before ++ k :: j :: behind) q := by
  obtain ⟨r, front, here, -, rest⟩ := segment_append.mp segment
  simp only [List.mem_append, List.mem_cons, not_or] at free
  have other := (List.nodup_cons.mp (List.nodup_middle.mp once)).1
  simp only [List.mem_append, List.mem_cons, not_or] at other
  obtain ⟨notBefore, -, notBehind⟩ := other
  refine segment_append.mpr ⟨r, (front.update free.1 _).update notBefore _, here, ?_⟩
  rw [Function.update_self]
  refine ⟨rfl, ?_⟩
  rw [Function.update_of_ne free.2.1, Function.update_self]
  exact (rest.update free.2.2.2 _).update notBehind _

/-- The first pointer does not show a cell behind another. -/
theorem Segment.ne_head {k : Nat} (segment : Segment next p (before ++ k :: i :: behind) none)
    (once : (before ++ k :: i :: behind).Nodup) : p ≠ some i := by
  have first := segment.head
  have front : before ++ [k] ≠ [] := List.append_ne_nil_of_right_ne_nil _ (List.cons_ne_nil _ _)
  rw [List.append_cons, List.head?_append_of_ne_nil _ front] at first
  rw [List.append_cons] at once
  rintro rfl
  have member : i ∈ before ++ [k] := List.mem_of_head? first.symm
  exact (List.nodup_cons.mp (List.nodup_middle.mp once)).1 (List.mem_append_left _ member)

/-- The cells are linked both ways. Without a cell nothing is said of `tail`. -/
structure Linked (next prior : Nat → Option Nat) (head tail : Option Nat) (cells : List Nat) : Prop where
  forward : Segment next head cells none
  backward : cells ≠ [] → Segment prior tail cells.reverse none

namespace Linked

variable {prior : Nat → Option Nat} {head tail : Option Nat} {k : Nat}

/-- The way back from the cell `i`. -/
theorem back (linked : Linked next prior head tail (before ++ i :: behind)) :
    Segment prior tail (behind.reverse ++ i :: before.reverse) none := by
  simpa using linked.backward (by simp)

theorem back_two (linked : Linked next prior head tail (before ++ k :: i :: behind)) :
    Segment prior tail (behind.reverse ++ i :: k :: before.reverse) none := by
  simpa using linked.backward (by simp)

theorem next_eq (linked : Linked next prior head tail (before ++ i :: behind)) : next i = behind.head? :=
  linked.forward.shown

theorem prior_eq (linked : Linked next prior head tail (before ++ i :: behind)) :
    prior i = before.getLast? := by
  rw [linked.back.shown, List.head?_reverse]

end Linked

end Lib
