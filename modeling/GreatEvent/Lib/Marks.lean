import Mathlib.Data.List.Infix

/-!
# Marks in a stream

A reader that looks for a mark takes one element at a time and stops when
what it has taken ends in the mark. That is at the first mark of the stream
(`exists_first_mark`), and before it every front of the stream ends in
something else (`Unmarked.not_suffix`). `countMarks` counts the places at
which the mark begins.
-/

namespace Lib

variable {α : Type} {mark : List α}

/-- The mark is nowhere inside. -/
def Unmarked (mark s : List α) : Prop := ¬ mark <:+: s

theorem Unmarked.of_infix {s t : List α} (unmarked : Unmarked mark t) (inside : s <:+: t) :
    Unmarked mark s :=
  fun marked => unmarked (marked.trans inside)

/-- Nothing taken before the end of an unmarked stream ends in the mark. -/
theorem Unmarked.not_suffix {s t : List α} (unmarked : Unmarked mark t) (front : s <+: t) :
    ¬ mark <:+ s :=
  fun ends => unmarked (ends.isInfix.trans front.isInfix)

theorem unmarked_of_short {s : List α} (short : s.length < mark.length) : Unmarked mark s :=
  fun marked => absurd marked.length_le (Nat.not_le_of_lt short)

/-- **A marked stream has a first mark.** -/
theorem exists_first_mark (nonempty : mark ≠ []) {s : List α} (marked : mark <:+: s) :
    ∃ front back, s = front ++ (mark ++ back) ∧ Unmarked mark (front ++ mark).dropLast := by
  induction s with
  | nil => exact absurd (List.infix_nil.mp marked) nonempty
  | cons a t ih =>
    by_cases here : mark <+: a :: t
    · obtain ⟨back, split⟩ := here
      refine ⟨[], back, split.symm, unmarked_of_short ?_⟩
      have := List.length_pos_iff.mpr nonempty
      rw [List.nil_append, List.length_dropLast]
      omega
    · have later : mark <:+: t := (List.infix_cons_iff.mp marked).resolve_left here
      obtain ⟨front, back, rfl, first⟩ := ih later
      refine ⟨a :: front, back, rfl, fun again => ?_⟩
      have more : front ++ mark ≠ [] := fun empty => nonempty (List.append_eq_nil_iff.mp empty).2
      rw [List.cons_append, List.dropLast_cons_of_ne_nil more] at again
      rcases List.infix_cons_iff.mp again with start | later
      · refine here (start.trans (List.cons_prefix_cons.mpr ⟨rfl, ?_⟩))
        rw [← List.append_assoc]
        exact (List.dropLast_prefix _).trans (List.prefix_append _ _)
      · exact first later

/-- The first mark of `s` has `back` behind it. -/
def FirstMark (mark back s : List α) : Prop :=
  ∃ front, s = front ++ (mark ++ back) ∧ Unmarked mark (front ++ mark).dropLast

theorem firstMark_or_unmarked (nonempty : mark ≠ []) (s : List α) :
    Unmarked mark s ∨ ∃ back, FirstMark mark back s := by
  by_cases marked : mark <:+: s
  · obtain ⟨front, back, split, first⟩ := exists_first_mark nonempty marked
    exact .inr ⟨back, front, split, first⟩
  · exact .inl marked

theorem firstMark_self (nonempty : mark ≠ []) : FirstMark mark [] mark := by
  refine ⟨[], by simp, unmarked_of_short ?_⟩
  have := List.length_pos_iff.mpr nonempty
  rw [List.nil_append, List.length_dropLast]
  omega

/-! ## How many marks there are -/

section
variable [DecidableEq α]

/-- The places at which the mark begins. -/
def countMarks (mark : List α) : List α → Nat
  | [] => 0
  | a :: s => (if mark <+: a :: s then 1 else 0) + countMarks mark s

theorem countMarks_cons_other {a : α} {s : List α} (other : ¬ mark <+: a :: s) :
    countMarks mark (a :: s) = countMarks mark s := by
  rw [countMarks, if_neg other, Nat.zero_add]

theorem countMarks_cons_here {a : α} {s : List α} (here : mark <+: a :: s) :
    countMarks mark (a :: s) = countMarks mark s + 1 := by
  rw [countMarks, if_pos here, Nat.add_comm]

/-- Behind a front there are no more marks than before. -/
theorem countMarks_le_append (mark front back : List α) : countMarks mark back ≤ countMarks mark (front ++ back) := by
  induction front with
  | nil => exact Nat.le_refl _
  | cons a front ih => exact ih.trans (Nat.le_add_left _ _)

theorem countMarks_drop_le (s : List α) (n : Nat) : countMarks mark (s.drop n) ≤ countMarks mark s := by
  have split := countMarks_le_append mark (s.take n) (s.drop n)
  rwa [List.take_append_drop] at split

theorem countMarks_unmarked {s : List α} (unmarked : Unmarked mark s) : countMarks mark s = 0 := by
  induction s with
  | nil => rfl
  | cons a s ih =>
    have other : ¬ mark <+: a :: s := fun here => unmarked here.isInfix
    rw [countMarks_cons_other other]
    exact ih (unmarked.of_infix (List.suffix_cons a s).isInfix)

/-- What is in front of the first mark counts for nothing. -/
theorem countMarks_first {front back : List α} (first : Unmarked mark (front ++ mark).dropLast) :
    countMarks mark (front ++ (mark ++ back)) = countMarks mark (mark ++ back) := by
  induction front with
  | nil => rfl
  | cons a front ih =>
    by_cases empty : mark = []
    · subst empty
      exact absurd List.nil_infix first
    have more : front ++ mark ≠ [] := fun nothing => empty (List.append_eq_nil_iff.mp nothing).2
    rw [List.cons_append, List.dropLast_cons_of_ne_nil more] at first
    have other : ¬ mark <+: a :: (front ++ (mark ++ back)) := by
      intro here
      have long : mark.length ≤ (a :: (front ++ mark).dropLast).length := by
        have some := List.length_pos_iff.mpr empty
        rw [List.length_cons, List.length_dropLast, List.length_append]
        omega
      have within : a :: (front ++ mark).dropLast <+: a :: (front ++ (mark ++ back)) := by
        apply List.cons_prefix_cons.mpr ⟨rfl, ?_⟩
        rw [← List.append_assoc]
        exact (List.dropLast_prefix _).trans (List.prefix_append _ _)
      exact first (List.prefix_of_prefix_length_le here within long).isInfix
    rw [List.cons_append, countMarks_cons_other other]
    exact ih (first.of_infix (List.suffix_cons a _).isInfix)

end

end Lib
