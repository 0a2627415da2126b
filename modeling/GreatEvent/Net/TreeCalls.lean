import GreatEvent.Lib.Refinement
import GreatEvent.Net.TreeBalance

/-!
# `tree.h` as an ordered list

To its callers the tree is the list of its elements in their order:
`RB_INSERT` puts an element in unless one compares equal to it, `RB_REMOVE`
takes one out, and `RB_FIND`, `RB_MIN` and `RB_NEXT` look elements up in it.
-/

namespace GreatEvent

variable {α : Type}

/-- The calls on a tree, with the elements they are given. -/
inductive TreeCall (α : Type) where
  | insert (x : α)
  | remove (x : α)
  | find (x : α)
  | min
  | next (x : α)

/-- `RB_INSERT`, `RB_REMOVE`, `RB_FIND`, `RB_MIN`, `RB_NEXT` -/
def RBTree.call [DecidableEq α] (cmp : α → α → Ordering) (t : RBTree α) :
    TreeCall α → Option (Option α × RBTree α)
  | .insert x => t.insert cmp x
  | .remove x => do
    let t' ← t.remove x
    some (some x, t')
  | .find x => some (t.find cmp x, t)
  | .min => some (t.min, t)
  | .next x => some (t.next x, t)

namespace TreeCall

/-- The call on a list in order. -/
def onList [DecidableEq α] (cmp : α → α → Ordering) (l : List α) : TreeCall α → Option α × List α
  | insert x => match l.find? fun y => cmp x y = .eq with
    | some y => (some y, l)
    | none => (none, RBTree.putInto cmp x l)
  | remove x => (some x, l.erase x)
  | find x => (l.find? fun y => cmp x y = .eq, l)
  | min => (l.head?, l)
  | next x => ((l.dropWhile fun y => y ≠ x).tail.head?, l)

/-- An element that is taken out, or asked for its successor, is there. -/
def Present (l : List α) : TreeCall α → Prop
  | insert _ => True
  | remove x => x ∈ l
  | find _ => True
  | min => True
  | next x => x ∈ l

instance [DecidableEq α] (l : List α) (call : TreeCall α) : Decidable (Present l call) :=
  match call with
  | insert _ => inferInstanceAs (Decidable True)
  | remove x => inferInstanceAs (Decidable (x ∈ l))
  | find _ => inferInstanceAs (Decidable True)
  | min => inferInstanceAs (Decidable True)
  | next x => inferInstanceAs (Decidable (x ∈ l))

end TreeCall

namespace RBTree

/-- A tree that is balanced and holds the elements of `l` in their order. -/
structure Holds (cmp : α → α → Ordering) (t : RBTree α) (l : List α) : Prop where
  balanced : t.RedBlack
  sorted : t.Sorted cmp
  order : t.toList = l

variable {cmp : α → α → Ordering}

theorem Holds.nil : Holds cmp (.nil : RBTree α) [] := ⟨.nil, .nil, rfl⟩

/-- The walk of `RB_INSERT` stops at the element `RB_FIND` returns. -/
theorem descend_of_find {x y : α} {t : RBTree α} (found : t.find cmp x = some y)
    (path : List (RBBranch α)) : descend cmp x t path = .error y := by
  induction t generalizing path with
  | nil => cases found
  | node c left z right ihLeft ihRight =>
    unfold find at found
    unfold descend
    split at found
    case h_1 => exact ihLeft found _
    case h_2 => exact ihRight found _
    case h_3 => cases found; rfl

variable [Std.TransCmp cmp]

theorem find_eq {x : α} {t : RBTree α} (sorted : t.Sorted cmp) :
    t.find cmp x = t.toList.find? fun y => cmp x y = .eq := by
  induction t with
  | nil => rfl
  | node c left y right ihLeft ihRight =>
    simp only [Sorted, toList_node, List.pairwise_append, List.pairwise_cons] at sorted
    obtain ⟨sortedLeft, ⟨above, sortedRight⟩, under⟩ := sorted
    rw [toList_node, List.find?_append, find]
    cases order : cmp x y with
    | lt =>
      have noneRight : (y :: right.toList).find? (fun z => cmp x z = .eq) = none := by
        simp only [List.find?_eq_none, List.mem_cons, decide_eq_true_eq]
        rintro z (rfl | member) equal
        · rw [order] at equal; cases equal
        · rw [Std.TransCmp.lt_trans order (above z member)] at equal; cases equal
      simp [ihLeft sortedLeft, noneRight]
    | gt =>
      have noneLeft : left.toList.find? (fun z => cmp x z = .eq) = none := by
        simp only [List.find?_eq_none, decide_eq_true_eq]
        intro z member equal
        have less := under z member y List.mem_cons_self
        rw [Std.OrientedCmp.gt_iff_lt] at order
        rw [Std.OrientedCmp.gt_iff_lt.mpr (Std.TransCmp.lt_trans less order)] at equal
        cases equal
      simp [ihRight sortedRight, noneLeft, order]
    | eq =>
      have noneLeft : left.toList.find? (fun z => cmp x z = .eq) = none := by
        simp only [List.find?_eq_none, decide_eq_true_eq]
        intro z member equal
        have less := under z member y List.mem_cons_self
        rw [Std.TransCmp.congr_left equal] at order
        rw [order] at less
        cases less
      simp [noneLeft, order]

/-- `RB_INSERT` of an element that is not there. -/
theorem Holds.insert {x : α} {t : RBTree α} {l : List α} (holds : Holds cmp t l)
    (fresh : ∀ y ∈ l, cmp x y ≠ .eq) :
    ∃ t', t.insert cmp x = some (none, t') ∧ Holds cmp t' (putInto cmp x l) := by
  obtain ⟨balanced, sorted, rfl⟩ := holds
  obtain ⟨t', inserted, kept⟩ := balanced.insert fresh
  obtain ⟨order, sorted'⟩ := toList_insert sorted inserted
  exact ⟨t', inserted, kept, sorted', order⟩

/-- `RB_INSERT` of an element that is there leaves the tree alone. -/
theorem Holds.insert_again {x y : α} {t : RBTree α} {l : List α} (holds : Holds cmp t l)
    (found : l.find? (fun z => cmp x z = .eq) = some y) : t.insert cmp x = some (some y, t) := by
  obtain ⟨balanced, sorted, rfl⟩ := holds
  have there : t.find cmp x = some y := by rw [find_eq sorted, found]
  rw [RBTree.insert, descend_of_find there]

variable [DecidableEq α]

theorem Holds.remove {x : α} {t : RBTree α} {l : List α} (holds : Holds cmp t l) (member : x ∈ l) :
    ∃ t', t.remove x = some t' ∧ Holds cmp t' (l.erase x) := by
  obtain ⟨balanced, sorted, rfl⟩ := holds
  obtain ⟨t', removed, kept⟩ := balanced.remove member
  exact ⟨t', removed, kept, sorted.remove removed, toList_remove sorted.nodup removed⟩

theorem Holds.next {x : α} {t : RBTree α} {l : List α} (holds : Holds cmp t l) (member : x ∈ l) :
    t.next x = (l.dropWhile fun y => y ≠ x).tail.head? := by
  obtain ⟨balanced, sorted, rfl⟩ := holds
  obtain ⟨less, more, order⟩ := List.append_of_mem member
  have once := sorted.nodup
  have alone : ∀ y ∈ less, decide (y ≠ x) = true := by
    intro y inLess
    rw [order, List.nodup_append] at once
    exact decide_eq_true (once.2.2 y inLess x List.mem_cons_self)
  have rest : t.toList.dropWhile (fun y => y ≠ x) = x :: more := by
    rw [order, List.dropWhile_append_of_pos alone, List.dropWhile_cons_of_neg (by simp)]
  rw [next_eq_head once order, rest, List.tail_cons]

/-- One call on a tree is the call on its list. -/
theorem call_refines :
    Lib.Refines (RBTree.call cmp) (TreeCall.onList cmp) TreeCall.Present (Holds cmp) := by
  intro t l call holds present
  cases call with
  | insert x =>
    cases found : l.find? (fun y => cmp x y = .eq) with
    | some y =>
      exact ⟨t, by simp [call, holds.insert_again found, TreeCall.onList, found],
        by simpa [TreeCall.onList, found]⟩
    | none =>
      have fresh : ∀ y ∈ l, cmp x y ≠ .eq := by simpa using found
      obtain ⟨t', inserted, kept⟩ := holds.insert fresh
      exact ⟨t', by simp [call, inserted, TreeCall.onList, found],
        by simpa [TreeCall.onList, found]⟩
  | remove x =>
    obtain ⟨t', removed, kept⟩ := holds.remove present
    exact ⟨t', by simp [call, removed, TreeCall.onList], kept⟩
  | find x =>
    refine ⟨t, ?_, holds⟩
    rw [call, find_eq holds.sorted, holds.order]
    rfl
  | min =>
    refine ⟨t, ?_, holds⟩
    rw [call, min_eq_head, holds.order]
    rfl
  | next x =>
    refine ⟨t, ?_, holds⟩
    rw [call, holds.next present]
    rfl

/-- **The red-black tree is an ordered list with logarithmic searches**: whatever the calls, every
answer is that of the list, no null pointer is followed, and the tree stays balanced. -/
theorem tree_refines_list (calls : List (TreeCall α))
    (present : Lib.AllowedIn (TreeCall.onList cmp) TreeCall.Present [] calls) :
    ∃ t, Lib.calls (RBTree.call cmp) .nil calls
        = some ((Lib.answers (TreeCall.onList cmp) [] calls).1, t) ∧
      t.toList = (Lib.answers (TreeCall.onList cmp) [] calls).2 ∧ t.Sorted cmp ∧ t.RedBlack ∧
      t.height ≤ 2 * Nat.log 2 (t.toList.length + 1) := by
  obtain ⟨t, ran, holds⟩ := call_refines.calls Holds.nil present
  exact ⟨t, ran, holds.order, holds.sorted, holds.balanced, holds.balanced.height_le⟩

theorem tree_refines_list_five :
    ∃ t, Lib.calls (RBTree.call compare) .nil
        [.insert 3, .insert 1, .insert 2, .insert 1, .next 1, .remove 2, .next 1, .min]
        = some ([none, none, none, some 1, some 2, some 2, some 3, some 1], t) ∧
      t.toList = [1, 3] ∧ t.Sorted (compare (α := Nat)) ∧ t.RedBlack ∧
      t.height ≤ 2 * Nat.log 2 (t.toList.length + 1) :=
  tree_refines_list _ (by decide)

end RBTree

end GreatEvent
