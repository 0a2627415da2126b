/-!
# The first least element of a list

A loop that goes through a list and keeps the position of the best element so
far, replacing it only by a strictly better one, ends at the first of the
best (`FirstLeast`): what `keepLeast` does to the elements seen, one by one.
-/

namespace Lib

variable {α : Type} {p : α → Bool} {f : α → Int}

/-- `x` is the first among the elements of the list with `p` whose value is least. -/
structure FirstLeast (p : α → Bool) (f : α → Int) (front : List α) (x : α) (back : List α) : Prop where
  meets : p x = true
  before : ∀ y ∈ front, p y = true → f x < f y
  after : ∀ y ∈ back, p y = true → f x ≤ f y

/-- A position of the list kept by the loop, with the element there. -/
abbrev Kept (α : Type) := Option (Nat × α)

/-- The loop keeps the position of a new element if it is the first or strictly better. -/
def keepLeast (p : α → Bool) (f : α → Int) (best : Kept α) (pos : Nat) (x : α) : Kept α :=
  match best with
  | none => if p x then some (pos, x) else none
  | some b => if p x && f x < f b.2 then some (pos, x) else some b

/-- What is kept after the elements `l`. -/
def Keeping (p : α → Bool) (f : α → Int) (l : List α) : Kept α → Prop
  | none => ∀ y ∈ l, p y = false
  | some b => ∃ front back, l = front ++ b.2 :: back ∧ b.1 = front.length ∧ FirstLeast p f front b.2 back

theorem keeping_nil : Keeping p f [] none := fun _ member => absurd member List.not_mem_nil

/-- A better element after the list is the first least of the longer one. -/
theorem Keeping.here {l : List α} {x : α} (meets : p x = true) (less : ∀ y ∈ l, p y = true → f x < f y) :
    Keeping p f (l ++ [x]) (some (l.length, x)) :=
  ⟨l, [], rfl, rfl, meets, less, fun _ member => absurd member List.not_mem_nil⟩

/-- **One more element.** -/
theorem Keeping.snoc {l : List α} {best : Kept α} (keeping : Keeping p f l best) (x : α) :
    Keeping p f (l ++ [x]) (keepLeast p f best l.length x) := by
  cases best with
  | none =>
    rw [keepLeast]
    split
    case isTrue meets => exact .here meets fun y member py => absurd py (by rw [keeping y member]; simp)
    case isFalse fails =>
      intro y member
      rcases List.mem_append.mp member with member | member
      · exact keeping y member
      · rw [List.mem_singleton.mp member]
        exact Bool.eq_false_iff.mpr fails
  | some b =>
    obtain ⟨front, back, rfl, pos, least⟩ := keeping
    rw [keepLeast]
    split
    case isTrue better =>
      simp only [Bool.and_eq_true, decide_eq_true_eq] at better
      refine .here better.1 fun y member py => ?_
      rcases List.mem_append.mp member with member | member
      · exact Int.lt_trans better.2 (least.before y member py)
      · rcases List.mem_cons.mp member with rfl | member
        · exact better.2
        · exact Int.lt_of_lt_of_le better.2 (least.after y member py)
    case isFalse worse =>
      refine ⟨front, back ++ [x], by simp, pos, least.meets, least.before, fun y member py => ?_⟩
      rcases List.mem_append.mp member with member | member
      · exact least.after y member py
      · rw [List.mem_singleton.mp member] at py ⊢
        simp only [py, Bool.true_and, decide_eq_true_eq] at worse
        omega

end Lib
