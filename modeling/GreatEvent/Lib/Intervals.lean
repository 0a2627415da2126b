import Mathlib

/-!
# Sets of numbers as lists of intervals

A list of closed intervals, each behind the ones before it, stands for the set
of the numbers in them. What a list of intervals does to stay one when another
interval is added is to swallow the intervals that it reaches.
-/

namespace Lib

/-- The numbers in the intervals. -/
noncomputable def cover : List (Int × Int) → Finset Int
  | [] => ∅
  | n :: ns => Finset.Icc n.1 n.2 ∪ cover ns

/-- The lengths of the intervals together. -/
def total : List (Int × Int) → Int
  | [] => 0
  | n :: ns => n.2 - n.1 + 1 + total ns

/-- No interval is empty, and each lies before the ones behind it. -/
structure Apart (ns : List (Int × Int)) : Prop where
  nonempty : ∀ n ∈ ns, n.1 ≤ n.2
  ordered : ns.Pairwise fun m n => m.2 < n.1

/-- The interval `a` to `b`, with the ones behind it that it reaches. An interval of one number
reaches none. -/
def swallow (a b : Int) : List (Int × Int) → List (Int × Int)
  | [] => [(a, b)]
  | n :: ns => if a ≠ b ∧ n.1 ≤ b + 1 then swallow a (max n.2 b) ns else (a, b) :: n :: ns

variable {ns ms : List (Int × Int)} {n : Int × Int} {a b x : Int}

theorem mem_cover : x ∈ cover ns ↔ ∃ n ∈ ns, n.1 ≤ x ∧ x ≤ n.2 := by
  induction ns with
  | nil => simp [cover]
  | cons n ns ih => simp [cover, ih]

theorem cover_cons : cover (n :: ns) = Finset.Icc n.1 n.2 ∪ cover ns := rfl

theorem cover_append : cover (ms ++ ns) = cover ms ∪ cover ns := by
  induction ms with
  | nil => simp [cover]
  | cons m ms ih => simp [cover, ih]

theorem total_cons : total (n :: ns) = n.2 - n.1 + 1 + total ns := rfl

theorem total_append : total (ms ++ ns) = total ms + total ns := by
  induction ms with
  | nil => simp [total]
  | cons m ms ih =>
    rw [List.cons_append, total_cons, total_cons, ih]
    omega

theorem apart_cons :
    Apart (n :: ns) ↔ n.1 ≤ n.2 ∧ (∀ m ∈ ns, n.2 < m.1) ∧ Apart ns := by
  constructor
  · rintro ⟨nonempty, ordered⟩
    rw [List.forall_mem_cons] at nonempty
    rw [List.pairwise_cons] at ordered
    exact ⟨nonempty.1, ordered.1, nonempty.2, ordered.2⟩
  · rintro ⟨here, before, rest⟩
    exact ⟨List.forall_mem_cons.mpr ⟨here, rest.nonempty⟩, List.pairwise_cons.mpr ⟨before, rest.ordered⟩⟩

theorem apart_append :
    Apart (ms ++ ns) ↔ Apart ms ∧ Apart ns ∧ ∀ m ∈ ms, ∀ n ∈ ns, m.2 < n.1 := by
  constructor
  · rintro ⟨nonempty, ordered⟩
    rw [List.forall_mem_append] at nonempty
    rw [List.pairwise_append] at ordered
    exact ⟨⟨nonempty.1, ordered.1⟩, ⟨nonempty.2, ordered.2.1⟩, ordered.2.2⟩
  · rintro ⟨front, back, before⟩
    exact ⟨List.forall_mem_append.mpr ⟨front.nonempty, back.nonempty⟩,
      List.pairwise_append.mpr ⟨front.ordered, back.ordered, before⟩⟩

namespace Apart

/-- The numbers are counted by the lengths. -/
theorem card (apart : Apart ns) : ((cover ns).card : Int) = total ns := by
  induction ns with
  | nil => rfl
  | cons n ns ih =>
    obtain ⟨here, before, rest⟩ := apart_cons.mp apart
    have disjoint : Disjoint (Finset.Icc n.1 n.2) (cover ns) := by
      rw [Finset.disjoint_left]
      intro x inside member
      rw [mem_cover] at member
      obtain ⟨m, among, low, -⟩ := member
      have := before m among
      rw [Finset.mem_Icc] at inside
      omega
    rw [cover, Finset.card_union_of_disjoint disjoint, Int.card_Icc, total_cons, ← ih rest]
    omega

/-- Where there is an interval there is a number. -/
theorem total_pos (apart : Apart (n :: ns)) : 0 < total (n :: ns) := by
  obtain ⟨here, -, rest⟩ := apart_cons.mp apart
  have := rest.card
  rw [total_cons]
  omega

/-- There are no more intervals than numbers. -/
theorem length_le (apart : Apart ns) : (ns.length : Int) ≤ total ns := by
  induction ns with
  | nil => exact le_rfl
  | cons n ns ih =>
    obtain ⟨here, -, rest⟩ := apart_cons.mp apart
    have := ih rest
    rw [List.length_cons, total_cons]
    omega

/-- The intervals behind another begin behind it. -/
theorem begins_behind (apart : Apart (n :: ns)) {m : Int × Int} (among : m ∈ ns) : n.1 < m.1 := by
  obtain ⟨here, before, -⟩ := apart_cons.mp apart
  exact lt_of_le_of_lt here (before m among)

/-- The first interval begins with the least number. -/
theorem least (apart : Apart (n :: ns)) (member : x ∈ cover (n :: ns)) : n.1 ≤ x := by
  rw [mem_cover] at member
  obtain ⟨m, among, low, -⟩ := member
  rcases List.mem_cons.mp among with rfl | behind
  · exact low
  · exact (apart.begins_behind behind).le.trans low

/-- The last interval that begins before `x`. -/
theorem last_before (apart : Apart (n :: ns)) (first : n.1 < x) :
    ∃ before m behind, n :: ns = before ++ m :: behind ∧ m.1 < x ∧ ∀ k ∈ behind, x ≤ k.1 := by
  induction ns generalizing n with
  | nil => exact ⟨[], n, [], rfl, first, by simp⟩
  | cons k ns ih =>
    have rest := (apart_cons.mp apart).2.2
    by_cases earlier : k.1 < x
    case pos =>
      obtain ⟨before, m, behind, split, less, more⟩ := ih rest earlier
      exact ⟨n :: before, m, behind, by rw [split]; rfl, less, more⟩
    case neg =>
      refine ⟨[], n, k :: ns, rfl, first, fun m member => ?_⟩
      rcases List.mem_cons.mp member with rfl | later
      · exact not_lt.mp earlier
      · exact (not_lt.mp earlier).trans (rest.begins_behind later).le

/-- A number is taken out of an interval, of which the intervals `mid` are left. -/
theorem puncture {before mid behind : List (Int × Int)} (apart : Apart (before ++ n :: behind))
    (left : Apart mid) (inside : ∀ m ∈ mid, n.1 ≤ m.1 ∧ m.2 ≤ n.2) (member : n.1 ≤ x ∧ x ≤ n.2)
    (rest : cover mid = (Finset.Icc n.1 n.2).erase x) :
    Apart (before ++ (mid ++ behind)) ∧
      cover (before ++ (mid ++ behind)) = (cover (before ++ n :: behind)).erase x ∧
      total (before ++ (mid ++ behind)) = total (before ++ n :: behind) - 1 := by
  obtain ⟨front, back, between⟩ := apart_append.mp apart
  obtain ⟨here, next, late⟩ := apart_cons.mp back
  have whole : Apart (before ++ (mid ++ behind)) := by
    refine apart_append.mpr ⟨front, apart_append.mpr ⟨left, late, ?_⟩, ?_⟩
    · intro m among k behind
      have := inside m among
      have := next k behind
      omega
    · intro m early k later
      rcases List.mem_append.mp later with among | behind
      · have := inside k among
        have := between m early n List.mem_cons_self
        omega
      · exact between m early k (List.mem_cons_of_mem _ behind)
  have other : x ∉ cover before ∧ x ∉ cover behind := by
    constructor
    · intro wrong
      obtain ⟨m, early, -, high⟩ := mem_cover.mp wrong
      have := between m early n List.mem_cons_self
      omega
    · intro wrong
      obtain ⟨m, later, low, -⟩ := mem_cover.mp wrong
      have := next m later
      omega
  have same : cover (before ++ (mid ++ behind)) = (cover (before ++ n :: behind)).erase x := by
    rw [cover_append, cover_append, cover_append, cover_cons, rest, Finset.erase_union_distrib,
      Finset.erase_union_distrib, Finset.erase_eq_of_notMem other.1, Finset.erase_eq_of_notMem other.2]
  refine ⟨whole, same, ?_⟩
  have among : x ∈ cover (before ++ n :: behind) := mem_cover.mpr ⟨n, by simp, member⟩
  have some' := Finset.card_pos.mpr ⟨x, among⟩
  rw [← whole.card, ← apart.card, same, Finset.card_erase_of_mem among]
  omega

end Apart

section swallow

variable (ordered : a ≤ b) (apart : Apart ns) (behind : ∀ n ∈ ns, a < n.1)

include ordered apart behind

/-- Nothing is lost or gained. -/
theorem cover_swallow : cover (swallow a b ns) = cover ((a, b) :: ns) := by
  induction ns generalizing b with
  | nil => rfl
  | cons n ns ih =>
    obtain ⟨here, -, rest⟩ := apart_cons.mp apart
    obtain ⟨first, others⟩ := List.forall_mem_cons.mp behind
    unfold swallow
    split
    case isFalse => rfl
    case isTrue reached =>
      rw [ih (by omega) rest others, cover_cons, cover_cons, cover_cons, ← Finset.union_assoc]
      congr 1
      ext x
      simp only [Finset.mem_union, Finset.mem_Icc]
      omega

/-- What it begins with stays, and nothing begins in front of it. -/
theorem swallow_begins (m : Int × Int) (member : m ∈ swallow a b ns) : a ≤ m.1 := by
  induction ns generalizing b with
  | nil => exact (List.mem_singleton.mp member) ▸ le_rfl
  | cons n ns ih =>
    obtain ⟨here, -, rest⟩ := apart_cons.mp apart
    obtain ⟨first, others⟩ := List.forall_mem_cons.mp behind
    unfold swallow at member
    split at member
    case isTrue => exact ih (by omega) rest others member
    case isFalse =>
      rcases List.mem_cons.mp member with rfl | later
      · exact le_rfl
      · exact (behind m later).le

theorem apart_swallow : Apart (swallow a b ns) := by
  induction ns generalizing b with
  | nil => exact apart_cons.mpr ⟨ordered, by simp, ⟨by simp, List.Pairwise.nil⟩⟩
  | cons n ns ih =>
    obtain ⟨here, -, rest⟩ := apart_cons.mp apart
    obtain ⟨first, others⟩ := List.forall_mem_cons.mp behind
    unfold swallow
    split
    case isTrue => exact ih (by omega) rest others
    case isFalse kept =>
      refine apart_cons.mpr ⟨ordered, List.forall_mem_cons.mpr ⟨by dsimp only; omega, fun m among => ?_⟩, apart⟩
      have := apart.begins_behind among
      dsimp only
      omega

end swallow

end Lib
