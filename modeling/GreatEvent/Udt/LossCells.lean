import GreatEvent.Udt.SeqNo
import GreatEvent.Lib.Intervals

/-!
# The arrays of a loss list

Both loss lists keep their runs of numbers in two arrays used as a ring. The
cell of a run is given by its first number, which `m_piData1` holds there, and
`m_piData2` holds the last number if there is more than one.
-/

namespace GreatEvent.Udt

open CSeqNo Lib

/-- The cell of the number `x`, if the number 0 is at `c`. -/
def cell (size : Nat) (c x : Int) : Nat := ((c + x) % size).toNat

section cell

variable {size : Nat} {c x y : Int}

theorem cell_lt (positive : 0 < size) : cell size c x < size := by
  have := Int.emod_lt_of_pos (c + x) (b := size) (by omega)
  unfold cell
  omega

theorem cell_cast (positive : 0 < size) : (cell size c x : Int) = (c + x) % size := by
  have := Int.emod_nonneg (c + x) (b := size) (by omega)
  unfold cell
  omega

/-- Numbers less than the size of the ring apart have cells of their own. -/
theorem cell_inj (positive : 0 < size) (near : |x - y| < size) :
    cell size c x = cell size c y ↔ x = y := by
  refine ⟨fun same => ?_, fun same => same ▸ rfl⟩
  have same : (c + x) % size = (c + y) % size := by
    rw [← cell_cast positive, ← cell_cast positive, same]
  rw [Int.emod_add_cancel_left, Int.emod_eq_emod_iff_emod_sub_eq_zero] at same
  have := Int.eq_zero_of_abs_lt_dvd (Int.dvd_of_emod_eq_zero same) near
  omega

/-- A step of `y - x` cells from the cell of `x`. -/
theorem cell_add (positive : 0 < size) (behind : -size < y - x) :
    0 ≤ (cell size c x : Int) + (y - x) + size ∧
      ((cell size c x : Int) + (y - x) + size).toNat % size = cell size c y := by
  have nonneg : 0 ≤ (cell size c x : Int) + (y - x) + size := by omega
  refine ⟨nonneg, ?_⟩
  rw [← Nat.cast_inj (R := Int), Int.natCast_emod, Int.toNat_of_nonneg nonneg, cell_cast positive,
    cell_cast positive, Int.add_emod_right, Int.emod_add_emod]
  congr 1
  omega

theorem cell_succ (positive : 0 < size) : (cell size c x + 1) % size = cell size c (x + 1) := by
  rw [← Nat.cast_inj (R := Int), Int.natCast_emod, Nat.cast_add, cell_cast positive, cell_cast positive,
    Nat.cast_one, Int.emod_add_emod, add_assoc]

/-- The cell of a number from the head. -/
theorem cell_from {a b : Int} (positive : 0 < size) (ordered : a ≤ b) :
    (cell size c a + (b - a).toNat) % size = cell size c b := by
  obtain ⟨nonneg, same⟩ := cell_add (c := c) positive (by omega : -(size : Int) < b - a)
  rw [← same, ← Nat.add_mod_right]
  congr 1
  omega

/-- The cell before. -/
theorem cell_pred (many : 1 < size) : (cell size c x + size - 1) % size = cell size c (x - 1) := by
  obtain ⟨nonneg, same⟩ := cell_add (c := c) (x := x) (y := x - 1) (by omega) (by omega : -(size : Int) < x - 1 - x)
  rw [← same]
  congr 1
  omega

/-- A step around the ring. -/
theorem cell_step {a b : Int} (positive : 0 < size) (ordered : a ≤ b) :
    (cell size c a + (b - a).toNat + size) % size = cell size c b := by
  rw [Nat.add_mod_right, cell_from positive ordered]

end cell

/-- Of the number behind `x` and the last one, the last one is kept if it is another. -/
theorem later_iff {x d : Int} (more : x < d) (near : Near d (x + 1)) :
    0 < seqcmp (seqNo d) (seqNo (x + 1)) ↔ ¬seqNo d = seqNo (x + 1) := by
  rw [seqcmp_pos_iff near, seqNo_inj near]
  omega

/-- The first part of a sequence is known. -/
theorem bind_some {α β : Type} {x : Option α} {y : α} (known : x = some y) (f : α → Option β) :
    x.bind f = f y := by
  rw [known, Option.bind_some]

/-- The arrays hold these runs and nothing else. -/
structure HoldsRuns (data1 data2 : Nat → Option Int) (place : Int → Nat) (nodes : List (Int × Int)) :
    Prop where
  distinct : (nodes.map fun n => place n.1).Nodup
  starts : ∀ n ∈ nodes, data1 (place n.1) = some (seqNo n.1)
  ends : ∀ n ∈ nodes, data2 (place n.1) = if n.2 = n.1 then none else some (seqNo n.2)
  blank : ∀ i, i ∉ nodes.map (fun n => place n.1) → data1 i = none ∧ data2 i = none

/-- The numbers of the runs are less than the size of the arrays apart. -/
def Within (size : Nat) (nodes : List (Int × Int)) : Prop :=
  ∀ m ∈ nodes, ∀ n ∈ nodes, n.2 - m.1 < size

variable {data1 data2 : Nat → Option Int} {place : Int → Nat} {nodes before behind : List (Int × Int)}
  {a b d : Int}

/-- The ends of the runs are numbers, and the others lie between them. -/
theorem within_iff {size : Nat} (apart : Apart nodes) :
    Within size nodes ↔ ∀ y ∈ cover nodes, ∀ z ∈ cover nodes, z - y < size := by
  constructor
  · intro within y early z late
    obtain ⟨m, first, low, -⟩ := mem_cover.mp early
    obtain ⟨n, last, -, high⟩ := mem_cover.mp late
    have := within m first n last
    omega
  · intro close m first n last
    exact close m.1 (mem_cover.mpr ⟨m, first, le_rfl, apart.nonempty m first⟩)
      n.2 (mem_cover.mpr ⟨n, last, apart.nonempty n last, le_rfl⟩)

/-- A cell of a run is no other's. -/
theorem HoldsRuns.other (runs : HoldsRuns data1 data2 place (before ++ (a, b) :: behind)) :
    ∀ n ∈ before ++ behind, place n.1 ≠ place a := by
  have distinct := runs.distinct
  rw [List.map_append, List.map_cons, List.nodup_middle, List.nodup_cons, ← List.map_append] at distinct
  exact fun n member same => distinct.1 (List.mem_map.mpr ⟨n, member, same⟩)

/-- A run is put into a free cell. -/
theorem HoldsRuns.put (runs : HoldsRuns data1 data2 place (before ++ behind))
    (free : place a ∉ (before ++ behind).map fun n => place n.1) (code : seqNo b = seqNo a ↔ b = a) :
    HoldsRuns (Function.update data1 (place a) (some (seqNo a)))
      (if seqNo b = seqNo a then data2 else Function.update data2 (place a) (some (seqNo b)))
      place (before ++ (a, b) :: behind) := by
  have other : ∀ n ∈ before ++ behind, place n.1 ≠ place a :=
    fun n member same => free (List.mem_map.mpr ⟨n, member, same⟩)
  have members : ∀ n, n ∈ before ++ (a, b) :: behind ↔ n = (a, b) ∨ n ∈ before ++ behind := by
    intro n
    simp only [List.mem_append, List.mem_cons]
    tauto
  refine ⟨?_, ?_, ?_, ?_⟩
  · rw [List.map_append, List.map_cons, List.nodup_middle, List.nodup_cons, ← List.map_append]
    exact ⟨free, runs.distinct⟩
  · intro n member
    rcases (members n).mp member with rfl | old
    · exact Function.update_self ..
    · rw [Function.update_of_ne (other n old), runs.starts n old]
  · intro n member
    rcases (members n).mp member with rfl | old
    · by_cases one : b = a
      · rw [if_pos (code.mpr one), if_pos one, (runs.blank _ free).2]
      · rw [if_neg (mt code.mp one), if_neg one, Function.update_self]
    · rw [← runs.ends n old]
      split
      · rfl
      · rw [Function.update_of_ne (other n old)]
  · intro i outside
    have away : i ≠ place a ∧ i ∉ (before ++ behind).map fun n => place n.1 := by
      simp only [List.map_append, List.map_cons, List.mem_append, List.mem_cons] at outside ⊢
      tauto
    obtain ⟨first, second⟩ := runs.blank i away.2
    rw [Function.update_of_ne away.1]
    refine ⟨first, ?_⟩
    split
    · exact second
    · rw [Function.update_of_ne away.1, second]

/-- The end of a run is moved. -/
theorem HoldsRuns.stretch (runs : HoldsRuns data1 data2 place (before ++ (a, b) :: behind)) (d : Int) :
    HoldsRuns data1 (Function.update data2 (place a) (if d = a then none else some (seqNo d)))
      place (before ++ (a, d) :: behind) := by
  have other := runs.other
  have cells : (before ++ (a, d) :: behind).map (fun n => place n.1) =
      (before ++ (a, b) :: behind).map (fun n => place n.1) := by simp
  have rest : ∀ n, n ∈ before ++ (a, d) :: behind → n = (a, d) ∨ n ∈ before ++ behind := by
    intro n
    simp only [List.mem_append, List.mem_cons]
    tauto
  have old : ∀ n ∈ before ++ behind, n ∈ before ++ (a, b) :: behind := by
    intro n
    simp only [List.mem_append, List.mem_cons]
    tauto
  refine ⟨cells ▸ runs.distinct, ?_, ?_, ?_⟩
  · intro n member
    rcases rest n member with rfl | kept
    · exact runs.starts (a, b) (by simp)
    · exact runs.starts n (old n kept)
  · intro n member
    rcases rest n member with rfl | kept
    · exact Function.update_self ..
    · rw [Function.update_of_ne (other n kept), runs.ends n (old n kept)]
  · intro i outside
    rw [cells] at outside
    have away : i ≠ place a := by
      rintro rfl
      exact outside (by simp)
    rw [Function.update_of_ne away]
    exact runs.blank i outside

/-- A run is taken out. -/
theorem HoldsRuns.drop (runs : HoldsRuns data1 data2 place (before ++ (a, b) :: behind)) :
    HoldsRuns (Function.update data1 (place a) none) (Function.update data2 (place a) none)
      place (before ++ behind) := by
  have other := runs.other
  have old : ∀ n ∈ before ++ behind, n ∈ before ++ (a, b) :: behind := by
    intro n
    simp only [List.mem_append, List.mem_cons]
    tauto
  refine ⟨?_, ?_, ?_, ?_⟩
  · have distinct := runs.distinct
    rw [List.map_append, List.map_cons, List.nodup_middle, List.nodup_cons, ← List.map_append] at distinct
    exact distinct.2
  · intro n member
    rw [Function.update_of_ne (other n member), runs.starts n (old n member)]
  · intro n member
    rw [Function.update_of_ne (other n member), runs.ends n (old n member)]
  · intro i outside
    by_cases here : i = place a
    · rw [here, Function.update_self, Function.update_self]
      exact ⟨rfl, rfl⟩
    · rw [Function.update_of_ne here, Function.update_of_ne here]
      refine runs.blank i ?_
      simp only [List.map_append, List.map_cons, List.mem_append, List.mem_cons] at outside ⊢
      tauto

/-- The cell of a number no run begins with is free. -/
theorem cell_free {size : Nat} {c x : Int} (positive : 0 < size) (close : ∀ n ∈ nodes, |n.1 - x| < size)
    (new : ∀ n ∈ nodes, n.1 ≠ x) : cell size c x ∉ nodes.map fun n => cell size c n.1 := by
  rw [List.mem_map]
  rintro ⟨n, member, same⟩
  exact new n member ((cell_inj positive (close n member)).mp same)

/-- The cell behind the number `x` of a run is free. -/
theorem next_free {size : Nat} {c x : Int} {n : Int × Int} (positive : 0 < size)
    (apart : Apart (before ++ n :: behind)) (within : Within size (before ++ n :: behind)) (first : n.1 ≤ x)
    (more : x < n.2) : cell size c (x + 1) ∉ (before ++ n :: behind).map fun m => cell size c m.1 := by
  obtain ⟨-, back, between⟩ := apart_append.mp apart
  obtain ⟨here, next, -⟩ := apart_cons.mp back
  have wide := within n (by simp) n (by simp)
  refine cell_free positive ?_ ?_
  · intro m member
    have := within m member n (by simp)
    have := within n (by simp) m member
    have := apart.nonempty m member
    exact abs_lt.mpr ⟨by omega, by omega⟩
  · intro m member
    have := apart.nonempty m member
    rcases List.mem_append.mp member with early | late
    · have := between m early n List.mem_cons_self
      omega
    · rcases List.mem_cons.mp late with rfl | later
      · omega
      · have := next m later
        omega

/-- What the cell of a number tells. -/
theorem HoldsRuns.begins {size : Nat} {c x : Int} (runs : HoldsRuns data1 data2 (cell size c) nodes)
    (positive : 0 < size) (close : ∀ n ∈ nodes, |n.1 - x| < size) :
    data1 (cell size c x) = some (seqNo x) ↔ ∃ n ∈ nodes, n.1 = x := by
  constructor
  · intro shown
    by_contra none
    push Not at none
    rw [(runs.blank _ (cell_free positive close none)).1] at shown
    cases shown
  · rintro ⟨n, member, rfl⟩
    exact runs.starts n member

/-- There are no more runs than cells. -/
theorem HoldsRuns.few {size : Nat} {c : Int} (runs : HoldsRuns data1 data2 (cell size c) nodes)
    (positive : 0 < size) : nodes.length ≤ size := by
  have inside : nodes.map (fun n => cell size c n.1) ⊆ List.range size := by
    intro i member
    obtain ⟨n, -, rfl⟩ := List.mem_map.mp member
    exact List.mem_range.mpr (cell_lt positive)
  simpa using (runs.distinct.subperm inside).length_le

/-- Empty arrays. -/
theorem HoldsRuns.none (place : Int → Nat) : HoldsRuns (fun _ => .none) (fun _ => .none) place [] :=
  ⟨List.nodup_nil, by simp, by simp, fun _ _ => ⟨rfl, rfl⟩⟩

end GreatEvent.Udt
