import Mathlib.Algebra.Group.Int.Defs
import Mathlib.Algebra.Group.Nat.Defs

/-!
# Stamping one code over a memory

A program stores the same `k` values at several places of a memory, one
place after another and over whatever stands there. At every address the
last place that covers it decides (`stampAll_apply`). A code that does not
meet itself when it is shifted (`Unbordered`) reads at an address just when
the last place that touches it there is that address, or none touches it and
it stood there before (`reads_stampAll_iff`).
-/

namespace Lib

variable {α : Type}

/-- The code stored at `place` lies over `i`. -/
def Covers (k : Nat) (place i : Int) : Prop := place ≤ i ∧ i < place + k

/-- The code stored at `place` lies over some of the `k` addresses from `i` on. -/
def Touches (k : Nat) (place i : Int) : Prop := place < i + k ∧ i < place + k

instance (k : Nat) (place i : Int) : Decidable (Covers k place i) :=
  inferInstanceAs (Decidable (_ ∧ _))

instance (k : Nat) (place i : Int) : Decidable (Touches k place i) :=
  inferInstanceAs (Decidable (_ ∧ _))

/-- The memory after the code has been stored at `place`. -/
def stamp (k : Nat) (code : Nat → α) (mem : Int → α) (place : Int) : Int → α := fun i =>
  if Covers k place i then code (i - place).toNat else mem i

/-- The memory after it has been stored at every place, in order. -/
def stampAll (k : Nat) (code : Nat → α) (mem : Int → α) (places : List Int) : Int → α :=
  places.foldl (stamp k code) mem

/-- The last place over `i`. -/
def lastOver (k : Nat) (places : List Int) (i : Int) : Option Int :=
  places.reverse.find? fun place => Covers k place i

/-- The last place that touches the `k` addresses from `i` on. -/
def lastTouching (k : Nat) (places : List Int) (i : Int) : Option Int :=
  places.reverse.find? fun place => Touches k place i

/-- The code reads from `i` on. -/
def Reads (k : Nat) (code : Nat → α) (mem : Int → α) (i : Int) : Prop :=
  ∀ j : Nat, j < k → mem (i + j) = code j

/-- The code differs from itself however it is shifted. -/
def Unbordered (k : Nat) (code : Nat → α) : Prop :=
  ∀ d : Nat, 0 < d → d < k → ∃ j, j + d < k ∧ code (j + d) ≠ code j

section
variable {k : Nat} {code : Nat → α} {mem : Int → α} {places : List Int}

theorem stampAll_concat (place : Int) :
    stampAll k code mem (places ++ [place]) = stamp k code (stampAll k code mem places) place := by
  rw [stampAll, List.foldl_append]
  rfl

/-- **The last place over an address decides.** -/
theorem stampAll_apply (i : Int) : stampAll k code mem places i =
    match lastOver k places i with
    | some place => code (i - place).toNat
    | none => mem i := by
  unfold stampAll lastOver
  rw [List.foldl_eq_foldr_reverse]
  induction places.reverse with
  | nil => rfl
  | cons place earlier ih =>
    rw [List.foldr_cons, List.find?_cons, stamp]
    by_cases covered : Covers k place i
    · rw [if_pos covered]
      simp only [covered, decide_true]
    · rw [if_neg covered, ih]
      simp only [covered, decide_false]

theorem stampAll_of_over {i place : Int} (last : lastOver k places i = some place) :
    stampAll k code mem places i = code (i - place).toNat := by
  rw [stampAll_apply, last]

theorem stampAll_of_clear {i : Int} (clear : lastOver k places i = none) :
    stampAll k code mem places i = mem i := by
  rw [stampAll_apply, clear]

theorem stampAll_of_apart {i : Int} (apart : ∀ place ∈ places, ¬ Covers k place i) :
    stampAll k code mem places i = mem i := by
  apply stampAll_of_clear
  apply List.find?_eq_none.mpr
  intro place member
  simpa using apart place (List.mem_reverse.mp member)

/-- An address that some place covers has a last one. -/
theorem exists_lastOver {i place : Int} (member : place ∈ places) (covers : Covers k place i) :
    ∃ last, lastOver k places i = some last := by
  apply Option.isSome_iff_exists.mp
  rw [lastOver, List.find?_isSome]
  exact ⟨place, List.mem_reverse.mpr member, decide_eq_true covers⟩

theorem touches_of_lastTouching {i place : Int} (last : lastTouching k places i = some place) :
    Touches k place i := by
  simpa using List.find?_some last

theorem Covers.touches {place i : Int} {j : Nat} (covers : Covers k place (i + j)) (within : j < k) :
    Touches k place i := by
  unfold Covers at covers
  constructor
  · omega
  · omega

/-- The last place that touches a field is the last one over each address of the field it covers. -/
theorem lastOver_of_touching {i place : Int} {j : Nat} (last : lastTouching k places i = some place)
    (within : j < k) (covers : Covers k place (i + j)) : lastOver k places (i + j) = some place := by
  obtain ⟨-, later, earlier, split, clear⟩ := List.find?_eq_some_iff_append.mp last
  apply List.find?_eq_some_iff_append.mpr
  refine ⟨decide_eq_true covers, later, earlier, split, fun other member => ?_⟩
  have apart : ¬ Touches k other i := by simpa using clear other member
  have beside : ¬ Covers k other (i + j) := fun covered => apart (covered.touches within)
  simpa using beside

theorem lastOver_of_untouched {i : Int} {j : Nat} (none' : lastTouching k places i = none)
    (within : j < k) : lastOver k places (i + j) = none := by
  apply List.find?_eq_none.mpr
  intro other member
  have apart : ¬ Touches k other i := by simpa using List.find?_eq_none.mp none' other member
  have beside : ¬ Covers k other (i + j) := fun covered => apart (covered.touches within)
  simpa using beside

/-- **Where the code reads**: at the last place that touches the field, or, if none does, where it
stood before. -/
theorem reads_stampAll_iff (unbordered : Unbordered k code) (i : Int) :
    Reads k code (stampAll k code mem places) i ↔
      lastTouching k places i = some i ∨ lastTouching k places i = none ∧ Reads k code mem i := by
  constructor
  · intro reads
    cases last : lastTouching k places i with
    | none =>
      refine .inr ⟨rfl, fun j within => ?_⟩
      rw [← reads j within, stampAll_of_clear (lastOver_of_untouched last within)]
    | some place =>
      left
      have touches := touches_of_lastTouching last
      unfold Touches at touches
      rcases Int.lt_trichotomy place i with before | same | behind
      · -- the code starts in front of the field and is shifted against it
        obtain ⟨j, inside, differs⟩ := unbordered (i - place).toNat (by omega) (by omega)
        have covers : Covers k place (i + j) := ⟨by omega, by omega⟩
        have value : stampAll k code mem places (i + j) = code (i + j - place).toNat :=
          stampAll_of_over (lastOver_of_touching last (by omega) covers)
        rw [reads j (by omega)] at value
        have shifted : (i + j - place).toNat = j + (i - place).toNat := by omega
        rw [shifted] at value
        exact absurd value.symm differs
      · rw [same]
      · obtain ⟨j, inside, differs⟩ := unbordered (place - i).toNat (by omega) (by omega)
        have covers : Covers k place (i + (j + (place - i).toNat : Nat)) := ⟨by omega, by omega⟩
        have value : stampAll k code mem places (i + (j + (place - i).toNat : Nat)) =
            code (i + (j + (place - i).toNat : Nat) - place).toNat :=
          stampAll_of_over (lastOver_of_touching last inside covers)
        rw [reads _ inside] at value
        have shifted : (i + (j + (place - i).toNat : Nat) - place).toNat = j := by omega
        rw [shifted] at value
        exact absurd value differs
  · rintro (last | ⟨last, stood⟩) j within
    · have covers : Covers k i (i + j) := ⟨by omega, by omega⟩
      rw [stampAll_of_over (lastOver_of_touching last within covers)]
      congr 1
      omega
    · rw [stampAll_of_clear (lastOver_of_untouched last within)]
      exact stood j within

end

end Lib
