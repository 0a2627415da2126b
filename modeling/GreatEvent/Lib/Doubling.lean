import Mathlib.Algebra.Group.Nat.Defs

/-!
# A length doubled until it is enough

The growth rule of a buffer: double the length while it is less than what is
needed. The result is at least that, and exactly that only if the need is the
length times a power of two.
-/

namespace Lib

/-- `while (length < need) length <<= 1;`, at most `fuel` times. -/
def doubleTo : Nat → Nat → Nat → Nat
  | 0, length, _ => length
  | fuel + 1, length, need => if length < need then doubleTo fuel (2 * length) need else length

/-- The length is doubled some number of times, and the last doubling was needed. -/
theorem doubleTo_cases {fuel length need : Nat} (pos : 0 < length) (enough : need ≤ fuel + length) :
    ∃ j, doubleTo fuel length need = length * 2 ^ j ∧ need ≤ length * 2 ^ j ∧
      (j = 0 ∨ length * 2 ^ j < 2 * need) := by
  induction fuel generalizing length with
  | zero => exact ⟨0, by rw [doubleTo, Nat.pow_zero, Nat.mul_one], by omega, .inl rfl⟩
  | succ fuel ih =>
    rw [doubleTo]
    split
    case isTrue short =>
      obtain ⟨j, grown, reached, last⟩ := ih (show 0 < 2 * length by omega) (by omega)
      have doubled : 2 * length * 2 ^ j = length * 2 ^ (j + 1) := by rw [Nat.pow_succ, Nat.mul_comm 2, Nat.mul_assoc, Nat.mul_comm 2]
      rw [doubled] at grown reached last
      refine ⟨j + 1, grown, reached, .inr ?_⟩
      rcases last with rfl | last
      · rw [Nat.zero_add, Nat.pow_one]
        omega
      · exact last
    case isFalse long => exact ⟨0, by rw [Nat.pow_zero, Nat.mul_one], by omega, .inl rfl⟩

theorem le_doubleTo {length : Nat} (need : Nat) (pos : 0 < length) : need ≤ doubleTo need length need := by
  obtain ⟨j, grown, reached, -⟩ := doubleTo_cases pos (Nat.le_add_right need length)
  rwa [grown]

/-- **The need is met exactly** if it is the length times a power of two. -/
theorem doubleTo_eq_iff {length need : Nat} (pos : 0 < length) :
    doubleTo need length need = need ↔ ∃ k, need = length * 2 ^ k := by
  obtain ⟨j, grown, reached, last⟩ := doubleTo_cases pos (Nat.le_add_right need length)
  rw [grown]
  constructor
  · intro exact'
    exact ⟨j, exact'.symm⟩
  · rintro ⟨k, rfl⟩
    have low : k ≤ j := (Nat.pow_le_pow_iff_right (Nat.lt_succ_self 1)).mp (Nat.le_of_mul_le_mul_left reached pos)
    rcases last with rfl | last
    · rw [Nat.le_zero.mp low]
    · have doubled : 2 * (length * 2 ^ k) = length * 2 ^ (k + 1) := by
        rw [Nat.pow_succ, Nat.mul_comm 2, Nat.mul_assoc]
      rw [doubled] at last
      have high : j < k + 1 := (Nat.pow_lt_pow_iff_right (Nat.lt_succ_self 1)).mp (Nat.lt_of_mul_lt_mul_left last)
      rw [Nat.le_antisymm low (Nat.le_of_lt_succ high)]

end Lib
