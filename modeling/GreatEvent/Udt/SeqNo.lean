import Mathlib

/-!
# `CSeqNo`: numbers that go around

Packets carry numbers from 0 to `m_iMaxSeqNo`, after which they begin again.
Of two packets less than `m_iSeqNoTH` apart the functions of `CSeqNo` tell
which comes first and how far apart they are.
-/

namespace GreatEvent.Udt.CSeqNo

/-- `m_iSeqNoTH` -/
def seqNoTH : Int := 0x3FFFFFFF

/-- `m_iMaxSeqNo` -/
def maxSeqNo : Int := 0x7FFFFFFF

def seqcmp (seq1 seq2 : Int) : Int :=
  if |seq1 - seq2| < seqNoTH then seq1 - seq2 else seq2 - seq1

def seqlen (seq1 seq2 : Int) : Int :=
  if seq1 ≤ seq2 then seq2 - seq1 + 1 else seq2 - seq1 + maxSeqNo + 2

def seqoff (seq1 seq2 : Int) : Int :=
  if |seq1 - seq2| < seqNoTH then seq2 - seq1
  else if seq1 < seq2 then seq2 - seq1 - maxSeqNo - 1
  else seq2 - seq1 + maxSeqNo + 1

def incseq (seq : Int) : Int := if seq = maxSeqNo then 0 else seq + 1

def decseq (seq : Int) : Int := if seq = 0 then maxSeqNo else seq - 1

/-- The number of the `n`-th packet, counted from one with number 0. -/
def seqNo (n : Int) : Int := n % (maxSeqNo + 1)

/-- Two packets less than the threshold apart. -/
def Near (a b : Int) : Prop := |a - b| < seqNoTH

instance (a b : Int) : Decidable (Near a b) := inferInstanceAs (Decidable (_ < _))

section

variable {a b : Int}

theorem near_iff : Near a b ↔ a - b < 0x3FFFFFFF ∧ b - a < 0x3FFFFFFF := by
  rw [Near, abs_lt, seqNoTH]
  omega

theorem Near.symm (near : Near a b) : Near b a := by
  rw [near_iff] at near ⊢
  exact near.symm

/-- Near packets have different numbers. -/
theorem seqNo_inj (near : Near a b) : seqNo a = seqNo b ↔ a = b := by
  rw [near_iff] at near
  unfold seqNo maxSeqNo
  omega

theorem incseq_seqNo (n : Int) : incseq (seqNo n) = seqNo (n + 1) := by
  unfold incseq seqNo maxSeqNo
  split <;> omega

theorem decseq_seqNo (n : Int) : decseq (seqNo n) = seqNo (n - 1) := by
  unfold decseq seqNo maxSeqNo
  split <;> omega

theorem seqoff_seqNo (near : Near a b) : seqoff (seqNo a) (seqNo b) = b - a := by
  rw [near_iff] at near
  unfold seqoff
  simp only [abs_lt]
  unfold seqNo maxSeqNo seqNoTH
  split
  case isTrue => omega
  case isFalse => split <;> omega

theorem seqlen_seqNo (before : a ≤ b) (near : Near a b) : seqlen (seqNo a) (seqNo b) = b - a + 1 := by
  rw [near_iff] at near
  unfold seqlen seqNo maxSeqNo
  split <;> omega

/-- The sign of `seqcmp` is the order of the packets. -/
theorem seqcmp_pos_iff (near : Near a b) : 0 < seqcmp (seqNo a) (seqNo b) ↔ b < a := by
  rw [near_iff] at near
  unfold seqcmp
  simp only [abs_lt]
  unfold seqNo maxSeqNo seqNoTH
  split <;> omega

theorem seqcmp_neg_iff (near : Near a b) : seqcmp (seqNo a) (seqNo b) < 0 ↔ a < b := by
  rw [near_iff] at near
  unfold seqcmp
  simp only [abs_lt]
  unfold seqNo maxSeqNo seqNoTH
  split <;> omega

theorem seqcmp_nonneg_iff (near : Near a b) : 0 ≤ seqcmp (seqNo a) (seqNo b) ↔ b ≤ a := by
  rw [← not_lt, seqcmp_neg_iff near, not_lt]

theorem seqcmp_nonpos_iff (near : Near a b) : seqcmp (seqNo a) (seqNo b) ≤ 0 ↔ a ≤ b := by
  rw [← not_lt, seqcmp_pos_iff near, not_lt]

end

end GreatEvent.Udt.CSeqNo
