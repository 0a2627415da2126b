import GreatEvent.Udt.SndLossCalls
import GreatEvent.Udt.RcvLossCalls

/-!
# The loss report

The receiver writes its missing packets into a control packet, as many as it
has room for, and the sender puts those that it has not seen acknowledged into
its own loss list.
-/

namespace GreatEvent.Udt

open CSeqNo Lib

/-- The words of a run. -/
def words (n : Int × Int) : List Int :=
  if n.2 = n.1 then [seqNo n.1] else [RcvLossList.flag (seqNo n.1), seqNo n.2]

/-- The runs that are reported, with so much room. -/
def reported : Int → List (Int × Int) → List (Int × Int)
  | _, [] => []
  | limit, n :: ns => if 0 < limit - 1 then n :: reported (limit - (words n).length) ns else []

section receiver

variable {st : RcvLossList} {c : Int} {nodes : List (Int × Int)} {p : Option Nat} {limit : Int} {fuel : Nat}

end receiver

section sender

variable {size : Nat} {st : SndLossList} {s : Finset Int} {ack curr a b : Int} {nodes : List (Int × Int)}

/-- `insert` on a list that shows a set. -/
theorem SndLossList.Shows.insert (shows : SndLossList.Shows size st s)
    (allowed : SndLossList.MayCall size s (.insert a b)) :
    ∃ r, st.insert (seqNo a) (seqNo b) = some r ∧ SndLossList.Shows size r.2 (s ∪ Finset.Icc a b) := by
  obtain ⟨st', ran, after⟩ := SndLossList.refines_call st s (.insert a b) shows allowed
  obtain ⟨r, inserted, same⟩ := Option.map_eq_some_iff.mp ran
  obtain rfl : r.2 = st' := congrArg Prod.snd same
  exact ⟨r, inserted, after⟩

end sender

end GreatEvent.Udt
