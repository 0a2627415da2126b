import GreatEvent.Udt.SndLossRemoval
import GreatEvent.Lib.Refinement

/-!
# `CSndLossList` is a set of numbers

In whatever order losses are reported, packets are sent again and
acknowledgements come in, the list is the set of the numbers reported and
neither sent again nor acknowledged, and gives the least of them first. The
numbers are those of the packets, which do not go around as the ones in the
list do.
-/

namespace GreatEvent.Udt

open CSeqNo Lib

/-- The calls on a loss list. -/
inductive SndLossCall where
  | insert (a b : Int)
  | remove (x : Int)
  | getLostSeq
  | getLossLength

namespace SndLossList

/-- A call and what it returns, if it returns something. -/
def call (st : SndLossList) : SndLossCall → Option (Option Int × SndLossList)
  | .insert a b => (st.insert (seqNo a) (seqNo b)).map fun r => (some r.1, r.2)
  | .remove x => (st.remove (seqNo x)).map fun st => (none, st)
  | .getLostSeq => st.getLostSeq.map fun r => (some r.1, r.2)
  | .getLossLength => some (some st.getLossLength, st)

/-- The calls on a set of packets. -/
noncomputable def onSet (s : Finset Int) : SndLossCall → Option Int × Finset Int
  | .insert a b => (some (Finset.Icc a b \ s).card, s ∪ Finset.Icc a b)
  | .remove x => (none, s.filter (x < ·))
  | .getLostSeq => if some' : s.Nonempty then (some (seqNo (s.min' some')), s.erase (s.min' some'))
      else (some (-1), s)
  | .getLossLength => (some s.card, s)

/-- Packets are reported that lie, with those of the set, less than `size` apart, and so does what is
acknowledged. -/
def MayCall (size : Nat) (s : Finset Int) : SndLossCall → Prop
  | .insert a b => a ≤ b ∧ ∀ y ∈ s ∪ Finset.Icc a b, ∀ z ∈ s ∪ Finset.Icc a b, z - y < size
  | .remove x => ∀ y ∈ s, y - x < size ∧ x - y < size
  | .getLostSeq => True
  | .getLossLength => True

noncomputable instance (size : Nat) (s : Finset Int) (e : SndLossCall) : Decidable (MayCall size s e) :=
  match e with
  | .insert _ _ => inferInstanceAs (Decidable (_ ∧ _))
  | .remove _ => inferInstanceAs (Decidable (∀ _ ∈ s, _))
  | .getLostSeq => inferInstanceAs (Decidable True)
  | .getLossLength => inferInstanceAs (Decidable True)

/-- The list holds the numbers of the packets in the set. -/
def Shows (size : Nat) (st : SndLossList) (s : Finset Int) : Prop :=
  ∃ nodes, Lists st nodes ∧ cover nodes = s ∧ st.m_iSize = size ∧ Within size nodes

variable {size : Nat} {next : Nat → Option Nat}

theorem shows_init (positive : 0 < size) (small : size ≤ seqNoTH) : Shows size (init size next) ∅ :=
  ⟨[], ⟨⟨by simp, List.Pairwise.nil⟩, ⟨0, positive, small, rfl, HoldsRuns.none _, by simp [init]⟩, rfl⟩, rfl,
    rfl, by simp [Within]⟩

/-- **A call does to the list what it does to the set.** -/
theorem refines_call : Refines call onSet (MayCall size) (Shows size) := by
  rintro st s e ⟨nodes, lists, rfl, rfl, within⟩ allowed
  have apart := lists.apart
  cases e with
  | insert a b =>
    obtain ⟨ordered, close⟩ := allowed
    have run : ∀ n ∈ nodes, n.1 ∈ cover nodes ∪ Finset.Icc a b ∧ n.2 ∈ cover nodes ∪ Finset.Icc a b := by
      intro n member
      have here := apart.nonempty n member
      exact ⟨Finset.mem_union_left _ (mem_cover.mpr ⟨n, member, le_rfl, here⟩),
        Finset.mem_union_left _ (mem_cover.mpr ⟨n, member, here, le_rfl⟩)⟩
    have first : a ∈ cover nodes ∪ Finset.Icc a b :=
      Finset.mem_union_right _ (Finset.left_mem_Icc.mpr ordered)
    have last : b ∈ cover nodes ∪ Finset.Icc a b :=
      Finset.mem_union_right _ (Finset.right_mem_Icc.mpr ordered)
    have fits : Fits st.m_iSize nodes a b :=
      ⟨ordered, close a first b last, fun n member => close a first n.2 (run n member).2,
        fun n member => close n.1 (run n member).1 b last, within⟩
    obtain ⟨nodes', ⟨st', ran, lists', size⟩, same⟩ := lists.insert fits
    refine ⟨st', ?_, nodes', lists', same, size, ?_⟩
    · have counted : total nodes' - total nodes = ((Finset.Icc a b \ cover nodes).card : Int) := by
        rw [← lists'.apart.card, ← apart.card, same, Finset.union_comm, ← Finset.card_sdiff_add_card]
        omega
      simp only [call, ran, onSet, Option.map_some, counted]
    · rw [within_iff lists'.apart, same]
      exact close
  | remove x =>
    have close : Close st.m_iSize nodes x := by
      intro n member
      have here := apart.nonempty n member
      exact ⟨(allowed n.2 (mem_cover.mpr ⟨n, member, here, le_rfl⟩)).1,
        (allowed n.1 (mem_cover.mpr ⟨n, member, le_rfl, here⟩)).2⟩
    obtain ⟨st', nodes', ran, lists', same, size⟩ := lists.remove within close
    refine ⟨st', by simp only [call, ran, onSet, Option.map_some], nodes', lists', same, size, ?_⟩
    rw [within_iff lists'.apart, same]
    rw [within_iff apart] at within
    exact fun y early z late => within y (Finset.mem_of_mem_filter y early) z (Finset.mem_of_mem_filter z late)
  | getLostSeq =>
    cases nodes with
    | nil =>
      have none : st.m_iLength = 0 := lists.length
      refine ⟨st, ?_, [], lists, rfl, rfl, within⟩
      simp [call, SndLossList.getLostSeq, none, onSet, cover]
    | cons n nodes =>
      obtain ⟨st', ran, lists', size⟩ := lists.getLostSeq within
      obtain ⟨apart', same, -⟩ := dropFirst_spec apart
      have among : n.1 ∈ cover (n :: nodes) :=
        mem_cover.mpr ⟨n, List.mem_cons_self, le_rfl, apart.nonempty n List.mem_cons_self⟩
      have least : (cover (n :: nodes)).min' ⟨n.1, among⟩ = n.1 :=
        (Finset.min'_eq_iff _ _ _).mpr ⟨among, fun y member => apart.least member⟩
      have some' : (cover (n :: nodes)).Nonempty := ⟨n.1, among⟩
      refine ⟨st', ?_, dropFirst n nodes, lists', ?_, size, ?_⟩
      · simp only [call, ran, onSet, Option.map_some, dif_pos some', least]
      · simp only [onSet, dif_pos some', least, same]
      · rw [within_iff apart', same]
        rw [within_iff apart] at within
        exact fun y early z late => within y (Finset.mem_of_mem_erase early) z (Finset.mem_of_mem_erase late)
  | getLossLength =>
    refine ⟨st, ?_, nodes, lists, rfl, rfl, within⟩
    simp only [call, onSet, getLossLength, lists.length, apart.card]

/-- **A loss list is the set of the lost packets**, through every history of calls. -/
theorem loss_list_is_set (size : Nat) (positive : 0 < size) (small : size ≤ seqNoTH)
    (next : Nat → Option Nat) (es : List SndLossCall) (allowed : AllowedIn onSet (MayCall size) ∅ es) :
    ∃ st', calls call (init size next) es = some ((answers onSet ∅ es).1, st') ∧
      Shows size st' (answers onSet ∅ es).2 :=
  refines_call.calls (shows_init positive small) allowed

/-- Losses around the greatest number, one of them again, an acknowledgement and two packets sent. -/
theorem loss_list_is_set_wrap : ∃ st', calls call (init 16 fun _ => none)
      [.insert 2147483646 2147483649, .insert 2147483651 2147483652, .insert 2147483648 2147483651,
        .remove 2147483646, .getLostSeq, .getLostSeq, .getLossLength] =
    some ([some 4, some 2, some 1, none, some 2147483647, some 0, some 4], st') := by
  obtain ⟨st', ran, -⟩ := loss_list_is_set 16 (by decide) (by decide) (fun _ => none)
    [.insert 2147483646 2147483649, .insert 2147483651 2147483652, .insert 2147483648 2147483651,
      .remove 2147483646, .getLostSeq, .getLostSeq, .getLossLength] (by decide)
  exact ⟨st', ran⟩

end SndLossList

end GreatEvent.Udt
