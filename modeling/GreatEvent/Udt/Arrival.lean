import GreatEvent.Udt.RcvLossCalls

/-!
# Which packets the receiver acknowledges

Packets come in any order, some of them again. From the greatest number and the
loss list the receiver knows which ones are missing, and it acknowledges
everything in front of the first of them.
-/

namespace GreatEvent.Udt

open CSeqNo Lib

/-- What `CUDT` knows of the packets it has received. -/
structure Receiver where
  m_pRcvLossList : RcvLossList
  m_iRcvCurrSeqNo : Int

namespace Receiver

/-- The loss detection of `processData`, for a packet that the buffer has taken. -/
def processData (rcv : Receiver) (seqno : Int) : Option Receiver :=
  (if 0 < seqcmp seqno (incseq rcv.m_iRcvCurrSeqNo) then
      rcv.m_pRcvLossList.insert (incseq rcv.m_iRcvCurrSeqNo) (decseq seqno)
    else some rcv.m_pRcvLossList).bind fun list =>
  if 0 < seqcmp seqno rcv.m_iRcvCurrSeqNo then some ⟨list, seqno⟩
  else (list.remove seqno).map fun r => ⟨r.2, rcv.m_iRcvCurrSeqNo⟩

/-- The number that `sendCtrl` acknowledges. -/
def ack (rcv : Receiver) : Option Int :=
  if rcv.m_pRcvLossList.getLossLength = 0 then some (incseq rcv.m_iRcvCurrSeqNo)
  else rcv.m_pRcvLossList.getFirstLostSeq

/-- After the handshake with a peer that begins with the number `isn`. -/
def init (size : Nat) (next prior : Nat → Option Nat) (isn : Int) : Receiver where
  m_pRcvLossList := .init size next prior
  m_iRcvCurrSeqNo := isn - 1

/-- The packets that have arrived, and the one up to which the peer has been told so. -/
structure Arrived where
  base : Int
  packets : Finset Int

/-- A packet arrives after everything before `base` has been acknowledged. -/
structure Arrival where
  base : Int
  x : Int

/-- A packet arrives. -/
def step (rcv : Receiver) (e : Arrival) : Option (Unit × Receiver) :=
  (rcv.processData (seqNo e.x)).map fun rcv => ((), rcv)

/-- The packet is one more of those that have arrived. -/
def arrive (s : Arrived) (e : Arrival) : Unit × Arrived := ((), ⟨e.base, insert e.x s.packets⟩)

/-- What is acknowledged has arrived, and the buffer has room for `size` packets from there on. -/
def MayArrive (size : Nat) (isn : Int) (s : Arrived) (e : Arrival) : Prop :=
  s.base ≤ e.base ∧ (∀ y ∈ Finset.Ico isn e.base, y ∈ s.packets) ∧ e.base ≤ e.x ∧ e.x < e.base + size

noncomputable instance (size : Nat) (isn : Int) (s : Arrived) (e : Arrival) : Decidable (MayArrive size isn s e) :=
  inferInstanceAs (Decidable (_ ∧ _))

/-- `cur` is the number of the packet `curr`; the one before the first packet, if that has number 0, is -1. -/
def Numbers (cur curr : Int) : Prop := cur = seqNo curr ∨ cur = -1 ∧ seqNo curr = maxSeqNo

theorem Numbers.incseq {cur curr : Int} (numbers : Numbers cur curr) : CSeqNo.incseq cur = seqNo (curr + 1) := by
  rcases numbers with rfl | ⟨rfl, last⟩
  · exact incseq_seqNo curr
  · rw [← incseq_seqNo, last]
    rfl

theorem Numbers.later {cur curr x : Int} (numbers : Numbers cur curr) (near : Near x curr) :
    0 < seqcmp (seqNo x) cur ↔ curr < x := by
  rcases numbers with rfl | ⟨rfl, last⟩
  · exact seqcmp_pos_iff near
  · rw [near_iff] at near
    unfold seqcmp
    simp only [abs_lt]
    unfold seqNo maxSeqNo at last
    unfold seqNo maxSeqNo seqNoTH
    split <;> omega

/-- The list shows which packets up to the greatest one have not arrived. -/
def Knows (size : Nat) (isn : Int) (rcv : Receiver) (s : Arrived) : Prop :=
  ∃ curr, Numbers rcv.m_iRcvCurrSeqNo curr ∧
    RcvLossList.Shows size rcv.m_pRcvLossList (Finset.Icc isn curr \ s.packets) ∧
    (∀ y ∈ s.packets, isn ≤ y ∧ y ≤ curr) ∧ (∀ y ∈ Finset.Ico isn s.base, y ∈ s.packets) ∧
    isn ≤ s.base ∧ s.base ≤ curr + 1 ∧ curr < s.base + size

section

variable {size : Nat} {isn : Int} {rcv : Receiver} {s : Arrived} {e : Arrival}

/-- `insert` and `remove` on a list that shows a set. -/
theorem insert_shows {st : RcvLossList} {missing : Finset Int} {a b : Int}
    (shows : RcvLossList.Shows size st missing) (allowed : RcvLossList.MayCall size missing (.insert a b)) :
    ∃ st', st.insert (seqNo a) (seqNo b) = some st' ∧ RcvLossList.Shows size st' (missing ∪ Finset.Icc a b) := by
  obtain ⟨st', ran, after⟩ := RcvLossList.refines_call st missing (.insert a b) shows allowed
  obtain ⟨st'', inserted, same⟩ := Option.map_eq_some_iff.mp ran
  obtain rfl : st'' = st' := congrArg Prod.snd same
  exact ⟨st'', inserted, after⟩

theorem remove_shows {st : RcvLossList} {missing : Finset Int} {x : Int}
    (shows : RcvLossList.Shows size st missing) (allowed : RcvLossList.MayCall size missing (.remove x)) :
    ∃ r, st.remove (seqNo x) = some r ∧ RcvLossList.Shows size r.2 (missing.erase x) := by
  obtain ⟨st', ran, after⟩ := RcvLossList.refines_call st missing (.remove x) shows allowed
  obtain ⟨r, removed, same⟩ := Option.map_eq_some_iff.mp ran
  obtain rfl : r.2 = st' := congrArg Prod.snd same
  exact ⟨r, removed, after⟩

/-- **A packet that arrives is no longer missing, those it has passed are.** -/
theorem Knows.step (small : size < seqNoTH) (knows : Knows size isn rcv s) (allowed : MayArrive size isn s e) :
    ∃ rcv', rcv.step e = some ((), rcv') ∧ Knows size isn rcv' (arrive s e).2 := by
  obtain ⟨curr, numbers, shows, inside, acked, begins, reached, room⟩ := knows
  obtain ⟨on, acked', first, last⟩ := allowed
  have reached' : e.base ≤ curr + 1 := by
    by_contra beyond
    have := inside _ (acked' (curr + 1) (Finset.mem_Ico.mpr ⟨by omega, by omega⟩))
    omega
  have missing : ∀ y ∈ Finset.Icc isn curr \ s.packets, e.base ≤ y ∧ y ≤ curr := by
    intro y member
    rw [Finset.mem_sdiff, Finset.mem_Icc] at member
    by_contra wrong
    exact member.2 (acked' y (Finset.mem_Ico.mpr ⟨by omega, by omega⟩))
  have near : Near e.x curr := abs_lt.mpr ⟨by omega, by omega⟩
  have nearNext : Near e.x (curr + 1) := abs_lt.mpr ⟨by omega, by omega⟩
  have known : ∀ y ∈ Finset.Ico isn e.base, y ∈ insert e.x s.packets := fun y member =>
    Finset.mem_insert_of_mem (acked' y member)
  unfold Receiver.step processData
  simp only [numbers.incseq, numbers.later near, seqcmp_pos_iff nearNext, decseq_seqNo]
  by_cases later : curr < e.x
  · have passed : ∃ st', (if curr + 1 < e.x then
          rcv.m_pRcvLossList.insert (seqNo (curr + 1)) (seqNo (e.x - 1)) else some rcv.m_pRcvLossList) = some st' ∧
        RcvLossList.Shows size st' (Finset.Icc isn e.x \ insert e.x s.packets) := by
      have set : Finset.Icc isn e.x \ insert e.x s.packets =
          (Finset.Icc isn curr \ s.packets) ∪ Finset.Icc (curr + 1) (e.x - 1) := by
        ext y
        simp only [Finset.mem_sdiff, Finset.mem_union, Finset.mem_Icc, Finset.mem_insert]
        by_cases arrived : y ∈ s.packets
        · have := inside y arrived
          simp only [arrived, or_true, not_true_eq_false, and_false, false_or, false_iff]
          omega
        · simp only [arrived, or_false, not_false_eq_true, and_true]
          omega
      rw [set]
      split
      case isTrue gap =>
        refine insert_shows shows ⟨by omega, by omega, fun y member => ?_⟩
        have := missing y member
        omega
      case isFalse next =>
        have none : Finset.Icc (curr + 1) (e.x - 1) = ∅ := Finset.Icc_eq_empty (by omega)
        rw [none, Finset.union_empty]
        exact ⟨_, rfl, shows⟩
    obtain ⟨st', ran, shows'⟩ := passed
    rw [ran, Option.bind_some, if_pos later]
    refine ⟨_, rfl, e.x, Or.inl rfl, shows', ?_, known, by dsimp only [arrive]; omega, by dsimp only [arrive]; omega,
      last⟩
    intro y member
    rcases Finset.mem_insert.mp member with rfl | old
    · exact ⟨by omega, le_rfl⟩
    · have := inside y old
      omega
  · rw [if_neg (by omega), Option.bind_some, if_neg later]
    obtain ⟨r, removed, shows'⟩ := remove_shows (x := e.x) shows fun y member => by
      have := missing y member
      omega
    have set : (Finset.Icc isn curr \ s.packets).erase e.x = Finset.Icc isn curr \ insert e.x s.packets :=
      (Finset.sdiff_insert ..).symm
    rw [removed]
    refine ⟨_, rfl, curr, numbers, set ▸ shows', ?_, known, by dsimp only [arrive]; omega, reached',
      by dsimp only [arrive]; omega⟩
    intro y member
    rcases Finset.mem_insert.mp member with rfl | old
    · exact ⟨by omega, by omega⟩
    · exact inside y old

/-- What is acknowledged is exactly what has arrived without a gap. -/
theorem Knows.ack (knows : Knows size isn rcv s) :
    ∃ a, rcv.ack = some (seqNo a) ∧ isn ≤ a ∧ (∀ y ∈ Finset.Ico isn a, y ∈ s.packets) ∧ a ∉ s.packets := by
  obtain ⟨curr, numbers, shows, inside, -, begins, reached, -⟩ := knows
  obtain ⟨st', length, -⟩ := RcvLossList.refines_call _ _ .getLossLength shows trivial
  obtain ⟨st'', first, -⟩ := RcvLossList.refines_call _ _ .getFirstLostSeq shows trivial
  have count : rcv.m_pRcvLossList.getLossLength = ((Finset.Icc isn curr \ s.packets).card : Int) :=
    Option.some.inj (congrArg Prod.fst (Option.some.inj length))
  obtain ⟨number, found, same⟩ := Option.map_eq_some_iff.mp first
  have number_eq := Option.some.inj (congrArg Prod.fst same)
  unfold Receiver.ack
  by_cases complete : Finset.Icc isn curr \ s.packets = ∅
  · rw [if_pos (by rw [count, complete]; rfl), numbers.incseq]
    refine ⟨curr + 1, rfl, by omega, fun y member => ?_, fun wrong => ?_⟩
    · rw [Finset.mem_Ico] at member
      exact Finset.sdiff_eq_empty_iff_subset.mp complete (Finset.mem_Icc.mpr ⟨member.1, by omega⟩)
    · have := inside _ wrong
      omega
  · have some' := Finset.nonempty_iff_ne_empty.mpr complete
    have least := Finset.min'_mem _ some'
    rw [if_neg (by rw [count]; exact_mod_cast (Finset.card_pos.mpr some').ne'), found, number_eq, dif_pos some']
    rw [Finset.mem_sdiff, Finset.mem_Icc] at least
    refine ⟨_, rfl, least.1.1, fun y member => ?_, least.2⟩
    rw [Finset.mem_Ico] at member
    by_contra absent
    have among : y ∈ Finset.Icc isn curr \ s.packets :=
      Finset.mem_sdiff.mpr ⟨Finset.mem_Icc.mpr ⟨member.1, by omega⟩, absent⟩
    have := Finset.min'_le _ y among
    omega

theorem mem_arrived {es : List Arrival} {y : Int} :
    y ∈ (answers arrive s es).2.packets ↔ y ∈ s.packets ∨ ∃ e ∈ es, e.x = y := by
  induction es generalizing s with
  | nil => simp [answers]
  | cons e es ih =>
    simp only [answers, ih, arrive, Finset.mem_insert, List.mem_cons, exists_eq_or_imp]
    rw [eq_comm (a := y), or_comm (b := y ∈ s.packets), or_assoc]

/-- **The receiver acknowledges what has arrived**, in whatever order packets come and come again. -/
theorem acknowledges_arrived (size : Nat) (positive : 0 < size) (small : size < seqNoTH)
    (next prior : Nat → Option Nat) (isn : Int) (number : 0 ≤ isn ∧ isn ≤ maxSeqNo) (es : List Arrival)
    (allowed : AllowedIn arrive (MayArrive size isn) ⟨isn, ∅⟩ es) :
    ∃ os rcv a, calls Receiver.step (init size next prior isn) es = some (os, rcv) ∧
      rcv.ack = some (seqNo a) ∧ isn ≤ a ∧ (∀ y ∈ Finset.Ico isn a, ∃ e ∈ es, e.x = y) ∧ ∀ e ∈ es, e.x ≠ a := by
  have start : Knows size isn (init size next prior isn) ⟨isn, ∅⟩ := by
    refine ⟨isn - 1, ?_, ?_, by simp, by simp, le_rfl, by dsimp only; omega, by dsimp only; omega⟩
    · unfold Numbers init seqNo
      unfold maxSeqNo at number ⊢
      dsimp only
      omega
    · rw [Finset.Icc_eq_empty (by omega), Finset.empty_sdiff]
      exact RcvLossList.shows_init positive small.le next prior
  have refines : Refines Receiver.step arrive (MayArrive size isn) (Knows size isn) :=
    fun rcv s e knows allowed => knows.step small allowed
  obtain ⟨rcv, ran, knows⟩ := refines.calls start allowed
  obtain ⟨a, acked, begins, arrived, missing⟩ := knows.ack
  refine ⟨_, rcv, a, ran, acked, begins, fun y member => ?_, fun e member same => ?_⟩
  · simpa using mem_arrived.mp (arrived y member)
  · exact missing (mem_arrived.mpr (Or.inr ⟨e, member, same⟩))

end

/-- Packets around the greatest number, two of them in the wrong order, one twice, one missing. -/
theorem acknowledges_arrived_wrap : ∃ os rcv a,
    calls Receiver.step (init 16 (fun _ => none) (fun _ => none) 2147483646)
      [⟨2147483646, 2147483648⟩, ⟨2147483646, 2147483646⟩, ⟨2147483647, 2147483650⟩, ⟨2147483647, 2147483648⟩,
        ⟨2147483647, 2147483647⟩] = some (os, rcv) ∧
    rcv.ack = some (seqNo a) ∧ ∀ y ∈ Finset.Ico 2147483646 a, ∃ e ∈ [(⟨2147483646, 2147483648⟩ : Arrival),
      ⟨2147483646, 2147483646⟩, ⟨2147483647, 2147483650⟩, ⟨2147483647, 2147483648⟩, ⟨2147483647, 2147483647⟩],
      e.x = y := by
  obtain ⟨os, rcv, a, ran, acked, -, arrived, -⟩ := acknowledges_arrived 16 (by decide) (by decide)
    (fun _ => none) (fun _ => none) 2147483646 (by decide) [⟨2147483646, 2147483648⟩, ⟨2147483646, 2147483646⟩,
      ⟨2147483647, 2147483650⟩, ⟨2147483647, 2147483648⟩, ⟨2147483647, 2147483647⟩] (by decide)
  exact ⟨os, rcv, a, ran, acked, arrived⟩

end Receiver

end GreatEvent.Udt
