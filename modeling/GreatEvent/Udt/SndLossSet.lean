import GreatEvent.Udt.SndLossCells

/-!
# What enters a `CSndLossList`

`insert` puts the numbers before the head, into a run that begins with them,
behind the prior run or onto it, and then coalesces. On every one of these
paths the list becomes the numbers it had and the new ones, and the length
grows by those that were not there.
-/

namespace GreatEvent.Udt.SndLossList

open CSeqNo Lib

/-- The list holds these runs, one behind the other. -/
structure Lists (st : SndLossList) (nodes : List (Int × Int)) : Prop where
  apart : Apart nodes
  held : ∃ c, Held st c st.m_iHead nodes
  length : st.m_iLength = total nodes

/-- What is left of `insert` leaves the runs `nodes` and returns how much longer they are. -/
def Ends (result : Option (Int × SndLossList)) (st : SndLossList) (nodes nodes' : List (Int × Int)) :
    Prop :=
  ∃ st', result = some (total nodes' - total nodes, st') ∧ Lists st' nodes' ∧ st'.m_iSize = st.m_iSize

/-- What is left of `insert` adds the numbers `a` to `b`. -/
def Inserts (result : Option (Int × SndLossList)) (st : SndLossList) (nodes : List (Int × Int))
    (a b : Int) : Prop :=
  ∃ nodes', Ends result st nodes nodes' ∧ cover nodes' = cover nodes ∪ Finset.Icc a b

variable {st : SndLossList} {c : Int} {nodes before behind : List (Int × Int)} {n : Int × Int} {a b d : Int}

/-- The numbers `a` to `b` and those in the list are less than the size of the arrays apart. -/
structure Fits (size : Nat) (nodes : List (Int × Int)) (a b : Int) : Prop where
  ordered : a ≤ b
  short : b - a < size
  below : ∀ n ∈ nodes, n.2 - a < size
  above : ∀ n ∈ nodes, b - n.1 < size
  inside : ∀ m ∈ nodes, ∀ n ∈ nodes, n.2 - m.1 < size

/-- `finish` with the run `a` to `b` put where it belongs. -/
theorem Held.finish (held : Held st c st.m_iHead (before ++ (a, b) :: behind))
    (nodes : List (Int × Int))
    (last : st.m_iLastInsertPos = some (cell st.m_iSize c a)) (apart : Apart (before ++ behind))
    (ordered : a ≤ b) (first : ∀ m ∈ before, m.2 < a) (after : ∀ n ∈ behind, a < n.1)
    (close : b - a < st.m_iSize) (within : ∀ n ∈ behind, n.2 - a < st.m_iSize)
    (length : st.m_iLength = total (before ++ (a, b) :: behind)) :
    Ends (st.finish (cell st.m_iSize c a) (total nodes)) st nodes (before ++ swallow a b behind) := by
  obtain ⟨front, back, -⟩ := apart_append.mp apart
  have enough : behind.length ≤ st.m_iSize := by
    have := held.few
    simp only [List.length_append, List.length_cons] at this
    omega
  obtain ⟨st', ran, ended, counted, sameHead, sameSize⟩ :=
    held.coalesce last ordered close back after within enough
  have total' : st'.m_iLength = total (before ++ swallow a b behind) := by
    rw [total_append] at length ⊢
    omega
  refine ⟨st', ?_, ⟨?_, ⟨c, sameHead.symm ▸ ended⟩, total'⟩, sameSize⟩
  · rw [SndLossList.finish, ran, Option.map_some, total']
  · refine apart_append.mpr ⟨front, apart_swallow ordered back after, fun m member n among => ?_⟩
    exact (first m member).trans_le (swallow_begins ordered back after n among)

section fits

variable (apart : Apart nodes) (fits : Fits st.m_iSize nodes a b)

include apart fits

theorem Fits.close : ∀ m ∈ nodes, |m.1 - a| < st.m_iSize := by
  intro m member
  have := fits.below m member
  have := fits.above m member
  have := fits.ordered
  have := apart.nonempty m member
  exact abs_lt.mpr ⟨by omega, by omega⟩

theorem Fits.close_end : ∀ m ∈ nodes, |m.2 - a| < st.m_iSize := by
  intro m member
  have := fits.below m member
  have := fits.above m member
  have := fits.ordered
  have := apart.nonempty m member
  exact abs_lt.mpr ⟨by omega, by omega⟩

theorem Fits.ends_close : ∀ m ∈ nodes, |m.2 - b| < st.m_iSize := by
  intro m member
  have := fits.below m member
  have := fits.above m member
  have := fits.ordered
  have := apart.nonempty m member
  exact abs_lt.mpr ⟨by omega, by omega⟩

end fits

theorem Fits.width (fits : Fits st.m_iSize nodes a b) : |a - b| < st.m_iSize := by
  have := fits.short
  have := fits.ordered
  exact abs_lt.mpr ⟨by omega, by omega⟩

/-- The length of the numbers inserted. -/
theorem Held.seqlen (held : Held st c st.m_iHead nodes) (fits : Fits st.m_iSize nodes a b) :
    CSeqNo.seqlen (seqNo a) (seqNo b) = b - a + 1 :=
  seqlen_seqNo fits.ordered (held.near fits.width)

/-- `insert` before the head. -/
theorem Lists.insertHead (lists : Lists st (n :: nodes)) (held : Held st c st.m_iHead (n :: nodes))
    (fits : Fits st.m_iSize (n :: nodes) a b) (smaller : a < n.1) :
    Inserts ((st.insertHead (cell st.m_iSize c n.1) (cell st.m_iSize c a) (seqNo a) (seqNo b)).finish
      (cell st.m_iSize c a) st.m_iLength) st (n :: nodes) a b := by
  rw [lists.length]
  have after : ∀ m ∈ n :: nodes, a < m.1 := by
    intro m member
    rcases List.mem_cons.mp member with rfl | behind
    · exact smaller
    · exact smaller.trans (lists.apart.begins_behind behind)
  have free : cell st.m_iSize c a ∉ (n :: nodes).map fun n => cell st.m_iSize c n.1 :=
    cell_free held.positive (fits.close lists.apart) fun m member => (after m member).ne'
  have inserted : Held (st.insertHead (cell st.m_iSize c n.1) (cell st.m_iSize c a) (seqNo a) (seqNo b))
      c (some (cell st.m_iSize c a)) ([] ++ (a, b) :: n :: nodes) :=
    held.insertHead held.linked.1 free fits.width
  refine ⟨_, inserted.finish _ rfl lists.apart fits.ordered (by simp) after fits.short fits.below ?_, ?_⟩
  have length : (st.insertHead (cell st.m_iSize c n.1) (cell st.m_iSize c a) (seqNo a) (seqNo b)).m_iLength =
      st.m_iLength + CSeqNo.seqlen (seqNo a) (seqNo b) := rfl
  · rw [length, held.seqlen fits, lists.length, List.nil_append, total_cons (n := (a, b))]
    omega
  · rw [List.nil_append, cover_swallow fits.ordered lists.apart after, cover_cons, Finset.union_comm]

/-- `insert` of a new node behind the node `n`. -/
theorem Lists.insertBehind (lists : Lists st (before ++ n :: behind))
    (held : Held st c st.m_iHead (before ++ n :: behind))
    (fits : Fits st.m_iSize (before ++ n :: behind) a b) (less : n.2 < a) (after : ∀ m ∈ behind, a < m.1) :
    Inserts ((st.insertBehind (cell st.m_iSize c n.1) (cell st.m_iSize c a) (seqNo a) (seqNo b)).finish
      (cell st.m_iSize c a) st.m_iLength) st (before ++ n :: behind) a b := by
  rw [lists.length]
  obtain ⟨front, back, between⟩ := apart_append.mp lists.apart
  obtain ⟨here, -, -⟩ := apart_cons.mp back
  have first : ∀ m ∈ before ++ [n], m.2 < a := by
    intro m member
    rcases List.mem_append.mp member with early | itself
    · exact (between m early n List.mem_cons_self).trans (here.trans_lt less)
    · exact (List.mem_singleton.mp itself) ▸ less
  have new : ∀ m ∈ before ++ n :: behind, m.1 ≠ a := by
    intro m member
    have ordered := lists.apart.nonempty m member
    rw [List.append_cons] at member
    rcases List.mem_append.mp member with early | late
    · exact (ordered.trans_lt (first m early)).ne
    · exact (after m late).ne'
  have inserted := held.insertBehind (cell_free held.positive (fits.close lists.apart) new) fits.width
  rw [List.append_cons] at inserted
  obtain ⟨-, -, rest⟩ := apart_cons.mp back
  refine ⟨_, inserted.finish _ rfl ?_ fits.ordered first after fits.short ?_ ?_, ?_⟩
  · exact List.append_cons before n behind ▸ lists.apart
  · exact fun m member => fits.below m (by simp [member])
  · have length : (st.insertBehind (cell st.m_iSize c n.1) (cell st.m_iSize c a) (seqNo a)
        (seqNo b)).m_iLength = st.m_iLength + CSeqNo.seqlen (seqNo a) (seqNo b) := rfl
    rw [length, held.seqlen fits, lists.length]
    simp only [total_append, total]
    omega
  · rw [cover_append, cover_swallow fits.ordered rest after]
    simp only [cover_append, cover, Finset.union_empty, Finset.union_assoc]
    rw [Finset.union_comm (Finset.Icc a b)]

/-- `insert` of numbers that are all there. -/
theorem Lists.unchanged (lists : Lists st (before ++ n :: behind))
    (held : Held st c st.m_iHead (before ++ n :: behind)) (first : n.1 ≤ a) (last : b ≤ n.2) :
    Inserts (some (0, { st with m_iLastInsertPos := some (cell st.m_iSize c n.1) })) st
      (before ++ n :: behind) a b := by
  refine ⟨_, ⟨_, by rw [sub_self], ⟨lists.apart, ⟨c, held.recall⟩, lists.length⟩, rfl⟩, ?_⟩
  rw [eq_comm, Finset.union_eq_left]
  intro x member
  rw [Finset.mem_Icc] at member
  exact mem_cover.mpr ⟨n, by simp, by omega, by omega⟩

/-- `insert` of numbers that the node `n` has or that lengthen it to `b`. -/
theorem Lists.reach (lists : Lists st (before ++ n :: behind)) {st' : SndLossList}
    (held : Held st' c st'.m_iHead (before ++ (n.1, b) :: behind))
    (fits : Fits st.m_iSize (before ++ n :: behind) a b) (first : n.1 ≤ a) (meets : a ≤ n.2)
    (longer : n.2 ≤ b) (last : st'.m_iLastInsertPos = some (cell st'.m_iSize c n.1))
    (size : st'.m_iSize = st.m_iSize) (length : st'.m_iLength = st.m_iLength + (b - n.2)) :
    Inserts (st'.finish (cell st.m_iSize c n.1) st.m_iLength) st (before ++ n :: behind) a b := by
  rw [lists.length, ← size]
  obtain ⟨front, back, between⟩ := apart_append.mp lists.apart
  obtain ⟨here, next, rest⟩ := apart_cons.mp back
  have after : ∀ m ∈ behind, n.1 < m.1 := fun m late => here.trans_lt (next m late)
  obtain ⟨st'', ran, lists', same⟩ := held.finish (before ++ n :: behind) last
    (apart_append.mpr ⟨front, rest, fun m early k late => between m early k (List.mem_cons_of_mem _ late)⟩)
    (here.trans longer) (fun m early => between m early n List.mem_cons_self) after
    (size ▸ fits.above n (by simp)) (fun m late => size ▸ fits.inside n (by simp) m (by simp [late]))
    (by
      rw [length, lists.length]
      simp only [total_append, total_cons]
      omega)
  refine ⟨_, ⟨st'', ran, lists', same.trans size⟩, ?_⟩
  have whole : Finset.Icc n.1 b = Finset.Icc n.1 n.2 ∪ Finset.Icc a b := by
    ext x
    simp only [Finset.mem_union, Finset.mem_Icc]
    omega
  rw [cover_append, cover_swallow (here.trans longer) rest after, cover_append, cover_cons, cover_cons, whole]
  simp only [Finset.union_assoc, Finset.union_comm (Finset.Icc a b)]

/-- `insert` of numbers that begin with the first one of a node. -/
theorem Lists.insertSame (lists : Lists st (before ++ n :: behind))
    (held : Held st c st.m_iHead (before ++ n :: behind))
    (fits : Fits st.m_iSize (before ++ n :: behind) n.1 b) :
    Inserts (match compare2 { st with m_iLastInsertPos := some (cell st.m_iSize c n.1) }
        (cell st.m_iSize c n.1) (seqNo n.1) (seqNo b) with
      | none => some (0, { st with m_iLastInsertPos := some (cell st.m_iSize c n.1) })
      | some st' => st'.finish (cell st.m_iSize c n.1) st.m_iLength) st (before ++ n :: behind) n.1 b := by
  have ends := held.runs.ends n (by simp)
  have here := lists.apart.nonempty n (by simp)
  have recalled : Held { st with m_iLastInsertPos := some (cell st.m_iSize c n.1) } c st.m_iHead
    (before ++ (n.1, n.2) :: behind) := held.recall
  unfold compare2
  by_cases one : n.2 = n.1
  · rw [if_pos one] at ends
    simp only [ends, held.code fits.width]
    have := fits.ordered
    split
    case isTrue same =>
      rw [one.trans same.symm] at recalled
      exact lists.reach recalled fits le_rfl here (one.trans same.symm).le rfl rfl
        (by dsimp only; omega)
    case isFalse more =>
      rw [held.seqlen fits]
      exact lists.reach (recalled.stretch more _) fits le_rfl here (by omega) rfl rfl
        (by dsimp only [SndLossList.stretch]; omega)
  · rw [if_neg one] at ends
    have close := held.near (fits.ends_close lists.apart n (by simp))
    simp only [ends, seqcmp_pos_iff close.symm]
    by_cases longer : n.2 < b
    · simp only [if_pos longer, seqlen_seqNo longer.le close]
      exact lists.reach (recalled.stretch (by omega) _) fits le_rfl here longer.le rfl rfl
        (by dsimp only [SndLossList.stretch]; omega)
    · simp only [if_neg longer]
      exact lists.unchanged held le_rfl (not_lt.mp longer)

/-- `insert` where no node begins with `a`, behind the prior node. -/
theorem Lists.insertAfter (lists : Lists st (before ++ n :: behind))
    (held : Held st c st.m_iHead (before ++ n :: behind))
    (fits : Fits st.m_iSize (before ++ n :: behind) a b) (first : n.1 < a) (after : ∀ m ∈ behind, a < m.1) :
    Inserts (st.insertAfter (cell st.m_iSize c n.1) (cell st.m_iSize c a) (seqNo a) (seqNo b)) st
      (before ++ n :: behind) a b := by
  have ends := held.runs.ends n (by simp)
  have here := lists.apart.nonempty n (by simp)
  unfold SndLossList.insertAfter
  by_cases one : n.2 = n.1
  · rw [if_pos one] at ends
    simp only [ends]
    exact lists.insertBehind held fits (one.trans_lt first) after
  · rw [if_neg one] at ends
    have close := held.near (fits.ends_close lists.apart n (by simp))
    simp only [ends, seqcmp_neg_iff (held.near (fits.close_end lists.apart n (by simp))), seqcmp_neg_iff close]
    by_cases apart : n.2 < a
    · rw [if_pos apart]
      exact lists.insertBehind held fits apart after
    · rw [if_neg apart]
      by_cases longer : n.2 < b
      · rw [if_pos longer, seqlen_seqNo longer.le close]
        exact lists.reach (held.recall.stretch (by omega) _) fits first.le (not_lt.mp apart) longer.le rfl
          rfl (by dsimp only [SndLossList.stretch]; omega)
      · rw [if_neg longer]
        exact lists.unchanged held first.le (not_lt.mp longer)

theorem Held.place (held : Held st c st.m_iHead nodes) (behind : -st.m_iSize < b - a) :
    st.place (cell st.m_iSize c a) (b - a) = some (cell st.m_iSize c b) := by
  obtain ⟨nonneg, same⟩ := cell_add (c := c) held.positive behind
  rw [SndLossList.place, if_neg (not_lt.mpr nonneg), same]

/-- The search begins at a node that begins before `a`. -/
theorem Lists.searchFrom (lists : Lists st (n :: nodes)) (held : Held st c st.m_iHead (n :: nodes))
    (fits : Fits st.m_iSize (n :: nodes) a b) (first : n.1 < a) :
    ∃ before m behind, n :: nodes = before ++ m :: behind ∧
      st.searchFrom (cell st.m_iSize c n.1) (seqNo a) = some (cell st.m_iSize c m.1) ∧ m.1 < a := by
  unfold SndLossList.searchFrom
  cases recent : st.m_iLastInsertPos with
  | none => exact ⟨[], n, nodes, rfl, rfl, first⟩
  | some last =>
    obtain ⟨m, member, rfl⟩ := List.mem_map.mp (held.last last recent)
    have close := held.near (fits.close lists.apart m member)
    simp only [held.runs.starts m member, Option.map_some, seqcmp_neg_iff close]
    by_cases less : m.1 < a
    · obtain ⟨before, behind, split⟩ := List.append_of_mem member
      exact ⟨before, m, behind, split, by rw [if_pos less], less⟩
    · exact ⟨[], n, nodes, rfl, by rw [if_neg less], first⟩

/-- **`insert` adds the numbers.** -/
theorem Lists.insert (lists : Lists st nodes) (fits : Fits st.m_iSize nodes a b) :
    Inserts (st.insert (seqNo a) (seqNo b)) st nodes a b := by
  obtain ⟨c, held⟩ := lists.held
  unfold SndLossList.insert
  cases nodes with
  | nil =>
    have inserted := held.insertEmpty fits.width
    have length : (st.insertEmpty (seqNo a) (seqNo b)).m_iLength = total [(a, b)] := by
      have sum : (st.insertEmpty (seqNo a) (seqNo b)).m_iLength =
          st.m_iLength + CSeqNo.seqlen (seqNo a) (seqNo b) := rfl
      rw [sum, held.seqlen fits, lists.length]
      simp [total]
    have none : st.m_iLength = 0 := lists.length
    rw [if_pos none]
    refine ⟨[(a, b)], ⟨_, ?_, ⟨?_, ⟨-a, inserted⟩, length⟩, rfl⟩, ?_⟩
    · rw [length]
      simp [total]
    · exact apart_cons.mpr ⟨fits.ordered, by simp, ⟨by simp, List.Pairwise.nil⟩⟩
    · simp [cover]
  | cons n nodes =>
    have shown := held.linked.1
    have starts := held.runs.starts n List.mem_cons_self
    have close := fits.close lists.apart n List.mem_cons_self
    have placed := held.place (a := n.1) (b := a) (by
      have := abs_lt.mp close
      omega)
    rw [if_neg (lists.length ▸ lists.apart.total_pos.ne')]
    simp only [Option.bind_eq_bind]
    rw [bind_some shown, bind_some starts, seqoff_seqNo (held.near close), bind_some placed]
    rcases lt_trichotomy a n.1 with smaller | rfl | larger
    · rw [if_pos (by omega)]
      exact lists.insertHead held fits smaller
    · rw [if_neg (by omega), if_neg (by omega)]
      by_cases same : b = n.1
      · rw [if_pos (congrArg seqNo same)]
        exact Lists.unchanged (show Lists st ([] ++ n :: nodes) from lists) held le_rfl (same ▸ lists.apart.nonempty n List.mem_cons_self)
      · rw [if_neg (mt (held.code fits.width).mp same)]
        exact Lists.insertSame (show Lists st ([] ++ n :: nodes) from lists) held fits
    · rw [if_neg (by omega), if_pos (by omega)]
      by_cases begins : ∃ m ∈ n :: nodes, m.1 = a
      · rw [if_pos ((held.runs.begins held.positive (fits.close lists.apart)).mpr begins)]
        obtain ⟨m, member, rfl⟩ := begins
        obtain ⟨before, behind, split⟩ := List.append_of_mem member
        rw [split] at lists held fits ⊢
        exact lists.insertSame held fits
      · rw [if_neg (mt (held.runs.begins held.positive (fits.close lists.apart)).mp begins)]
        obtain ⟨before, m, behind, split, found, less⟩ := lists.searchFrom held fits larger
        push Not at begins
        rw [bind_some found]
        rw [split] at lists held fits begins ⊢
        obtain ⟨-, back, -⟩ := apart_append.mp lists.apart
        have few := held.few
        simp only [List.length_append, List.length_cons] at few
        obtain ⟨front, k, rest, split', prior, less', more⟩ := held.prior less
          (fun m late => fits.close lists.apart m (by simp [late])) (apart_cons.mp back).2.2
          (by omega : behind.length ≤ st.m_iSize)
        rw [bind_some prior]
        rw [split'] at lists held fits begins ⊢
        exact lists.insertAfter held fits less' fun m late =>
          lt_of_le_of_ne (more m late) (begins m (by simp [late])).symm

end GreatEvent.Udt.SndLossList
