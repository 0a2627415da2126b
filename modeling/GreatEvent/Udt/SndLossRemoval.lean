import GreatEvent.Udt.SndLossSet

/-!
# What leaves a `CSndLossList`

`getLostSeq` takes the least number out, `remove` all numbers up to one. Both
cut the run that the number lies in, behind it, and what is in front of the cut
goes.
-/

namespace GreatEvent.Udt.SndLossList

open CSeqNo Lib

variable {st : SndLossList} {c : Int} {p : Option Nat} {nodes before behind removed kept : List (Int × Int)}
  {n : Int × Int} {a b d x : Int} {fuel : Nat}

/-- What `shift` writes is the run from `x + 1` on. -/
theorem shift_eq {loc : Nat} (more : x < d) (near : Near d (x + 1)) :
    st.shift loc (seqNo x) (seqNo d) = { st with
      m_piData1 := Function.update st.m_piData1 loc (some (seqNo (x + 1)))
      m_piData2 := if seqNo d = seqNo (x + 1) then st.m_piData2 else
        Function.update st.m_piData2 loc (some (seqNo d)) } := by
  simp only [shift, incseq_seqNo, later_iff more near, ite_not]

/-- **A run is cut behind `x`.** -/
theorem Held.cut (held : Held st c p (before ++ n :: behind)) (apart : Apart (before ++ n :: behind))
    (within : Within st.m_iSize (before ++ n :: behind)) (first : n.1 ≤ x) (more : x < n.2) :
    Held (st.cut (cell st.m_iSize c n.1) (cell st.m_iSize c (x + 1)) (seqNo x) (seqNo n.2)
      (if x = n.1 then none else some (seqNo x))) c p (before ++ (n.1, x) :: (x + 1, n.2) :: behind) := by
  have wide := within n (by simp) n (by simp)
  have free := next_free (c := c) held.positive apart within first more
  have near : Near n.2 (x + 1) := held.near (abs_lt.mpr ⟨by omega, by omega⟩)
  unfold SndLossList.cut
  rw [shift_eq more near]
  refine ⟨held.positive, held.small, ?_, ?_, ?_⟩
  · have linked := held.linked
    have distinct := held.runs.distinct
    rw [List.map_append, List.map_cons] at linked distinct free
    rw [List.map_append, List.map_cons, List.map_cons]
    exact linked.insert distinct free
  · have runs : HoldsRuns st.m_piData1 st.m_piData2 (cell st.m_iSize c) ((before ++ [n]) ++ behind) :=
      List.append_cons before n behind ▸ held.runs
    have put := runs.put (a := x + 1) (b := n.2) (List.append_cons before n behind ▸ free) (seqNo_inj near)
    rw [← List.append_cons] at put
    exact HoldsRuns.stretch (show HoldsRuns _ _ _ (before ++ (n.1, n.2) :: (x + 1, n.2) :: behind) from put) x
  · intro i last
    have old := held.last i last
    simp only [List.map_append, List.map_cons, List.mem_append, List.mem_cons] at old ⊢
    tauto

theorem removeNode_head {h : Nat} {data1 : Int} : (st.removeNode h data1).m_iHead = st.m_iHead := by
  unfold removeNode
  dsimp only [forget]
  split <;> rfl

theorem removeNode_size {h : Nat} {data1 : Int} : (st.removeNode h data1).m_iSize = st.m_iSize := by
  unfold removeNode
  dsimp only [forget]
  split <;> rfl

/-- One round of the loop that removes the nodes prior to the new head. -/
theorem Held.removeNode (held : Held st c p (n :: nodes)) (ordered : n.1 ≤ n.2)
    (wide : n.2 - n.1 < st.m_iSize) :
    Held (st.removeNode (cell st.m_iSize c n.1) (seqNo n.1)) c (st.m_piNext (cell st.m_iSize c n.1)) nodes ∧
      (st.removeNode (cell st.m_iSize c n.1) (seqNo n.1)).m_iLength = st.m_iLength - (n.2 - n.1 + 1) := by
  have ends := held.runs.ends n List.mem_cons_self
  have runs : HoldsRuns st.m_piData1 st.m_piData2 (cell st.m_iSize c) ([] ++ (n.1, n.2) :: nodes) := held.runs
  have linked := held.linked.2
  have forgotten : ∀ i, (if st.m_iLastInsertPos = some (cell st.m_iSize c n.1) then none
      else st.m_iLastInsertPos) = some i → i ∈ nodes.map fun m => cell st.m_iSize c m.1 := by
    intro i last
    split at last
    case isTrue => cases last
    case isFalse other =>
      rcases List.mem_cons.mp (held.last i last) with rfl | behind
      · exact absurd last other
      · exact behind
  unfold SndLossList.removeNode
  by_cases one : n.2 = n.1
  · rw [if_pos one] at ends
    have blanked : Function.update st.m_piData2 (cell st.m_iSize c n.1) none = st.m_piData2 :=
      Function.update_eq_self_iff.mpr ends.symm
    have dropped := runs.drop
    rw [blanked] at dropped
    simp only [ends]
    refine ⟨⟨held.positive, held.small, linked, dropped, forgotten⟩, ?_⟩
    dsimp only [forget]
    omega
  · rw [if_neg one] at ends
    simp only [ends, seqlen_seqNo ordered (held.near (abs_lt.mpr ⟨by omega, by omega⟩) : Near n.1 n.2)]
    refine ⟨⟨held.positive, held.small, linked, runs.drop, forgotten⟩, ?_⟩
    dsimp only [forget]

/-- **The loop that removes the nodes prior to the new head.** -/
theorem Held.removePrior (held : Held st c p (removed ++ kept))
    (head : st.m_iHead = (kept.map fun n => cell st.m_iSize c n.1).head?)
    (ordered : ∀ n ∈ removed, n.1 ≤ n.2 ∧ n.2 - n.1 < st.m_iSize) (enough : removed.length ≤ fuel) :
    ∃ st', SndLossList.removePrior fuel p st = some st' ∧ Held st' c st'.m_iHead kept ∧
      st'.m_iLength = st.m_iLength - total removed ∧ st'.m_iSize = st.m_iSize := by
  induction removed generalizing st p fuel with
  | nil =>
    have here : p = st.m_iHead := head ▸ held.linked.head
    refine ⟨st, ?_, here ▸ held, by simp [total], rfl⟩
    unfold SndLossList.removePrior
    rw [if_pos here]
  | cons n removed ih =>
    obtain ⟨here, others⟩ := List.forall_mem_cons.mp ordered
    obtain ⟨fuel, rfl⟩ := Nat.exists_eq_add_of_le' enough
    have shown := held.linked.1
    have starts := held.runs.starts n List.mem_cons_self
    have distinct := held.runs.distinct
    have other : p ≠ st.m_iHead := by
      rw [shown, head]
      intro same
      rw [List.cons_append, List.map_cons, List.nodup_cons] at distinct
      refine distinct.1 ?_
      rw [List.map_append]
      exact List.mem_append_right _ (List.mem_of_head? same.symm)
    obtain ⟨gone, shorter⟩ := held.removeNode here.1 here.2
    have sameSize : (st.removeNode (cell st.m_iSize c n.1) (seqNo n.1)).m_iSize = st.m_iSize := removeNode_size
    obtain ⟨st', ran, ended, counted, size⟩ := ih gone
      (by rw [removeNode_head, sameSize, head]) (by rwa [sameSize]) (Nat.le_add_left _ fuel)
    refine ⟨st', ?_, ended, ?_, size.trans sameSize⟩
    · rw [List.length_cons, ← Nat.add_assoc]
      unfold SndLossList.removePrior
      rw [if_neg other, shown]
      simp only [starts, Option.bind_some]
      exact ran
    · rw [counted, shorter, total_cons]
      omega

/-- A list cut into the runs up to `x`, which go, and those above it. -/
structure CutAt (nodes removed kept : List (Int × Int)) (x : Int) : Prop where
  apart : Apart (removed ++ kept)
  same : cover (removed ++ kept) = cover nodes
  counted : total (removed ++ kept) = total nodes
  below : ∀ n ∈ removed, n.2 ≤ x
  above : ∀ n ∈ kept, x < n.1

theorem CutAt.cover (cut : CutAt nodes removed kept x) :
    Lib.cover kept = (Lib.cover nodes).filter (x < ·) := by
  rw [← cut.same, cover_append, Finset.filter_union]
  have gone : (Lib.cover removed).filter (x < ·) = ∅ := by
    rw [Finset.filter_eq_empty_iff]
    intro y member
    obtain ⟨n, among, -, high⟩ := mem_cover.mp member
    exact not_lt.mpr (high.trans (cut.below n among))
  have stays : (Lib.cover kept).filter (x < ·) = Lib.cover kept := by
    rw [Finset.filter_eq_self]
    intro y member
    obtain ⟨n, among, low, -⟩ := mem_cover.mp member
    exact (cut.above n among).trans_le low
  rw [gone, stays, Finset.empty_union]

/-- The cut falls between two runs. -/
theorem cutAt_between (apart : Apart (before ++ n :: behind)) (last : n.2 ≤ x) (above : ∀ m ∈ behind, x < m.1) :
    CutAt (before ++ n :: behind) (before ++ [n]) behind x := by
  have whole : before ++ n :: behind = before ++ [n] ++ behind := List.append_cons before n behind
  obtain ⟨-, back, between⟩ := apart_append.mp apart
  obtain ⟨here, -, -⟩ := apart_cons.mp back
  refine ⟨whole ▸ apart, by rw [whole], by rw [whole], ?_, above⟩
  intro m member
  rcases List.mem_append.mp member with early | itself
  · have := between m early n List.mem_cons_self
    omega
  · exact (List.mem_singleton.mp itself) ▸ last

/-- The cut falls into a run. -/
theorem cutAt_inside (apart : Apart (before ++ n :: behind)) (first : n.1 ≤ x) (more : x < n.2) :
    CutAt (before ++ n :: behind) (before ++ [(n.1, x)]) ((x + 1, n.2) :: behind) x := by
  obtain ⟨front, back, between⟩ := apart_append.mp apart
  obtain ⟨here, next, rest⟩ := apart_cons.mp back
  have below : ∀ m ∈ before ++ [(n.1, x)], m.2 ≤ x := by
    intro m member
    rcases List.mem_append.mp member with early | itself
    · have := between m early n List.mem_cons_self
      omega
    · exact (List.mem_singleton.mp itself) ▸ le_rfl
  have above : ∀ m ∈ (x + 1, n.2) :: behind, x < m.1 := by
    intro m member
    rcases List.mem_cons.mp member with rfl | late
    · exact Int.lt_succ x
    · have := next m late
      omega
  refine ⟨?_, ?_, ?_, below, above⟩
  · refine apart_append.mpr ⟨?_, ?_, fun m early k late => (below m early).trans_lt (above k late)⟩
    · refine apart_append.mpr ⟨front, apart_cons.mpr ⟨first, by simp, ⟨by simp, List.Pairwise.nil⟩⟩, ?_⟩
      intro m early k itself
      rw [List.mem_singleton.mp itself]
      exact between m early n List.mem_cons_self
    · exact apart_cons.mpr ⟨more, next, rest⟩
  · have whole : Finset.Icc n.1 n.2 = Finset.Icc n.1 x ∪ Finset.Icc (x + 1) n.2 := by
      ext y
      simp only [Finset.mem_union, Finset.mem_Icc]
      omega
    rw [cover_append, cover_append, cover_append, cover_cons, cover_cons, cover_cons, whole]
    simp only [Lib.cover, Finset.union_empty, Finset.union_assoc]
  · simp only [total_append, total]
    omega

/-- What `removeFrom` owes: the runs are parted at `x`, and the list begins with those above. -/
def Parts (result : Option SndLossList) (st : SndLossList) (c : Int) (nodes : List (Int × Int)) (x : Int) :
    Prop :=
  ∃ st' removed kept, result = some st' ∧ CutAt nodes removed kept x ∧
    Held st' c st.m_iHead (removed ++ kept) ∧
    st'.m_iHead = (kept.map fun n => cell st.m_iSize c n.1).head? ∧
    st'.m_iLength = st.m_iLength ∧ st'.m_iSize = st.m_iSize

/-- The node `n` goes as a whole. -/
theorem Held.passes (held : Held st c st.m_iHead (before ++ n :: behind))
    (apart : Apart (before ++ n :: behind)) (last : n.2 ≤ x) (above : ∀ m ∈ behind, x < m.1) :
    Parts (some { st with m_iHead := st.m_piNext (cell st.m_iSize c n.1) }) st c (before ++ n :: behind) x := by
  have linked := held.linked
  rw [List.map_append, List.map_cons] at linked
  refine ⟨_, before ++ [n], behind, rfl, cutAt_between apart last above, ?_, linked.shown, rfl, rfl⟩
  rw [← List.append_cons]
  exact ⟨held.positive, held.small, held.linked, held.runs, held.last⟩

/-- The node `n` is cut. -/
theorem Held.parts (held : Held st c st.m_iHead (before ++ n :: behind))
    (apart : Apart (before ++ n :: behind)) (within : Within st.m_iSize (before ++ n :: behind))
    (first : n.1 ≤ x) (more : x < n.2) :
    Parts (some (st.cut (cell st.m_iSize c n.1) (cell st.m_iSize c (x + 1)) (seqNo x) (seqNo n.2)
      (if x = n.1 then none else some (seqNo x)))) st c (before ++ n :: behind) x := by
  have cut := held.cut apart within first more
  rw [List.append_cons] at cut
  exact ⟨_, _, _, rfl, cutAt_inside apart first more, cut, rfl, rfl, rfl⟩

/-- The number `x` and the runs are less than the size of the arrays apart. -/
def Close (size : Nat) (nodes : List (Int × Int)) (x : Int) : Prop :=
  ∀ n ∈ nodes, n.2 - x < size ∧ x - n.1 < size

section close

variable (close : Close st.m_iSize nodes x) (apart : Apart nodes) (member : n ∈ nodes)

include close apart member

theorem Close.first : |n.1 - x| < st.m_iSize := by
  have := close n member
  have := apart.nonempty n member
  exact abs_lt.mpr ⟨by omega, by omega⟩

theorem Close.last : |n.2 - x| < st.m_iSize := by
  have := close n member
  have := apart.nonempty n member
  exact abs_lt.mpr ⟨by omega, by omega⟩

end close

/-- The list begins behind the node that is cut or passed. -/
theorem Held.removeFrom (held : Held st c st.m_iHead (n :: nodes)) (apart : Apart (n :: nodes))
    (within : Within st.m_iSize (n :: nodes)) (close : Close st.m_iSize (n :: nodes) x) (first : n.1 < x) :
    Parts (SndLossList.removeFrom st (cell st.m_iSize c n.1) (cell st.m_iSize c x) (seqNo x)) st c
      (n :: nodes) x := by
  unfold SndLossList.removeFrom
  rw [cell_succ held.positive]
  dsimp only
  by_cases begins : ∃ m ∈ n :: nodes, m.1 = x
  · rw [if_pos ((held.runs.begins held.positive fun m member => close.first apart member).mpr begins)]
    obtain ⟨m, member, rfl⟩ := begins
    have ends := held.runs.ends m member
    have here := apart.nonempty m member
    obtain ⟨before, behind, split⟩ := List.append_of_mem member
    rw [split] at held apart within ⊢
    have back := (apart_append.mp apart).2.1
    by_cases one : m.2 = m.1
    · rw [ends, if_pos one]
      exact held.passes apart one.le fun k late => back.begins_behind late
    · rw [ends, if_neg one]
      have parts := held.parts apart within le_rfl (by omega)
      rw [if_pos rfl] at parts
      exact parts
  · rw [if_neg (mt (held.runs.begins held.positive fun m member => close.first apart member).mp begins)]
    push Not at begins
    have few := held.few
    rw [List.length_cons] at few
    obtain ⟨before, m, behind, split, prior, less, more⟩ :=
      Held.prior (show Held st c st.m_iHead ([] ++ n :: nodes) from held) first
        (fun k late => close.first apart (List.mem_cons_of_mem _ late)) (apart_cons.mp apart).2.2
        (by omega : nodes.length ≤ st.m_iSize)
    rw [List.nil_append] at split
    have member : m ∈ n :: nodes := split ▸ List.mem_append_right _ List.mem_cons_self
    have ends := held.runs.ends m member
    have compared := seqcmp_pos_iff (held.near (close.last apart member))
    simp only [Option.bind_eq_bind]
    rw [bind_some prior]
    rw [split] at held apart within begins ⊢
    have above : ∀ k ∈ behind, x < k.1 := fun k late =>
      lt_of_le_of_ne (more k late) (begins k (by simp [late])).symm
    by_cases one : m.2 = m.1
    · rw [ends, if_pos one]
      exact held.passes apart (by omega) above
    · rw [ends, if_neg one]
      simp only [compared]
      by_cases longer : x < m.2
      · rw [if_pos longer]
        have parts := held.parts apart within less.le longer
        rw [if_neg less.ne'] at parts
        exact parts
      · rw [if_neg longer]
        exact held.passes apart (not_lt.mp longer) above

theorem removeFirst_forget {h : Nat} {data1 : Int} :
    (st.removeFirst h data1).forget h = (st.forget h).removeFirst h data1 := by
  unfold removeFirst
  dsimp only [forget, shift]
  split <;> rfl

theorem removeFirst_size {h : Nat} {data1 : Int} : (st.removeFirst h data1).m_iSize = st.m_iSize := by
  unfold removeFirst
  dsimp only [shift]
  split <;> rfl

theorem removeFirst_length {h : Nat} {data1 : Int} :
    (st.removeFirst h data1).m_iLength = st.m_iLength - 1 := by
  unfold removeFirst
  dsimp only [shift]
  split <;> rfl

/-- The runs without the first number. -/
def dropFirst (n : Int × Int) (nodes : List (Int × Int)) : List (Int × Int) :=
  if n.2 = n.1 then nodes else (n.1 + 1, n.2) :: nodes

theorem Held.forget (held : Held st c p nodes) (i : Nat) : Held (st.forget i) c p nodes := by
  refine ⟨held.positive, held.small, held.linked, held.runs, fun j last => ?_⟩
  dsimp only [SndLossList.forget] at last
  split at last
  · cases last
  · exact held.last j last

/-- **The first number is taken out.** -/
theorem Held.removeFirst (held : Held st c st.m_iHead (n :: nodes)) (apart : Apart (n :: nodes))
    (within : Within st.m_iSize (n :: nodes)) (other : st.m_iLastInsertPos ≠ some (cell st.m_iSize c n.1)) :
    Held (st.removeFirst (cell st.m_iSize c n.1) (seqNo n.1)) c
      (st.removeFirst (cell st.m_iSize c n.1) (seqNo n.1)).m_iHead (dropFirst n nodes) := by
  have ends := held.runs.ends n List.mem_cons_self
  have here := (apart_cons.mp apart).1
  have wide := within n List.mem_cons_self n List.mem_cons_self
  have kept : ∀ i, st.m_iLastInsertPos = some i → i ∈ nodes.map fun m => cell st.m_iSize c m.1 := by
    intro i last
    rcases List.mem_cons.mp (held.last i last) with rfl | behind
    · exact absurd last other
    · exact behind
  unfold SndLossList.removeFirst
  by_cases one : n.2 = n.1
  · have dropped := HoldsRuns.drop (show HoldsRuns st.m_piData1 st.m_piData2 (cell st.m_iSize c)
      ([] ++ (n.1, n.2) :: nodes) from held.runs)
    rw [if_pos one] at ends
    have blanked : Function.update st.m_piData2 (cell st.m_iSize c n.1) none = st.m_piData2 :=
      Function.update_eq_self_iff.mpr ends.symm
    rw [blanked] at dropped
    rw [dropFirst, if_pos one]
    simp only [ends]
    exact ⟨held.positive, held.small, held.linked.2, dropped, kept⟩
  · have near : Near n.2 (n.1 + 1) := held.near (abs_lt.mpr ⟨by omega, by omega⟩)
    have apart' : Apart ([] ++ n :: nodes) := apart
    have free := next_free (c := c) held.positive apart' within le_rfl (by omega : n.1 < n.2)
    have put := HoldsRuns.put (show HoldsRuns st.m_piData1 st.m_piData2 (cell st.m_iSize c)
      ([n] ++ nodes) from held.runs) free (seqNo_inj near)
    have dropped := HoldsRuns.drop (show HoldsRuns _ _ _ ([] ++ (n.1, n.2) :: (n.1 + 1, n.2) :: nodes) from put)
    rw [if_neg one] at ends
    rw [dropFirst, if_neg one, cell_succ held.positive]
    simp only [ends, shift_eq (by omega : n.1 < n.2) near]
    have linked := held.linked
    rw [List.map_cons, held.linked.1] at linked
    exact ⟨held.positive, held.small, linked.replace free, dropped,
      fun i last => List.mem_cons_of_mem _ (kept i last)⟩

/-- Without the first number the list has one number less, and it is the least. -/
theorem dropFirst_spec (apart : Apart (n :: nodes)) :
    Apart (dropFirst n nodes) ∧ cover (dropFirst n nodes) = (cover (n :: nodes)).erase n.1 ∧
      total (dropFirst n nodes) = total (n :: nodes) - 1 := by
  obtain ⟨here, next, rest⟩ := apart_cons.mp apart
  have absent : n.1 ∉ cover nodes := by
    intro member
    obtain ⟨m, among, low, -⟩ := mem_cover.mp member
    have := apart.begins_behind among
    omega
  unfold dropFirst
  split
  case isTrue one =>
    refine ⟨rest, ?_, ?_⟩
    · rw [cover_cons, one, Finset.Icc_self, ← Finset.insert_eq, Finset.erase_insert absent]
    · rw [total_cons]
      omega
  case isFalse many =>
    refine ⟨apart_cons.mpr ⟨by dsimp only; omega, next, rest⟩, ?_, ?_⟩
    · ext y
      rw [Finset.mem_erase, cover_cons, cover_cons, Finset.mem_union, Finset.mem_union, Finset.mem_Icc,
        Finset.mem_Icc]
      by_cases least : y = n.1
      · simp [least, absent]
      · have : n.1 + 1 ≤ y ↔ n.1 ≤ y := by omega
        simp only [this, least, ne_eq, not_false_eq_true, true_and]
    · rw [total_cons, total_cons]
      dsimp only
      omega

/-- The head is taken out, whether `m_iLastInsertPos` is reset before or after. -/
theorem Lists.removeFirst (lists : Lists st (n :: nodes)) (held : Held st c st.m_iHead (n :: nodes))
    (within : Within st.m_iSize (n :: nodes)) :
    Lists ((st.forget (cell st.m_iSize c n.1)).removeFirst (cell st.m_iSize c n.1) (seqNo n.1))
      (dropFirst n nodes) := by
  have other : (st.forget (cell st.m_iSize c n.1)).m_iLastInsertPos ≠ some (cell st.m_iSize c n.1) := by
    dsimp only [SndLossList.forget]
    split
    · exact (Option.some_ne_none _).symm
    · assumption
  obtain ⟨apart, -, sum⟩ := dropFirst_spec lists.apart
  refine ⟨apart, ⟨c, Held.removeFirst (held.forget _) lists.apart within other⟩, ?_⟩
  have length : (st.forget (cell st.m_iSize c n.1)).m_iLength = st.m_iLength := rfl
  rw [removeFirst_length, length, sum, lists.length]

/-- **`getLostSeq` takes the least number.** -/
theorem Lists.getLostSeq (lists : Lists st (n :: nodes)) (within : Within st.m_iSize (n :: nodes)) :
    ∃ st', st.getLostSeq = some (seqNo n.1, st') ∧ Lists st' (dropFirst n nodes) ∧
      st'.m_iSize = st.m_iSize := by
  obtain ⟨c, held⟩ := lists.held
  refine ⟨_, ?_, lists.removeFirst held within, removeFirst_size⟩
  unfold SndLossList.getLostSeq
  rw [if_neg (lists.length ▸ lists.apart.total_pos.ne')]
  simp only [Option.bind_eq_bind]
  rw [bind_some held.linked.1, bind_some (held.runs.starts n List.mem_cons_self)]

/-- **`remove` leaves the numbers above `x`.** -/
theorem Lists.remove (lists : Lists st nodes) (within : Within st.m_iSize nodes)
    (close : Close st.m_iSize nodes x) :
    ∃ st' nodes', st.remove (seqNo x) = some st' ∧ Lists st' nodes' ∧
      cover nodes' = (cover nodes).filter (x < ·) ∧ st'.m_iSize = st.m_iSize := by
  obtain ⟨c, held⟩ := lists.held
  unfold SndLossList.remove
  cases nodes with
  | nil =>
    have none : st.m_iLength = 0 := lists.length
    rw [if_pos none]
    exact ⟨st, [], rfl, lists, rfl, rfl⟩
  | cons n nodes =>
    have first := close.first lists.apart List.mem_cons_self
    rw [if_neg (lists.length ▸ lists.apart.total_pos.ne')]
    simp only [Option.bind_eq_bind]
    rw [bind_some held.linked.1, bind_some (held.runs.starts n List.mem_cons_self),
      seqoff_seqNo (held.near first)]
    rcases lt_trichotomy x n.1 with smaller | rfl | larger
    · rw [if_pos (by omega)]
      refine ⟨st, _, rfl, lists, ?_, rfl⟩
      rw [eq_comm, Finset.filter_eq_self]
      exact fun y member => smaller.trans_le (lists.apart.least member)
    · rw [if_neg (by omega), if_pos (by omega), removeFirst_forget]
      refine ⟨_, _, rfl, lists.removeFirst held within, ?_, removeFirst_size⟩
      rw [(dropFirst_spec lists.apart).2.1]
      ext y
      rw [Finset.mem_erase, Finset.mem_filter, and_comm]
      refine and_congr_right fun member => ?_
      have := lists.apart.least member
      omega
    · rw [if_neg (by omega), if_neg (by omega), cell_step held.positive larger.le]
      obtain ⟨st', removed, kept, ran, cut, ended, head, length, size⟩ :=
        held.removeFrom lists.apart within close larger
      have few := ended.few
      rw [List.length_append] at few
      have ordered : ∀ m ∈ removed, m.1 ≤ m.2 ∧ m.2 - m.1 < st'.m_iSize := by
        intro m member
        have among := List.mem_append_left kept member
        refine ⟨cut.apart.nonempty m among, ?_⟩
        rw [within_iff lists.apart, ← cut.same, ← within_iff cut.apart] at within
        exact size ▸ within m among m among
      obtain ⟨st'', ran', left, counted, size'⟩ := ended.removePrior (by rw [head, size]) ordered
        (by omega : removed.length ≤ st.m_iSize)
      rw [bind_some ran, ← held.linked.1]
      refine ⟨st'', kept, ran', ⟨(apart_append.mp cut.apart).2.1, ⟨c, left⟩, ?_⟩, cut.cover,
        size'.trans size⟩
      rw [counted, length, lists.length, ← cut.counted, total_append]
      omega

end GreatEvent.Udt.SndLossList
