import GreatEvent.Lib.Chain
import GreatEvent.Udt.RcvLossList

/-!
# What the cells of a `CRcvLossList` hold

The runs lie in their cells as in a sender's list, and the pointers lead
through them both ways. Every step of `insert` and `remove` does to the runs
what it says.
-/

namespace GreatEvent.Udt.RcvLossList

open CSeqNo Lib

section links

variable {st : RcvLossList} {before behind : List Nat} {h i j : Nat}

/-- The list with other links. -/
def relinked (st : RcvLossList) (next prior : Nat → Option Nat) (head tail : Option Nat) : RcvLossList :=
  { st with m_piNext := next, m_piPrior := prior, m_iHead := head, m_iTail := tail }

theorem unlink_linked (linked : Linked st.m_piNext st.m_piPrior (some h) st.m_iTail (before ++ i :: behind))
    (shown : st.m_iHead = some h) (once : (before ++ i :: behind).Nodup) :
    ∃ next prior head tail, st.unlink h i = some (st.relinked next prior head tail) ∧
      Linked next prior head tail (before ++ behind) := by
  have next := linked.next_eq
  rcases List.eq_nil_or_concat' before with rfl | ⟨front, k, rfl⟩
  · obtain rfl : h = i := Option.some.inj linked.forward.1
    have forward := linked.forward.2
    unfold unlink
    rw [if_pos rfl]
    cases behind with
    | nil =>
      simp only [next, List.head?_nil] at forward ⊢
      exact ⟨_, _, _, _, rfl, forward, fun some => absurd rfl some⟩
    | cons j rest =>
      have back := linked.back
      have last : st.m_piPrior h = none := linked.prior_eq
      have once' : (rest.reverse ++ j :: h :: []).Nodup := by
        simpa using List.nodup_reverse.mpr once
      rw [List.reverse_cons, List.append_assoc] at back
      have skipped := Segment.skip back once'
      rw [last] at skipped
      simp only [next, List.head?_cons] at forward ⊢
      exact ⟨_, _, _, _, rfl, forward, fun _ => by simpa using skipped⟩
  · have prior := linked.prior_eq
    rw [List.getLast?_concat] at prior
    rw [← List.append_cons] at linked once
    have forward := linked.forward.skip once
    have back := linked.back_two
    unfold unlink
    rw [if_neg fun same => linked.forward.ne_head once (congrArg some same), prior]
    cases behind with
    | nil =>
      simp only [next, List.head?_nil] at forward ⊢
      refine ⟨_, _, _, _, rfl, ?_, fun _ => ?_⟩
      · rw [shown]
        simpa using forward
      · have rest := back.2
        rw [prior] at rest
        simpa using rest
    | cons j rest =>
      have once' : (rest.reverse ++ j :: i :: k :: front.reverse).Nodup := by
        simpa using List.nodup_reverse.mpr once
      rw [List.reverse_cons, List.append_assoc] at back
      have skipped := Segment.skip back once'
      rw [prior] at skipped
      simp only [next, List.head?_cons] at forward ⊢
      refine ⟨_, _, _, _, rfl, ?_, fun _ => by simpa using skipped⟩
      rw [shown]
      simpa using forward

/-- Another cell takes the place of `i`, seen from the head. -/
theorem turnHead_forward (st : RcvLossList) {next : Nat → Option Nat} (forward : Segment next st.m_iHead (before ++ i :: behind) none)
    (once : (before ++ i :: behind).Nodup) (free : j ∉ before ++ i :: behind)
    (set : st.m_piNext = Function.update next j (next i)) (prior : st.m_piPrior j = before.getLast?) :
    ∃ next' head', st.turnHead i j = some { st with m_piNext := next', m_iHead := head' } ∧
      Segment next' head' (before ++ j :: behind) none ∧ next' j = behind.head? := by
  unfold turnHead
  rcases List.eq_nil_or_concat' before with rfl | ⟨front, k, rfl⟩
  · have shown : st.m_iHead = some i := forward.1
    rw [shown] at forward
    have replaced := forward.replace free
    rw [if_pos shown]
    refine ⟨_, _, rfl, set ▸ replaced, ?_⟩
    rw [set]
    exact Segment.shown (show Segment _ _ ([] ++ j :: behind) none from replaced)
  · rw [List.getLast?_concat] at prior
    rw [← List.append_cons] at forward once free ⊢
    have replaced := forward.substitute once free
    rw [if_neg (forward.ne_head once), prior, Option.map_some, set]
    refine ⟨_, _, rfl, replaced, ?_⟩
    rw [List.append_cons] at replaced
    exact replaced.shown

/-- And seen from the tail. -/
theorem turnTail_backward (st : RcvLossList) {prior : Nat → Option Nat}
    (back : Segment prior st.m_iTail (behind.reverse ++ i :: before.reverse) none)
    (once : (before ++ i :: behind).Nodup) (free : j ∉ before ++ i :: behind)
    (set : st.m_piPrior = Function.update prior j (prior i)) (next : st.m_piNext j = behind.head?) :
    ∃ prior' tail', st.turnTail i j = some { st with m_piPrior := prior', m_iTail := tail' } ∧
      Segment prior' tail' (before ++ j :: behind).reverse none := by
  unfold turnTail
  cases behind with
  | nil =>
    have shown : st.m_iTail = some i := back.1
    rw [List.reverse_nil, List.nil_append, shown] at back
    rw [if_pos shown]
    refine ⟨_, _, rfl, ?_⟩
    rw [set]
    simpa using back.replace (by simpa [and_comm] using free)
  | cons k rest =>
    rw [List.reverse_cons, List.append_assoc] at back
    have once' : (rest.reverse ++ k :: i :: before.reverse).Nodup := by
      simpa using List.nodup_reverse.mpr once
    have free' : j ∉ rest.reverse ++ k :: i :: before.reverse := by
      simp only [List.mem_append, List.mem_reverse, List.mem_cons] at free ⊢
      tauto
    have replaced := Segment.substitute back once' free'
    rw [if_neg (Segment.ne_head back once'), next, List.head?_cons, Option.map_some, set]
    exact ⟨_, _, rfl, by simpa using replaced⟩

/-- A cell is put behind `i`, seen from the tail. -/
theorem turnTail_insert (st : RcvLossList) {prior : Nat → Option Nat}
    (back : Segment prior st.m_iTail (behind.reverse ++ i :: before.reverse) none)
    (once : (before ++ i :: behind).Nodup) (free : j ∉ before ++ i :: behind)
    (set : st.m_piPrior = Function.update prior j (some i)) (next : st.m_piNext j = behind.head?) :
    ∃ prior' tail', st.turnTail i j = some { st with m_piPrior := prior', m_iTail := tail' } ∧
      Segment prior' tail' (before ++ i :: j :: behind).reverse none := by
  unfold turnTail
  cases behind with
  | nil =>
    have shown : st.m_iTail = some i := back.1
    rw [List.reverse_nil, List.nil_append, shown] at back
    rw [if_pos shown]
    refine ⟨_, _, rfl, ?_⟩
    rw [set]
    simpa using back.push (by simpa [and_comm] using free)
  | cons k rest =>
    rw [List.reverse_cons, List.append_assoc] at back
    have once' : (rest.reverse ++ k :: i :: before.reverse).Nodup := by
      simpa using List.nodup_reverse.mpr once
    have free' : j ∉ rest.reverse ++ k :: i :: before.reverse := by
      simp only [List.mem_append, List.mem_reverse, List.mem_cons] at free ⊢
      tauto
    have shown : prior k = some i := Segment.shown back
    have inserted := Segment.insert back once' free'
    rw [shown] at inserted
    rw [if_neg (Segment.ne_head back once'), next, List.head?_cons, Option.map_some, set]
    exact ⟨_, _, rfl, by simpa using inserted⟩

end links

/-- The list holds these runs and no others. -/
structure Held (st : RcvLossList) (c : Int) (nodes : List (Int × Int)) : Prop where
  positive : 0 < st.m_iSize
  small : st.m_iSize ≤ seqNoTH
  runs : HoldsRuns st.m_piData1 st.m_piData2 (cell st.m_iSize c) nodes
  linked : Linked st.m_piNext st.m_piPrior st.m_iHead st.m_iTail (nodes.map fun n => cell st.m_iSize c n.1)

variable {st : RcvLossList} {c : Int} {nodes before behind : List (Int × Int)} {n : Int × Int} {a b x : Int}

theorem Held.near (held : Held st c nodes) (close : |a - b| < st.m_iSize) : Near a b :=
  close.trans_le held.small

theorem Held.insertEmpty (held : Held st c []) (close : |a - b| < st.m_iSize) :
    Held (st.insertEmpty (seqNo a) (seqNo b)) (-a) [(a, b)] := by
  have first : cell st.m_iSize (-a) a = 0 := by simp [cell]
  have runs : HoldsRuns st.m_piData1 st.m_piData2 (cell st.m_iSize (-a)) ([] ++ []) :=
    ⟨List.nodup_nil, by simp, by simp, fun i _ => held.runs.blank i (by simp)⟩
  have put := runs.put (a := a) (b := b) (by simp) (seqNo_inj (held.near close).symm)
  rw [first] at put
  refine ⟨held.positive, held.small, put, ?_, fun _ => ?_⟩
  · simp [RcvLossList.insertEmpty, fill, first, Segment]
  · simp [RcvLossList.insertEmpty, fill, first, Segment]

/-- The numbers `a` to `b` are put behind all others, as a run of their own. -/
theorem Held.insertTail (held : Held st c (before ++ [n])) (close : |a - b| < st.m_iSize)
    (free : cell st.m_iSize c a ∉ (before ++ [n]).map fun n => cell st.m_iSize c n.1) :
    Held (st.insertTail (cell st.m_iSize c n.1) (cell st.m_iSize c a) (seqNo a) (seqNo b)) c
      (before ++ [n, (a, b)]) := by
  have put := HoldsRuns.put (show HoldsRuns st.m_piData1 st.m_piData2 (cell st.m_iSize c)
    ((before ++ [n]) ++ []) by simpa using held.runs) (by simpa using free) (seqNo_inj (held.near close).symm)
  have linked := held.linked
  have distinct := held.runs.distinct
  rw [List.map_append, List.map_singleton] at linked distinct free
  have forward := linked.forward.insert distinct free
  have back := linked.back
  have behind : st.m_piNext (cell st.m_iSize c n.1) = none := linked.next_eq
  have last : st.m_iTail = some (cell st.m_iSize c n.1) := back.1
  have other : cell st.m_iSize c a ≠ cell st.m_iSize c n.1 := by
    intro same
    exact free (same ▸ List.mem_append_right _ List.mem_cons_self)
  rw [List.reverse_nil, List.nil_append, last] at back
  have push := back.push (by simpa [and_comm] using free)
  rw [behind, Function.update_comm other] at forward
  rw [List.append_assoc] at put
  refine ⟨held.positive, held.small, put, ?_, fun _ => ?_⟩
  · simpa [RcvLossList.insertTail, fill] using forward
  · simpa [RcvLossList.insertTail, fill] using push

/-- The last run is continued. -/
theorem Held.extendTail (held : Held st c (before ++ [n])) (longer : n.1 ≠ b) :
    Held (st.extendTail (cell st.m_iSize c n.1) (seqNo a) (seqNo b)) c (before ++ [(n.1, b)]) := by
  have stretched := HoldsRuns.stretch (show HoldsRuns st.m_piData1 st.m_piData2 (cell st.m_iSize c)
    (before ++ (n.1, n.2) :: []) from held.runs) b
  rw [if_neg longer.symm] at stretched
  refine ⟨held.positive, held.small, stretched, ?_⟩
  simpa [RcvLossList.extendTail] using held.linked

/-- A run of one number leaves the list. -/
theorem Held.unlink (held : Held st c (before ++ n :: behind)) (one : n.2 = n.1) {head : Nat}
    (shown : st.m_iHead = some head) :
    ∃ st', st.unlink head (cell st.m_iSize c n.1) = some st' ∧
      Held { st' with m_piData1 := Function.update st'.m_piData1 (cell st.m_iSize c n.1) none } c
        (before ++ behind) ∧ st'.m_iLength = st.m_iLength ∧ st'.m_iSize = st.m_iSize := by
  have ends := held.runs.ends n (by simp)
  rw [if_pos one] at ends
  have dropped := HoldsRuns.drop (show HoldsRuns st.m_piData1 st.m_piData2 (cell st.m_iSize c)
    (before ++ (n.1, n.2) :: behind) from held.runs)
  have blanked : Function.update st.m_piData2 (cell st.m_iSize c n.1) none = st.m_piData2 :=
    Function.update_eq_self_iff.mpr ends.symm
  rw [blanked] at dropped
  have linked := held.linked
  have distinct := held.runs.distinct
  rw [List.map_append, List.map_cons, shown] at linked
  rw [List.map_append, List.map_cons] at distinct
  obtain ⟨next, prior, head', tail, ran, linked'⟩ := unlink_linked linked shown distinct
  rw [← List.map_append] at linked'
  exact ⟨_, ran, ⟨held.positive, held.small, dropped, linked'⟩, rfl, rfl⟩

/-- A run leaves its first number. -/
theorem Held.advance (held : Held st c (before ++ n :: behind)) (more : n.1 < n.2)
    (wide : n.2 - n.1 < st.m_iSize)
    (free : cell st.m_iSize c (n.1 + 1) ∉ (before ++ n :: behind).map fun m => cell st.m_iSize c m.1) :
    ∃ st', st.advance (cell st.m_iSize c n.1) (cell st.m_iSize c (n.1 + 1)) (seqNo n.1) (seqNo n.2) = some st' ∧
      Held st' c (before ++ (n.1 + 1, n.2) :: behind) ∧ st'.m_iLength = st.m_iLength ∧
      st'.m_iSize = st.m_iSize := by
  have near : Near n.2 (n.1 + 1) := held.near (abs_lt.mpr ⟨by omega, by omega⟩)
  have put := HoldsRuns.put (show HoldsRuns st.m_piData1 st.m_piData2 (cell st.m_iSize c)
    ((before ++ [n]) ++ behind) by simpa using held.runs) (by simpa using free) (seqNo_inj near)
  have dropped := HoldsRuns.drop (show HoldsRuns _ _ _ (before ++ (n.1, n.2) :: (n.1 + 1, n.2) :: behind) by
    simpa using put)
  have runs : HoldsRuns (st.move (cell st.m_iSize c n.1) (cell st.m_iSize c (n.1 + 1)) (seqNo n.1)
      (seqNo n.2)).m_piData1 (st.move (cell st.m_iSize c n.1) (cell st.m_iSize c (n.1 + 1)) (seqNo n.1)
      (seqNo n.2)).m_piData2 (cell st.m_iSize c) (before ++ (n.1 + 1, n.2) :: behind) := by
    simp only [move, incseq_seqNo, later_iff more near, ite_not]
    exact dropped
  have linked := held.linked
  have distinct := held.runs.distinct
  rw [List.map_append, List.map_cons] at linked distinct free
  obtain ⟨next, head, ran, forward, shown⟩ := turnHead_forward
    (st.move (cell st.m_iSize c n.1) (cell st.m_iSize c (n.1 + 1)) (seqNo n.1) (seqNo n.2))
    linked.forward distinct free rfl (by
      dsimp only [move]
      rw [Function.update_self, linked.prior_eq])
  obtain ⟨prior, tail, ran', back⟩ := turnTail_backward
    { st.move (cell st.m_iSize c n.1) (cell st.m_iSize c (n.1 + 1)) (seqNo n.1) (seqNo n.2) with
      m_piNext := next
      m_iHead := head } linked.back distinct free rfl shown
  refine ⟨_, Option.bind_eq_some_iff.mpr ⟨_, ran, ran'⟩, ?_, rfl, rfl⟩
  refine ⟨held.positive, held.small, runs, ?_, fun _ => ?_⟩
  · simpa [move] using forward
  · simpa [move] using back

/-- A run is cut around the number `x`. -/
theorem Held.split (held : Held st c (before ++ n :: behind)) (first : n.1 < x) (more : x < n.2)
    (wide : n.2 - n.1 < st.m_iSize)
    (free : cell st.m_iSize c (x + 1) ∉ (before ++ n :: behind).map fun m => cell st.m_iSize c m.1) :
    ∃ st', st.split (cell st.m_iSize c n.1) (cell st.m_iSize c (x + 1)) (seqNo n.1) (seqNo x) (seqNo n.2) =
        some st' ∧
      Held st' c (before ++ (n.1, x - 1) :: (x + 1, n.2) :: behind) ∧ st'.m_iLength = st.m_iLength ∧
      st'.m_iSize = st.m_iSize := by
  have near : Near n.2 (x + 1) := held.near (abs_lt.mpr ⟨by omega, by omega⟩)
  have nearFirst : Near x (n.1 + 1) := held.near (abs_lt.mpr ⟨by omega, by omega⟩)
  have ended : RcvLossList.before (seqNo n.1) (seqNo x) =
      if x - 1 = n.1 then none else some (seqNo (x - 1)) := by
    simp only [RcvLossList.before, incseq_seqNo, seqNo_inj nearFirst, decseq_seqNo,
      show x = n.1 + 1 ↔ x - 1 = n.1 by omega]
  have put := HoldsRuns.put (show HoldsRuns st.m_piData1 st.m_piData2 (cell st.m_iSize c)
    ((before ++ [n]) ++ behind) by simpa using held.runs) (by simpa using free) (seqNo_inj near)
  have stretched := HoldsRuns.stretch (show HoldsRuns _ _ _ (before ++ (n.1, n.2) :: (x + 1, n.2) :: behind) by
    simpa using put) (x - 1)
  have runs : HoldsRuns (st.part (cell st.m_iSize c n.1) (cell st.m_iSize c (x + 1)) (seqNo n.1) (seqNo x)
      (seqNo n.2)).m_piData1 (st.part (cell st.m_iSize c n.1) (cell st.m_iSize c (x + 1)) (seqNo n.1) (seqNo x)
      (seqNo n.2)).m_piData2 (cell st.m_iSize c) (before ++ (n.1, x - 1) :: (x + 1, n.2) :: behind) := by
    simp only [part, ended, incseq_seqNo, later_iff more near, ite_not]
    exact stretched
  have linked := held.linked
  have distinct := held.runs.distinct
  rw [List.map_append, List.map_cons] at linked distinct free
  have forward := linked.forward.insert distinct free
  have other : cell st.m_iSize c (x + 1) ≠ cell st.m_iSize c n.1 := by
    intro same
    exact free (same ▸ List.mem_append_right _ List.mem_cons_self)
  obtain ⟨prior, tail, ran, back⟩ := turnTail_insert
    (st.part (cell st.m_iSize c n.1) (cell st.m_iSize c (x + 1)) (seqNo n.1) (seqNo x) (seqNo n.2))
    linked.back distinct free rfl (by
      dsimp only [part]
      rw [Function.update_of_ne other, Function.update_self, linked.next_eq])
  refine ⟨_, ran, ?_, rfl, rfl⟩
  refine ⟨held.positive, held.small, runs, ?_, fun _ => ?_⟩
  · simpa [part] using forward
  · simpa [part] using back

/-- A run leaves its last number. -/
theorem Held.shorten (held : Held st c (before ++ n :: behind)) (more : n.1 < n.2) (wide : n.2 - n.1 < st.m_iSize) :
    Held { st with
      m_piData2 := Function.update st.m_piData2 (cell st.m_iSize c n.1)
        (RcvLossList.before (seqNo n.1) (seqNo n.2)) } c (before ++ (n.1, n.2 - 1) :: behind) := by
  have nearFirst : Near n.2 (n.1 + 1) := held.near (abs_lt.mpr ⟨by omega, by omega⟩)
  have ended : RcvLossList.before (seqNo n.1) (seqNo n.2) =
      if n.2 - 1 = n.1 then none else some (seqNo (n.2 - 1)) := by
    simp only [RcvLossList.before, incseq_seqNo, seqNo_inj nearFirst, decseq_seqNo,
      show n.2 = n.1 + 1 ↔ n.2 - 1 = n.1 by omega]
  have stretched := HoldsRuns.stretch (show HoldsRuns st.m_piData1 st.m_piData2 (cell st.m_iSize c)
    (before ++ (n.1, n.2) :: behind) from held.runs) (n.2 - 1)
  rw [← ended] at stretched
  refine ⟨held.positive, held.small, stretched, ?_⟩
  simpa using held.linked

end GreatEvent.Udt.RcvLossList
