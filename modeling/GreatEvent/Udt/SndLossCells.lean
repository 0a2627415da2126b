import GreatEvent.Lib.Chain
import GreatEvent.Udt.LossCells
import GreatEvent.Udt.SndLossList

/-!
# What the cells of a `CSndLossList` hold

A list of runs, each in the cell of its first number, is what the arrays and
the pointers of a loss list mean. Every step of `insert` and `remove` does to
the runs what it says.
-/

namespace GreatEvent.Udt.SndLossList

open CSeqNo Lib

/-- From the pointer `p` on the list holds these runs, and there are no others. -/
structure Held (st : SndLossList) (c : Int) (p : Option Nat) (nodes : List (Int × Int)) : Prop where
  positive : 0 < st.m_iSize
  small : st.m_iSize ≤ seqNoTH
  linked : Segment st.m_piNext p (nodes.map fun n => cell st.m_iSize c n.1) none
  runs : HoldsRuns st.m_piData1 st.m_piData2 (cell st.m_iSize c) nodes
  last : ∀ i, st.m_iLastInsertPos = some i → i ∈ nodes.map fun n => cell st.m_iSize c n.1

variable {st : SndLossList} {c : Int} {p : Option Nat} {nodes before behind : List (Int × Int)}
  {n : Int × Int} {a b d : Int} {head fuel : Nat}

theorem Held.near (held : Held st c p nodes) (close : |a - b| < st.m_iSize) : Near a b :=
  close.trans_le held.small

theorem Held.code (held : Held st c p nodes) (close : |a - b| < st.m_iSize) :
    seqNo b = seqNo a ↔ b = a :=
  seqNo_inj (held.near close).symm

theorem Held.few (held : Held st c p nodes) : nodes.length ≤ st.m_iSize :=
  held.runs.few held.positive

theorem Held.insertEmpty (held : Held st c p []) (close : |a - b| < st.m_iSize) :
    Held (st.insertEmpty (seqNo a) (seqNo b)) (-a) (some 0) [(a, b)] := by
  have first : cell st.m_iSize (-a) a = 0 := by simp [cell]
  have runs : HoldsRuns st.m_piData1 st.m_piData2 (cell st.m_iSize (-a)) ([] ++ []) :=
    ⟨List.nodup_nil, by simp, by simp, fun i _ => held.runs.blank i (by simp)⟩
  refine ⟨held.positive, held.small, ⟨?_, ?_⟩, ?_, ?_⟩
  · exact congrArg some first.symm
  · simp [SndLossList.insertEmpty, fill, first, Segment]
  · have put := runs.put (a := a) (b := b) (by simp) (held.code close)
    rw [first] at put
    exact put
  · intro i last
    cases last
    exact List.mem_singleton.mpr first.symm

theorem Held.insertHead (held : Held st c st.m_iHead nodes) (shows : st.m_iHead = some head)
    (free : cell st.m_iSize c a ∉ nodes.map fun n => cell st.m_iSize c n.1)
    (close : |a - b| < st.m_iSize) :
    Held (st.insertHead head (cell st.m_iSize c a) (seqNo a) (seqNo b)) c
      (some (cell st.m_iSize c a)) ((a, b) :: nodes) := by
  have runs : HoldsRuns st.m_piData1 st.m_piData2 (cell st.m_iSize c) ([] ++ nodes) := held.runs
  refine ⟨held.positive, held.small, ?_, runs.put free (held.code close), ?_⟩
  · have linked := held.linked.push free
    rw [shows] at linked
    exact linked
  · intro i last
    cases last
    exact List.mem_cons_self

theorem Held.insertBehind (held : Held st c p (before ++ n :: behind))
    (free : cell st.m_iSize c a ∉ (before ++ n :: behind).map fun n => cell st.m_iSize c n.1)
    (close : |a - b| < st.m_iSize) :
    Held (st.insertBehind (cell st.m_iSize c n.1) (cell st.m_iSize c a) (seqNo a) (seqNo b)) c p
      (before ++ n :: (a, b) :: behind) := by
  refine ⟨held.positive, held.small, ?_, ?_, ?_⟩
  · have linked := held.linked
    have distinct := held.runs.distinct
    rw [List.map_append, List.map_cons] at linked distinct free ⊢
    exact linked.insert distinct free
  · have runs : HoldsRuns st.m_piData1 st.m_piData2 (cell st.m_iSize c) ((before ++ [n]) ++ behind) := by
      rw [List.append_assoc]
      exact held.runs
    have put := runs.put (a := a) (b := b) (by rwa [List.append_assoc]) (held.code close)
    rw [List.append_assoc] at put
    exact put
  · intro i last
    cases last
    simp [SndLossList.insertBehind, fill]

theorem Held.stretch (held : Held st c p (before ++ (a, b) :: behind)) (longer : d ≠ a) (more : Int) :
    Held (st.stretch (cell st.m_iSize c a) (seqNo d) more) c p (before ++ (a, d) :: behind) := by
  have cells : (before ++ (a, d) :: behind).map (fun n => cell st.m_iSize c n.1) =
      (before ++ (a, b) :: behind).map (fun n => cell st.m_iSize c n.1) := by simp
  refine ⟨held.positive, held.small, ?_, ?_, ?_⟩
  · simpa only [cells, SndLossList.stretch] using held.linked
  · have runs := held.runs.stretch d
    rw [if_neg longer] at runs
    exact runs
  · intro i last
    simpa only [cells, SndLossList.stretch] using held.last i last

/-- The run behind the one inserted last is taken out. -/
theorem Held.skip (held : Held st c p (before ++ (a, b) :: n :: behind))
    (last : st.m_iLastInsertPos = some (cell st.m_iSize c a)) :
    Held { st with
      m_piData1 := Function.update st.m_piData1 (cell st.m_iSize c n.1) none
      m_piData2 := Function.update st.m_piData2 (cell st.m_iSize c n.1) none
      m_piNext := Function.update st.m_piNext (cell st.m_iSize c a) (st.m_piNext (cell st.m_iSize c n.1)) }
      c p (before ++ (a, b) :: behind) := by
  refine ⟨held.positive, held.small, ?_, ?_, ?_⟩
  · have linked := held.linked
    have distinct := held.runs.distinct
    rw [List.map_append, List.map_cons, List.map_cons] at linked distinct
    rw [List.map_append, List.map_cons]
    exact linked.skip distinct
  · have runs : HoldsRuns st.m_piData1 st.m_piData2 (cell st.m_iSize c)
        ((before ++ [(a, b)]) ++ (n.1, n.2) :: behind) := by
      rw [List.append_assoc]
      exact held.runs
    have drop := runs.drop
    rw [List.append_assoc] at drop
    exact drop
  · intro i same
    obtain rfl : cell st.m_iSize c a = i := Option.some.inj (last.symm.trans same)
    simp

/-- The length is counted apart. -/
theorem Held.counted (held : Held st c p nodes) (length : Int) :
    Held { st with m_iLength := length } c p nodes :=
  ⟨held.positive, held.small, held.linked, held.runs, held.last⟩

theorem Held.recall (held : Held st c p (before ++ n :: behind)) :
    Held { st with m_iLastInsertPos := some (cell st.m_iSize c n.1) } c p (before ++ n :: behind) := by
  refine ⟨held.positive, held.small, held.linked, held.runs, ?_⟩
  rintro i ⟨⟩
  simp

section absorb

variable {loc i : Nat} {data1 data2 : Int}

@[simp] theorem absorb_size : (st.absorb loc i data2 data1).m_iSize = st.m_iSize := by
  unfold absorb
  dsimp only
  repeat' split
  all_goals rfl

@[simp] theorem absorb_head : (st.absorb loc i data2 data1).m_iHead = st.m_iHead := by
  unfold absorb
  dsimp only
  repeat' split
  all_goals rfl

@[simp] theorem absorb_last : (st.absorb loc i data2 data1).m_iLastInsertPos = st.m_iLastInsertPos := by
  unfold absorb
  dsimp only
  repeat' split
  all_goals rfl

end absorb

/-- **One round of the loop that coalesces.** -/
theorem Held.absorb (held : Held st c p (before ++ (a, b) :: n :: behind))
    (last : st.m_iLastInsertPos = some (cell st.m_iSize c a)) (ordered : n.1 ≤ n.2)
    (after : a < n.1) (reached : n.1 ≤ b + 1) (within : n.2 - a < st.m_iSize) (close : b - a < st.m_iSize) :
    Held (st.absorb (cell st.m_iSize c a) (cell st.m_iSize c n.1) (seqNo b) (seqNo n.1)) c p
        (before ++ (a, max n.2 b) :: behind) ∧
      (st.absorb (cell st.m_iSize c a) (cell st.m_iSize c n.1) (seqNo b) (seqNo n.1)).m_iLength =
        st.m_iLength + (max n.2 b - b) - (n.2 - n.1 + 1) := by
  have ends := held.runs.ends n (by simp)
  unfold SndLossList.absorb
  by_cases one : n.2 = n.1
  · rw [if_pos one] at ends
    simp only [ends, incseq_seqNo, seqNo_inj (held.near (abs_lt.mpr ⟨by omega, by omega⟩) : Near n.1 (b + 1))]
    split
    case isTrue next =>
      have longer := (held.stretch (d := n.1) (by omega) 0).skip last
      rw [max_eq_left (by omega : b ≤ n.2), one]
      refine ⟨longer, ?_⟩
      dsimp only [SndLossList.stretch]
      omega
    case isFalse =>
      rw [max_eq_right (by omega : n.2 ≤ b)]
      refine ⟨(held.counted (st.m_iLength - 1)).skip last, ?_⟩
      dsimp only
      omega
  · rw [if_neg one] at ends
    simp only [ends, seqcmp_pos_iff (held.near (abs_lt.mpr ⟨by omega, by omega⟩) : Near n.2 b),
      seqcmp_nonneg_iff (held.near (abs_lt.mpr ⟨by omega, by omega⟩) : Near b n.1)]
    split
    case isTrue farther =>
      have longer := (held.stretch (d := n.2) (by omega)
        (if n.1 ≤ b then -seqlen (seqNo n.1) (seqNo b) else 0)).skip last
      rw [max_eq_left farther.le]
      refine ⟨longer, ?_⟩
      dsimp only [SndLossList.stretch]
      split
      case isTrue beyond =>
        rw [seqlen_seqNo beyond (held.near (abs_lt.mpr ⟨by omega, by omega⟩))]
        omega
      case isFalse => omega
    case isFalse =>
      rw [max_eq_right (by omega : n.2 ≤ b),
        seqlen_seqNo ordered (held.near (abs_lt.mpr ⟨by omega, by omega⟩))]
      refine ⟨(held.counted _).skip last, ?_⟩
      dsimp only
      omega

/-- What the loop that coalesces owes: the run at `loc` swallows those it reaches. -/
def Coalesced (st st' : SndLossList) (c : Int) (p : Option Nat) (before behind : List (Int × Int))
    (a b : Int) : Prop :=
  Held st' c p (before ++ swallow a b behind) ∧
    st'.m_iLength = st.m_iLength + total (swallow a b behind) - total ((a, b) :: behind) ∧
    st'.m_iHead = st.m_iHead ∧ st'.m_iSize = st.m_iSize

theorem Held.untouched (held : Held st c p (before ++ (a, b) :: behind))
    (same : swallow a b behind = (a, b) :: behind) : Coalesced st st c p before behind a b := by
  refine ⟨same.symm ▸ held, ?_, rfl, rfl⟩
  rw [same]
  omega

/-- **The loop that coalesces.** -/
theorem Held.coalesce (held : Held st c p (before ++ (a, b) :: behind))
    (last : st.m_iLastInsertPos = some (cell st.m_iSize c a)) (ordered : a ≤ b)
    (close : b - a < st.m_iSize) (apart : Apart behind) (after : ∀ n ∈ behind, a < n.1)
    (within : ∀ n ∈ behind, n.2 - a < st.m_iSize) (enough : behind.length ≤ fuel) :
    ∃ st', SndLossList.coalesce (cell st.m_iSize c a) fuel st = some st' ∧
      Coalesced st st' c p before behind a b := by
  induction behind generalizing st b fuel with
  | nil =>
    have shown := held.linked
    rw [List.map_append, List.map_cons] at shown
    refine ⟨st, ?_, held.untouched rfl⟩
    unfold SndLossList.coalesce
    rw [shown.shown]
    rfl
  | cons n behind ih =>
    obtain ⟨here, -, rest⟩ := apart_cons.mp apart
    obtain ⟨first, others⟩ := List.forall_mem_cons.mp after
    obtain ⟨inside, insides⟩ := List.forall_mem_cons.mp within
    have shown := held.linked
    rw [List.map_append, List.map_cons] at shown
    have next := shown.shown
    have starts := held.runs.starts n (by simp)
    have ends := held.runs.ends (a, b) (by simp)
    dsimp only at ends
    have compared : seqcmp (seqNo n.1) (incseq (seqNo b)) ≤ 0 ↔ n.1 ≤ b + 1 := by
      rw [incseq_seqNo]
      exact seqcmp_nonpos_iff (held.near (abs_lt.mpr ⟨by omega, by omega⟩))
    obtain ⟨fuel, rfl⟩ := Nat.exists_eq_add_of_le' enough
    rw [List.length_cons, ← Nat.add_assoc]
    by_cases reached : a ≠ b ∧ n.1 ≤ b + 1
    case pos =>
      obtain ⟨longer, length⟩ := held.absorb last here first reached.2 inside close
      obtain ⟨st', ran, ended, counted, sameHead, sameSize⟩ := ih longer (by simpa using last) (by omega)
        (by simp only [absorb_size]; omega) rest others (by simpa using insides) (Nat.le_add_left _ fuel)
      refine ⟨st', ?_, ?_, ?_, by simpa using sameHead, by simpa using sameSize⟩
      · unfold SndLossList.coalesce
        simp only [next, ends, if_neg reached.1.symm, List.map_cons, List.head?_cons, starts, compared,
          if_pos reached.2]
        simpa only [absorb_size] using ran
      · rw [swallow, if_pos reached]
        exact ended
      · rw [swallow, if_pos reached, counted, length]
        simp only [total_cons]
        omega
    case neg =>
      refine ⟨st, ?_, held.untouched (if_neg reached)⟩
      unfold SndLossList.coalesce
      rw [next, ends]
      by_cases one : b = a
      · rw [if_pos one]
        rfl
      · rw [if_neg one]
        simp only [List.map_cons, List.head?_cons, starts, compared,
          if_neg fun near => reached ⟨Ne.symm one, near⟩]

/-- **The search for the prior node.** -/
theorem Held.prior (held : Held st c p (before ++ n :: behind)) (first : n.1 < a)
    (close : ∀ m ∈ behind, |m.1 - a| < st.m_iSize) (apart : Apart behind)
    (enough : behind.length ≤ fuel) :
    ∃ front m back, before ++ n :: behind = front ++ m :: back ∧
      SndLossList.prior st (seqNo a) fuel (cell st.m_iSize c n.1) = some (cell st.m_iSize c m.1) ∧
      m.1 < a ∧ ∀ k ∈ back, a ≤ k.1 := by
  induction behind generalizing before n fuel with
  | nil =>
    have shown := held.linked
    rw [List.map_append, List.map_cons] at shown
    refine ⟨before, n, [], rfl, ?_, first, by simp⟩
    unfold SndLossList.prior
    rw [shown.shown]
    rfl
  | cons k behind ih =>
    have shown := held.linked
    rw [List.map_append, List.map_cons] at shown
    have next := shown.shown
    have starts := held.runs.starts k (by simp)
    have compared := seqcmp_neg_iff (held.near (close k List.mem_cons_self))
    obtain ⟨fuel, rfl⟩ := Nat.exists_eq_add_of_le' enough
    rw [List.length_cons, ← Nat.add_assoc]
    by_cases smaller : k.1 < a
    case pos =>
      have moved : Held st c p ((before ++ [n]) ++ k :: behind) := by
        rw [List.append_assoc]
        exact held
      obtain ⟨front, m, back, split, found, less, more⟩ := ih moved smaller
        (fun m member => close m (List.mem_cons_of_mem _ member)) (apart_cons.mp apart).2.2
        (Nat.le_add_left _ fuel)
      refine ⟨front, m, back, ?_, ?_, less, more⟩
      · rw [← split, List.append_assoc]
        rfl
      · unfold SndLossList.prior
        simp only [next, List.map_cons, List.head?_cons, starts, compared, if_pos smaller]
        exact found
    case neg =>
      refine ⟨before, n, k :: behind, rfl, ?_, first, ?_⟩
      · unfold SndLossList.prior
        simp only [next, List.map_cons, List.head?_cons, starts, compared, if_neg smaller]
      · intro m member
        rcases List.mem_cons.mp member with rfl | later
        · exact not_lt.mp smaller
        · exact (not_lt.mp smaller).trans (apart.begins_behind later).le

end GreatEvent.Udt.SndLossList
