import GreatEvent.Udt.RcvLossCells
import GreatEvent.Lib.Refinement

/-!
# `CRcvLossList` is a set of numbers

The receiver reports every gap once, behind all others, and a packet that comes
late is taken out wherever it lies. Through all such histories the list is the
set of the packets that are missing, and says of each packet whether it was
one of them.
-/

namespace GreatEvent.Udt

open CSeqNo Lib

/-- The calls on a receiver's loss list. -/
inductive RcvLossCall where
  | insert (a b : Int)
  | remove (x : Int)
  | getFirstLostSeq
  | getLossLength

namespace RcvLossList

/-- The list holds these runs, one behind the other. -/
structure Lists (st : RcvLossList) (nodes : List (Int × Int)) : Prop where
  apart : Apart nodes
  held : ∃ c, Held st c nodes
  length : st.m_iLength = total nodes

variable {st : RcvLossList} {c : Int} {nodes before behind : List (Int × Int)} {n f : Int × Int} {a b x : Int}

theorem Held.place (held : Held st c nodes) (ordered : a ≤ b) :
    st.place (cell st.m_iSize c a) (b - a) = some (cell st.m_iSize c b) := by
  have step := cell_from (c := c) held.positive ordered
  rw [RcvLossList.place, if_neg (by omega), ← step]
  congr 2
  omega

/-- `insert` puts the numbers behind all others. -/
theorem Lists.insert (lists : Lists st nodes) (ordered : a ≤ b) (after : ∀ n ∈ nodes, n.2 < a)
    (short : b - a < st.m_iSize) (within : ∀ n ∈ nodes, b - n.1 < st.m_iSize) :
    ∃ st' nodes', st.insert (seqNo a) (seqNo b) = some st' ∧ Lists st' nodes' ∧
      cover nodes' = cover nodes ∪ Finset.Icc a b ∧ st'.m_iSize = st.m_iSize := by
  obtain ⟨c, held⟩ := lists.held
  have near : Near a b := held.near (abs_lt.mpr ⟨by omega, by omega⟩)
  have length := seqlen_seqNo ordered near
  have single : Apart [(a, b)] := apart_cons.mpr ⟨ordered, by simp, ⟨by simp, List.Pairwise.nil⟩⟩
  unfold RcvLossList.insert
  cases nodes with
  | nil =>
    have none : st.m_iLength = 0 := lists.length
    rw [if_pos none]
    refine ⟨_, [(a, b)], rfl, ⟨single, ⟨-a, held.insertEmpty (abs_lt.mpr ⟨by omega, by omega⟩)⟩, ?_⟩, ?_, rfl⟩
    · simp only [insertEmpty, length, none, total]
      omega
    · simp [cover]
  | cons f rest =>
    have here := lists.apart.nonempty f List.mem_cons_self
    have first := within f List.mem_cons_self
    have firstAfter := after f List.mem_cons_self
    rw [if_neg (lists.length ▸ lists.apart.total_pos.ne')]
    simp only [Option.bind_eq_bind]
    rw [bind_some held.linked.forward.1, bind_some (held.runs.starts f List.mem_cons_self),
      seqoff_seqNo (held.near (abs_lt.mpr ⟨by omega, by omega⟩)), bind_some (held.place (by omega))]
    obtain ⟨front, n, split⟩ := (List.eq_nil_or_concat' (f :: rest)).resolve_left (List.cons_ne_nil _ _)
    rw [split] at lists held after within ⊢
    have member : n ∈ front ++ [n] := List.mem_append_right _ List.mem_cons_self
    have ends := held.runs.ends n member
    have last := after n member
    have tail : st.m_iTail = some (cell st.m_iSize c n.1) := by
      have linked := held.linked
      rw [List.map_append, List.map_singleton] at linked
      exact linked.back.1
    rw [bind_some tail, ends]
    have free : cell st.m_iSize c a ∉ (front ++ [n]).map fun n => cell st.m_iSize c n.1 := by
      refine cell_free held.positive ?_ ?_
      · intro m among
        have := within m among
        have := after m among
        have := lists.apart.nonempty m among
        exact abs_lt.mpr ⟨by omega, by omega⟩
      · intro m among
        have := after m among
        have := lists.apart.nonempty m among
        omega
    have put : ∃ st' nodes', some (st.insertTail (cell st.m_iSize c n.1) (cell st.m_iSize c a) (seqNo a)
        (seqNo b)) = some st' ∧ Lists st' nodes' ∧
        cover nodes' = cover (front ++ [n]) ∪ Finset.Icc a b ∧ st'.m_iSize = st.m_iSize := by
      refine ⟨_, front ++ [n] ++ [(a, b)], rfl, ⟨apart_append.mpr ⟨lists.apart, single, ?_⟩, ⟨c, ?_⟩, ?_⟩, ?_, rfl⟩
      · intro m among k itself
        rw [List.mem_singleton.mp itself]
        exact after m among
      · rw [List.append_assoc]
        exact held.insertTail (abs_lt.mpr ⟨by omega, by omega⟩) free
      · have sum : (st.insertTail (cell st.m_iSize c n.1) (cell st.m_iSize c a) (seqNo a) (seqNo b)).m_iLength =
            st.m_iLength + seqlen (seqNo a) (seqNo b) := rfl
        rw [sum, length, lists.length]
        simp only [total_append, total]
        omega
      · rw [cover_append]
        simp [cover]
    by_cases one : n.2 = n.1
    · rw [if_pos one]
      exact put
    · rw [if_neg one]
      have next : incseq (seqNo n.2) = seqNo a ↔ n.2 + 1 = a := by
        have := within n member
        have := lists.apart.nonempty n member
        rw [incseq_seqNo]
        exact seqNo_inj (held.near (abs_lt.mpr ⟨by omega, by omega⟩))
      simp only [next]
      by_cases joins : n.2 + 1 = a
      · rw [if_pos joins]
        obtain ⟨before, back, between⟩ := apart_append.mp lists.apart
        have here := lists.apart.nonempty n member
        refine ⟨_, front ++ [(n.1, b)], rfl, ⟨apart_append.mpr ⟨before, ?_, ?_⟩, ⟨c, ?_⟩, ?_⟩, ?_, rfl⟩
        · exact apart_cons.mpr ⟨by dsimp only; omega, by simp, ⟨by simp, List.Pairwise.nil⟩⟩
        · intro m early k itself
          rw [List.mem_singleton.mp itself]
          exact between m early n List.mem_cons_self
        · exact held.extendTail (by omega)
        · have sum : (st.extendTail (cell st.m_iSize c n.1) (seqNo a) (seqNo b)).m_iLength =
              st.m_iLength + seqlen (seqNo a) (seqNo b) := rfl
          rw [sum, length, lists.length]
          simp only [total_append, total]
          omega
        · have whole : Finset.Icc n.1 b = Finset.Icc n.1 n.2 ∪ Finset.Icc a b := by
            ext y
            simp only [Finset.mem_union, Finset.mem_Icc]
            omega
          simp only [cover_append, cover, whole, Finset.union_empty, Finset.union_assoc]
      · rw [if_neg joins]
        exact put

/-- The search down the cells ends at the last run that begins before `x`. -/
theorem Held.below (held : Held st c nodes) (member : n ∈ nodes) {y : Int} (above : n.1 ≤ y) (gap : ∀ m ∈ nodes, ¬(n.1 < m.1 ∧ m.1 ≤ y))
    (window : ∀ m ∈ nodes, ∀ z, n.1 ≤ z → z ≤ y → |m.1 - z| < st.m_iSize) {fuel : Nat}
    (enough : y - n.1 < fuel) :
    st.below fuel (cell st.m_iSize c y) = some (cell st.m_iSize c n.1, seqNo n.1) := by
  induction fuel generalizing y with
  | zero => omega
  | succ fuel ih =>
    unfold RcvLossList.below
    by_cases found : y = n.1
    · rw [found, held.runs.starts n member]
    · have free : cell st.m_iSize c y ∉ nodes.map fun m => cell st.m_iSize c m.1 := by
        refine cell_free held.positive (fun m among => window m among y above le_rfl) fun m among same => ?_
        exact gap m among ⟨by omega, by omega⟩
      have many : 1 < st.m_iSize := by
        have := abs_lt.mp (window n member y above le_rfl)
        omega
      rw [(held.runs.blank _ free).1, cell_pred many]
      exact ih (by omega) (fun m among wrong => gap m among ⟨wrong.1, by omega⟩)
        (fun m among z low high => window m among z low (by omega)) (by omega)

/-- The numbers of the runs and `x` are less than the size of the arrays apart. -/
structure Close (size : Nat) (nodes : List (Int × Int)) (x : Int) : Prop where
  inside : Within size nodes
  below : ∀ n ∈ nodes, x - n.1 < size
  above : ∀ n ∈ nodes, n.2 - x < size

/-- What `remove` owes. -/
def Removes (result : Option (Bool × RcvLossList)) (st : RcvLossList) (nodes : List (Int × Int)) (x : Int) :
    Prop :=
  ∃ st' nodes', result = some (decide (x ∈ cover nodes), st') ∧ Lists st' nodes' ∧
    cover nodes' = (cover nodes).erase x ∧ st'.m_iSize = st.m_iSize

/-- `remove` of a number that is not there. -/
theorem Lists.absent (lists : Lists st nodes) (absent : x ∉ cover nodes) :
    Removes (some (false, st)) st nodes x :=
  ⟨st, nodes, by rw [decide_eq_false absent], lists, (Finset.erase_eq_of_notMem absent).symm, rfl⟩

/-- `remove` of a number of the run `n`, of which the runs `mid` are left. -/
theorem Lists.present (lists : Lists st (before ++ n :: behind)) {st' : RcvLossList} (mid : List (Int × Int))
    (held : Held st' c (before ++ (mid ++ behind))) (left : Apart mid)
    (inside : ∀ m ∈ mid, n.1 ≤ m.1 ∧ m.2 ≤ n.2) (member : n.1 ≤ x ∧ x ≤ n.2)
    (rest : cover mid = (Finset.Icc n.1 n.2).erase x) (size : st'.m_iSize = st.m_iSize)
    (length : st'.m_iLength = st.m_iLength) :
    Removes (some (true, st'.less)) st (before ++ n :: behind) x := by
  obtain ⟨whole, same, sum⟩ := lists.apart.puncture left inside member rest
  have among : x ∈ cover (before ++ n :: behind) := mem_cover.mpr ⟨n, by simp, member⟩
  refine ⟨st'.less, _, by rw [decide_eq_true among], ⟨whole, ⟨c, ?_⟩, ?_⟩, same, size⟩
  · exact ⟨held.positive, held.small, held.runs, held.linked⟩
  · have count : st'.less.m_iLength = st'.m_iLength - 1 := rfl
    rw [count, length, lists.length, sum]

/-- `remove` of the first number of a run. -/
theorem Lists.removeFirst (lists : Lists st (before ++ n :: behind)) (held : Held st c (before ++ n :: behind))
    (close : Close st.m_iSize (before ++ n :: behind) n.1) {head : Nat} (shown : st.m_iHead = some head) :
    Removes (match st.m_piData2 (cell st.m_iSize c n.1) with
      | none => (st.unlink head (cell st.m_iSize c n.1)).bind fun st' => some (true,
        { st' with m_piData1 := Function.update st'.m_piData1 (cell st.m_iSize c n.1) none }.less)
      | some data2 => (st.advance (cell st.m_iSize c n.1) ((cell st.m_iSize c n.1 + 1) % st.m_iSize)
          (seqNo n.1) data2).bind fun st' => some (true, st'.less)) st (before ++ n :: behind) n.1 := by
  have here := lists.apart.nonempty n (by simp)
  rw [held.runs.ends n (by simp), cell_succ held.positive]
  by_cases one : n.2 = n.1
  · rw [if_pos one]
    obtain ⟨st', ran, ended, length, size⟩ := held.unlink one shown
    simp only [ran, Option.bind_some]
    refine lists.present [] ended ⟨by simp, List.Pairwise.nil⟩ (by simp) ⟨le_rfl, here⟩ ?_ size length
    rw [one, Finset.Icc_self, Finset.erase_singleton]
    rfl
  · rw [if_neg one]
    have free := next_free (c := c) held.positive lists.apart close.inside le_rfl (by omega : n.1 < n.2)
    obtain ⟨st', ran, ended, length, size⟩ := held.advance (by omega) (close.inside n (by simp) n (by simp)) free
    simp only [ran, Option.bind_some]
    refine lists.present [(n.1 + 1, n.2)] ended ?_ ?_ ⟨le_rfl, here⟩ ?_ size length
    · exact apart_cons.mpr ⟨by dsimp only; omega, by simp, ⟨by simp, List.Pairwise.nil⟩⟩
    · intro m itself
      rw [List.mem_singleton.mp itself]
      exact ⟨by dsimp only; omega, le_rfl⟩
    · ext y
      simp only [cover, Finset.union_empty, Finset.mem_erase, Finset.mem_Icc]
      omega

/-- `remove` of a number behind the first one of a run. -/
theorem Lists.removeInside (lists : Lists st (before ++ n :: behind)) (held : Held st c (before ++ n :: behind))
    (close : Close st.m_iSize (before ++ n :: behind) x) (first : n.1 < x) (above : ∀ m ∈ behind, x < m.1) :
    Removes (match st.m_piData2 (cell st.m_iSize c n.1) with
      | none => some (false, st)
      | some data2 =>
        if 0 < seqcmp (seqNo x) data2 then some (false, st)
        else if seqNo x = data2 then
          some (true, { st with
            m_piData2 := Function.update st.m_piData2 (cell st.m_iSize c n.1)
              (RcvLossList.before (seqNo n.1) (seqNo x)) }.less)
        else (st.split (cell st.m_iSize c n.1) (cell st.m_iSize c (x + 1)) (seqNo n.1) (seqNo x) data2).bind
          fun st' => some (true, st'.less)) st (before ++ n :: behind) x := by
  have here := lists.apart.nonempty n (by simp)
  have wide := close.inside n (by simp) n (by simp)
  have reach := close.below n (by simp)
  have reach' := close.above n (by simp)
  obtain ⟨-, -, between⟩ := apart_append.mp lists.apart
  have absent : n.2 < x → x ∉ cover (before ++ n :: behind) := by
    intro past member
    obtain ⟨m, among, low, high⟩ := mem_cover.mp member
    rcases List.mem_append.mp among with early | late
    · have := between m early n List.mem_cons_self
      omega
    · rcases List.mem_cons.mp late with rfl | later
      · omega
      · have := above m later
        omega
  rw [held.runs.ends n (by simp)]
  by_cases one : n.2 = n.1
  · rw [if_pos one]
    exact lists.absent (absent (by omega))
  · have near : Near x n.2 := held.near (abs_lt.mpr ⟨by omega, by omega⟩)
    rw [if_neg one]
    simp only [seqcmp_pos_iff near, seqNo_inj near]
    by_cases past : n.2 < x
    · rw [if_pos past]
      exact lists.absent (absent past)
    · rw [if_neg past]
      by_cases last : x = n.2
      · rw [if_pos last, last]
        have ended := held.shorten (by omega) wide
        refine lists.present [(n.1, n.2 - 1)] ended ?_ ?_ ⟨here, le_rfl⟩ ?_ rfl rfl
        · exact apart_cons.mpr ⟨by dsimp only; omega, by simp, ⟨by simp, List.Pairwise.nil⟩⟩
        · intro m itself
          rw [List.mem_singleton.mp itself]
          exact ⟨le_rfl, by dsimp only; omega⟩
        · ext y
          simp only [cover, Finset.union_empty, Finset.mem_erase, Finset.mem_Icc]
          omega
      · rw [if_neg last]
        have free := next_free (c := c) held.positive lists.apart close.inside first.le (by omega : x < n.2)
        obtain ⟨st', ran, ended, length, size⟩ := held.split first (by omega) wide free
        simp only [ran, Option.bind_some]
        refine lists.present [(n.1, x - 1), (x + 1, n.2)] ended ?_ ?_ ⟨by omega, by omega⟩ ?_ size length
        · refine apart_cons.mpr ⟨by dsimp only; omega, ?_, ?_⟩
          · intro m itself
            rw [List.mem_singleton.mp itself]
            dsimp only
            omega
          · exact apart_cons.mpr ⟨by dsimp only; omega, by simp, ⟨by simp, List.Pairwise.nil⟩⟩
        · intro m among
          simp only [List.mem_cons, List.not_mem_nil, or_false] at among
          rcases among with rfl | rfl
          · exact ⟨le_rfl, by dsimp only; omega⟩
          · exact ⟨by dsimp only; omega, le_rfl⟩
        · ext y
          simp only [cover, Finset.union_empty, Finset.mem_union, Finset.mem_erase, Finset.mem_Icc]
          omega

/-- **`remove` takes a number out and says whether it was there.** -/
theorem Lists.remove (lists : Lists st nodes) (close : Close st.m_iSize nodes x) :
    Removes (st.remove (seqNo x)) st nodes x := by
  obtain ⟨c, held⟩ := lists.held
  unfold RcvLossList.remove
  cases nodes with
  | nil =>
    have none : st.m_iLength = 0 := lists.length
    rw [if_pos none]
    exact lists.absent (by simp [cover])
  | cons f rest =>
    have shown := held.linked.forward.1
    have here := lists.apart.nonempty f List.mem_cons_self
    have reach := close.below f List.mem_cons_self
    have reach' := close.above f List.mem_cons_self
    have starts : ∀ m ∈ f :: rest, |m.1 - x| < st.m_iSize := by
      intro m member
      have := close.below m member
      have := close.above m member
      have := lists.apart.nonempty m member
      exact abs_lt.mpr ⟨by omega, by omega⟩
    rw [if_neg (lists.length ▸ lists.apart.total_pos.ne')]
    simp only [Option.bind_eq_bind]
    rw [bind_some shown, bind_some (held.runs.starts f List.mem_cons_self),
      seqoff_seqNo (held.near (starts f List.mem_cons_self))]
    by_cases smaller : x < f.1
    · rw [if_pos (by omega)]
      refine lists.absent fun member => ?_
      have := lists.apart.least member
      omega
    · rw [if_neg (by omega), cell_from held.positive (not_lt.mp smaller)]
      by_cases begins : ∃ m ∈ f :: rest, m.1 = x
      · rw [if_pos ((held.runs.begins held.positive starts).mpr begins)]
        obtain ⟨m, member, rfl⟩ := begins
        obtain ⟨before, behind, split⟩ := List.append_of_mem member
        rw [split] at lists held close ⊢
        exact lists.removeFirst held close shown
      · rw [if_neg (mt (held.runs.begins held.positive starts).mp begins)]
        push Not at begins
        obtain ⟨before, n, behind, split, less, more⟩ := lists.apart.last_before (x := x)
          (lt_of_le_of_ne (not_lt.mp smaller) (begins f List.mem_cons_self))
        rw [split] at lists held close begins ⊢
        have far := close.below n (by simp)
        obtain ⟨-, -, between⟩ := apart_append.mp lists.apart
        have found := held.below (n := n) (y := x - 1) (by simp) (by omega)
          (by
            rintro m member ⟨later, early⟩
            rcases List.mem_append.mp member with front | back
            · have := between m front n List.mem_cons_self
              have := lists.apart.nonempty m member
              omega
            · rcases List.mem_cons.mp back with rfl | behind
              · omega
              · have := more m behind
                omega)
          (by
            intro m member z low high
            have := close.inside n (by simp) m member
            have := close.below m member
            have := lists.apart.nonempty m member
            exact abs_lt.mpr ⟨by omega, by omega⟩)
          (by omega : x - 1 - n.1 < st.m_iSize)
        rw [cell_pred (by omega), bind_some found, cell_succ held.positive]
        exact lists.removeInside held close less fun m late =>
          lt_of_le_of_ne (more m late) (begins m (by simp [late])).symm

/-- **`getFirstLostSeq` is the least number.** -/
theorem Lists.getFirstLostSeq (lists : Lists st (n :: nodes)) : st.getFirstLostSeq = some (seqNo n.1) := by
  obtain ⟨c, held⟩ := lists.held
  unfold RcvLossList.getFirstLostSeq
  rw [if_neg (lists.length ▸ lists.apart.total_pos.ne'), bind_some held.linked.forward.1]
  exact held.runs.starts n List.mem_cons_self

/-- A call and what it returns, if it returns something. -/
def call (st : RcvLossList) : RcvLossCall → Option (Option Int × RcvLossList)
  | .insert a b => (st.insert (seqNo a) (seqNo b)).map fun st => (none, st)
  | .remove x => (st.remove (seqNo x)).map fun r => (some (if r.1 then 1 else 0), r.2)
  | .getFirstLostSeq => st.getFirstLostSeq.map fun first => (some first, st)
  | .getLossLength => some (some st.getLossLength, st)

/-- The calls on a set of packets. -/
noncomputable def onSet (s : Finset Int) : RcvLossCall → Option Int × Finset Int
  | .insert a b => (none, s ∪ Finset.Icc a b)
  | .remove x => (some (if x ∈ s then 1 else 0), s.erase x)
  | .getFirstLostSeq => (some (if some' : s.Nonempty then seqNo (s.min' some') else -1), s)
  | .getLossLength => (some s.card, s)

/-- A gap is behind all others, and no two numbers are `size` or more apart. -/
def MayCall (size : Nat) (s : Finset Int) : RcvLossCall → Prop
  | .insert a b => a ≤ b ∧ b - a < size ∧ ∀ y ∈ s, y < a ∧ b - y < size
  | .remove x => ∀ y ∈ s, y - x < size ∧ x - y < size
  | .getFirstLostSeq => True
  | .getLossLength => True

noncomputable instance (size : Nat) (s : Finset Int) (e : RcvLossCall) : Decidable (MayCall size s e) :=
  match e with
  | .insert _ _ => inferInstanceAs (Decidable (_ ∧ _))
  | .remove _ => inferInstanceAs (Decidable (∀ _ ∈ s, _))
  | .getFirstLostSeq => inferInstanceAs (Decidable True)
  | .getLossLength => inferInstanceAs (Decidable True)

/-- The list holds the numbers of the packets in the set. -/
def Shows (size : Nat) (st : RcvLossList) (s : Finset Int) : Prop :=
  ∃ nodes, Lists st nodes ∧ cover nodes = s ∧ st.m_iSize = size ∧ Within size nodes

theorem shows_init {size : Nat} (positive : 0 < size) (small : size ≤ seqNoTH) (next prior : Nat → Option Nat) :
    Shows size (init size next prior) ∅ :=
  ⟨[], ⟨⟨by simp, List.Pairwise.nil⟩, ⟨0, positive, small, HoldsRuns.none _, rfl, fun some => absurd rfl some⟩,
    rfl⟩, rfl, rfl, by simp [Within]⟩

/-- The ends of a run are numbers of the set. -/
theorem Lists.ends_mem (lists : Lists st nodes) (member : n ∈ nodes) : n.1 ∈ cover nodes ∧ n.2 ∈ cover nodes := by
  have here := lists.apart.nonempty n member
  exact ⟨mem_cover.mpr ⟨n, member, le_rfl, here⟩, mem_cover.mpr ⟨n, member, here, le_rfl⟩⟩

/-- **A call does to the list what it does to the set.** -/
theorem refines_call {size : Nat} : Refines call onSet (MayCall size) (Shows size) := by
  rintro st s e ⟨nodes, lists, rfl, rfl, within⟩ allowed
  have apart := lists.apart
  have close := (within_iff apart).mp within
  cases e with
  | insert a b =>
    obtain ⟨ordered, short, after⟩ := allowed
    obtain ⟨st', nodes', ran, lists', same, size⟩ := lists.insert ordered
      (fun n member => (after n.2 (lists.ends_mem member).2).1) short
      (fun n member => (after n.1 (lists.ends_mem member).1).2)
    refine ⟨st', by simp only [call, ran, onSet, Option.map_some], nodes', lists', same, size, ?_⟩
    rw [within_iff lists'.apart, same]
    intro y early z late
    rw [Finset.mem_union, Finset.mem_Icc] at early late
    rcases early with old | new <;> rcases late with old' | new'
    · exact close y old z old'
    · have := after y old
      omega
    · have := after z old'
      omega
    · omega
  | remove x =>
    have near : Close st.m_iSize nodes x :=
      ⟨within, fun n member => (allowed n.1 (lists.ends_mem member).1).2,
        fun n member => (allowed n.2 (lists.ends_mem member).2).1⟩
    obtain ⟨st', nodes', ran, lists', same, size⟩ := lists.remove near
    refine ⟨st', ?_, nodes', lists', same, size, ?_⟩
    · simp only [call, ran, onSet, Option.map_some, decide_eq_true_eq]
    · rw [within_iff lists'.apart, same]
      exact fun y early z late => close y (Finset.mem_of_mem_erase early) z (Finset.mem_of_mem_erase late)
  | getFirstLostSeq =>
    refine ⟨st, ?_, nodes, lists, rfl, rfl, within⟩
    cases nodes with
    | nil =>
      have none : st.m_iLength = 0 := lists.length
      simp [call, RcvLossList.getFirstLostSeq, none, onSet, cover]
    | cons n nodes =>
      have among := (lists.ends_mem List.mem_cons_self).1
      have some' : (cover (n :: nodes)).Nonempty := ⟨n.1, among⟩
      have least : (cover (n :: nodes)).min' some' = n.1 :=
        (Finset.min'_eq_iff _ _ _).mpr ⟨among, fun y member => apart.least member⟩
      simp only [call, lists.getFirstLostSeq, onSet, Option.map_some, dif_pos some', least]
  | getLossLength =>
    refine ⟨st, ?_, nodes, lists, rfl, rfl, within⟩
    simp only [call, onSet, getLossLength, lists.length, apart.card]

/-- **The receiver's loss list is the set of the missing packets**, through every history of calls. -/
theorem missing_list_is_set (size : Nat) (positive : 0 < size) (small : size ≤ seqNoTH)
    (next prior : Nat → Option Nat) (es : List RcvLossCall) (allowed : AllowedIn onSet (MayCall size) ∅ es) :
    ∃ st', calls call (init size next prior) es = some ((answers onSet ∅ es).1, st') ∧
      Shows size st' (answers onSet ∅ es).2 :=
  refines_call.calls (shows_init positive small next prior) allowed

/-- Two gaps around the greatest number; packets come late, one of them twice. -/
theorem missing_list_is_set_wrap : ∃ st', calls call (init 16 (fun _ => none) fun _ => none)
      [.insert 2147483646 2147483649, .insert 2147483651 2147483651, .remove 2147483647, .remove 2147483651,
        .remove 2147483647, .remove 2147483646, .getFirstLostSeq, .getLossLength] =
    some ([none, none, some 1, some 1, some 0, some 1, some 0, some 2], st') := by
  obtain ⟨st', ran, -⟩ := missing_list_is_set 16 (by decide) (by decide) (fun _ => none) (fun _ => none)
    [.insert 2147483646 2147483649, .insert 2147483651 2147483651, .remove 2147483647, .remove 2147483651,
      .remove 2147483647, .remove 2147483646, .getFirstLostSeq, .getLossLength] (by decide)
  exact ⟨st', ran⟩

end RcvLossList

end GreatEvent.Udt
