import GreatEvent.Server.World

/-!
# How long a send takes

`sendEx` goes on until everything has been accepted or `send` fails for good.
A result that accepts something, or fails, brings it nearer to its end;
`EAGAIN` is answered by a pause of two milliseconds and another `send`.
-/

namespace GreatEvent

open Lib

/-- Results that accept something each, and together so many bytes. -/
def Accepts : Nat → List SendResult → Prop
  | left, .sent n :: rs => 0 < n ∧ (n < left → Accepts (left - n) rs)
  | _, _ => False

/-- A send that is accepted returns its length. -/
theorem sendLoop_accepts (len : Nat) {data : List Byte} {rs : List SendResult}
    (accepts : Accepts data.length rs) :
    (sendLoop len data rs).ret = some (len : Int) ∧ (sendLoop len data rs).accepted = data := by
  induction rs generalizing data with
  | nil => exact accepts.elim
  | cons r rs ih =>
    cases r with
    | error => exact accepts.elim
    | eagain => exact accepts.elim
    | sent n =>
      obtain ⟨-, more⟩ := accepts
      simp only [sendLoop]
      by_cases inside : n < data.length
      · have rest : 0 < (data.drop n).length := by
          rw [List.length_drop]
          omega
        have later : Accepts (data.drop n).length rs := by
          rw [List.length_drop]
          exact more inside
        obtain ⟨ret, accepted⟩ := ih later
        rw [if_pos rest]
        exact ⟨ret, by rw [accepted, List.take_append_drop]⟩
      · have empty : data.drop n = [] := List.drop_of_length_le (by omega)
        rw [empty, if_neg (by simp)]
        exact ⟨by simp, List.take_of_length_le (by omega)⟩

/-- The result ends the loop or brings it on. -/
def SendResult.moves : SendResult → Bool
  | .sent n => decide (0 < n)
  | .eagain => false
  | .error => true

/-- The results that accept something or fail for good. -/
def moves (rs : List SendResult) : Nat := rs.countP SendResult.moves

theorem moves_append (rs ts : List SendResult) : moves (rs ++ ts) = moves rs + moves ts := List.countP_append

@[simp] theorem moves_cons_sent (n : Nat) (rs : List SendResult) :
    moves (.sent n :: rs) = moves rs + if 0 < n then 1 else 0 := by
  simp [moves, SendResult.moves, List.countP_cons]

@[simp] theorem moves_cons_eagain (rs : List SendResult) : moves (.eagain :: rs) = moves rs :=
  List.countP_cons_of_neg (by decide)

/-- What a send comes to on the results it has taken. -/
structure Spent (len : Nat) (data : List Byte) (used : List SendResult) (run : SendRun) : Prop where
  /-- each but the last that moves the loop accepts a byte at least -/
  accepts : moves used ≤ run.accepted.length + 1
  few : moves used ≤ max 1 data.length
  /-- a loop that is not left has taken all there were -/
  waits : run.ret = none → run.left = [] ∧ moves used < max 1 data.length
  ends : ∀ ret, run.ret = some ret → (ret = len ∧ run.accepted = data) ∨ (ret = -1 ∧ .error ∈ used)

/-- The result that ends the loop with everything accepted. -/
theorem Spent.last (len : Nat) (data : List Byte) (r : SendResult) (left : List SendResult) :
    Spent len data [r] ⟨some len, data, left⟩ := by
  have one : moves [r] ≤ 1 := List.countP_le_length
  refine ⟨Nat.le_trans one (Nat.le_add_left 1 _), Nat.le_trans one (Nat.le_max_left 1 _), ?_, ?_⟩
  · intro waits
    cases waits
  · intro ret left
    cases left
    exact .inl ⟨rfl, rfl⟩

theorem Spent.eagain {len : Nat} {data : List Byte} {used : List SendResult} {run : SendRun}
    (spent : Spent len data used run) : Spent len data (.eagain :: used) run := by
  obtain ⟨accepts, few, waits, ends⟩ := spent
  rw [← moves_cons_eagain used] at accepts few waits
  refine ⟨accepts, few, waits, fun ret left => ?_⟩
  exact (ends ret left).imp_right fun failed => ⟨failed.1, List.mem_cons_of_mem _ failed.2⟩

/-- What a result accepts makes room for it in the bounds. -/
theorem Spent.sent {len n : Nat} {data : List Byte} {used : List SendResult} {run : SendRun}
    (more : n < data.length) (spent : Spent len (data.drop n) used run) :
    Spent len data (.sent n :: used) { run with accepted := data.take n ++ run.accepted } := by
  obtain ⟨accepts, few, waits, ends⟩ := spent
  rw [List.length_drop] at few waits
  have step : moves (.sent n :: used) ≤ moves used + n := by
    rw [moves_cons_sent]
    split <;> omega
  have count : (data.take n).length = n := by
    rw [List.length_take]
    omega
  refine ⟨?_, by omega, fun left => ?_, fun ret left => ?_⟩
  · rw [List.length_append, count]
    omega
  · obtain ⟨none, fewer⟩ := waits left
    exact ⟨none, by omega⟩
  · rcases ends ret left with ⟨whole, all⟩ | ⟨minus, failed⟩
    · exact .inl ⟨whole, by rw [all, List.take_append_drop]⟩
    · exact .inr ⟨minus, List.mem_cons_of_mem _ failed⟩

/-- **What a send takes of the results.** `EAGAIN` apart, no more of them than there are bytes. -/
theorem sendLoop_spent (len : Nat) (data : List Byte) (rs : List SendResult) :
    ∃ used, rs = used ++ (sendLoop len data rs).left ∧ Spent len data used (sendLoop len data rs) := by
  induction rs generalizing data with
  | nil =>
    refine ⟨[], rfl, Nat.zero_le _, Nat.zero_le _, fun _ => ⟨rfl, ?_⟩, ?_⟩
    · exact Nat.lt_of_lt_of_le Nat.one_pos (Nat.le_max_left 1 _)
    · intro ret left
      cases left
  | cons r rs ih =>
    cases r with
    | error =>
      refine ⟨[.error], rfl, Nat.le_refl 1, Nat.le_max_left 1 _, ?_, ?_⟩
      · intro waits
        cases waits
      · intro ret left
        cases left
        exact .inr ⟨rfl, List.mem_cons_self⟩
    | eagain =>
      simp only [sendLoop]
      by_cases more : 0 < data.length
      · rw [if_pos more]
        obtain ⟨used, joined, spent⟩ := ih data
        exact ⟨.eagain :: used, by rw [List.cons_append, ← joined], spent.eagain⟩
      · rw [if_neg more]
        obtain rfl : data = [] := List.eq_nil_of_length_eq_zero (by omega)
        rw [List.length_nil, Int.natCast_zero, Int.sub_zero]
        exact ⟨[.eagain], rfl, .last len [] .eagain rs⟩
    | sent n =>
      simp only [sendLoop]
      by_cases more : 0 < (data.drop n).length
      · rw [if_pos more]
        obtain ⟨used, joined, spent⟩ := ih (data.drop n)
        rw [List.length_drop] at more
        exact ⟨.sent n :: used, by rw [List.cons_append, ← joined], spent.sent (by omega)⟩
      · rw [if_neg more]
        rw [List.length_drop] at more
        rw [List.drop_of_length_le (by omega), List.take_of_length_le (by omega), List.length_nil,
          Int.natCast_zero, Int.sub_zero]
        exact ⟨[.sent n], rfl, .last len data (.sent n) rs⟩

variable {τ : Type}

theorem wp_sendEx_accepts (data : List Byte) {Q : Int → World τ → Prop} {E : Stop → World τ → Prop}
    {w : World τ} (accepts : Accepts data.length w.sends)
    (sent : ∀ left, Q data.length { w with wire := w.wire ++ data, sends := left }) :
    wp (sendEx data) Q E w := by
  obtain ⟨ret, accepted⟩ := sendLoop_accepts data.length accepts
  refine wp_of_ok (by rw [run_sendEx, ret]) ?_
  rw [accepted]
  exact sent _

/-- A send, with the results it has taken. -/
theorem wp_sendEx_spent (data : List Byte) {Q : Int → World τ → Prop} {E : Stop → World τ → Prop}
    {w : World τ}
    (returns : ∀ used ret accepted left, w.sends = used ++ left →
      Spent data.length data used ⟨some ret, accepted, left⟩ →
      Q ret { w with wire := w.wire ++ accepted, sends := left })
    (blocks : ∀ used accepted left, w.sends = used ++ left →
      Spent data.length data used ⟨none, accepted, left⟩ →
      E .blocked { w with wire := w.wire ++ accepted, sends := left }) : wp (sendEx data) Q E w := by
  obtain ⟨used, joined, spent⟩ := sendLoop_spent data.length data w.sends
  cases left : (sendLoop data.length data w.sends).ret with
  | some ret =>
    refine wp_of_ok (by rw [run_sendEx, left]) (returns used ret _ _ joined ?_)
    rwa [← left]
  | none =>
    refine wp_of_error (by rw [run_sendEx, left]) (blocks used _ _ joined ?_)
    rwa [← left]

end GreatEvent
