import GreatEvent.Video.PushSender
import Mathlib.Data.List.Basic
import Mathlib.Tactic.MkIffOfInductiveProp

/-!
# Sending all of a buffer when a `send` fails

`sendEx` subtracts the result of every `send` from `leftLen`, also -1. So a
failed `send` puts the loop one byte back: the next `send` that is accepted
sends bytes a second time, and a failure before anything was accepted puts
the window in front of the buffer. `SendsAll` is what a send-all loop is for,
and `sends_all_iff` says for which results `sendEx` is one.
-/

namespace GreatEvent

open Lib

/-- One `send` of the loop: the window it is given, by its place in `data`, and `leftLen` after it. -/
structure PushSend where
  offset : Int
  size : Nat
  leftLen : Nat
  deriving DecidableEq, Repr

/-- The `send` calls of the loop of `sendEx` with `leftLen` of `len` bytes still to send. -/
def pushSends (cls : Pusher) (len : Nat) : List SendRound → Nat → List PushSend
  | [], _ => []
  | r :: rounds, leftLen =>
    if cls.Waits r then
      if r.select = .timeout ∧ 0 < leftLen then pushSends cls len rounds leftLen else []
    else
      let offset := (len : Int) - leftLen
      let size := min leftLen maxMtu
      match r.send with
      | some n =>
        let leftLen := leftLen - min n size
        ⟨offset, size, leftLen⟩ :: if 0 < leftLen then pushSends cls len rounds leftLen else []
      | none => ⟨offset, size, leftLen + 1⟩ :: pushSends cls len rounds (leftLen + 1)

/-- A window in front of the buffer is where the loop faults. -/
theorem pushLoop_fault_iff (cls : Pusher) (data : List Byte) (rounds : List SendRound) (leftLen : Nat) :
    (pushLoop cls data rounds leftLen).ret = .error .fault ↔
      ∃ s ∈ pushSends cls data.length rounds leftLen, s.offset < 0 := by
  induction rounds generalizing leftLen with
  | nil => simp [pushLoop, pushSends]
  | cons r rounds ih =>
    rw [pushLoop, pushSends]
    by_cases waits : cls.Waits r
    · rw [if_pos waits, if_pos waits]
      by_cases timeout : r.select = .timeout
      · by_cases more : 0 < leftLen
        · rw [if_pos timeout, if_pos more, if_pos ⟨timeout, more⟩]
          exact ih leftLen
        · rw [if_pos timeout, if_neg more, if_neg fun both => more both.2]
          simp
      · rw [if_neg timeout, if_neg fun both => timeout both.1]
        simp
    rw [if_neg waits, if_neg waits]
    by_cases inside : data.length < leftLen
    · rw [if_pos inside]
      have outside : (data.length : Int) - leftLen < 0 := by omega
      refine ⟨fun _ => ?_, fun _ => rfl⟩
      cases r.send with
      | some n => exact ⟨_, List.mem_cons_self, outside⟩
      | none => exact ⟨_, List.mem_cons_self, outside⟩
    rw [if_neg inside]
    have first : ¬ (data.length : Int) - leftLen < 0 := by omega
    cases r.send with
    | none =>
      rw [List.exists_mem_cons_iff]
      exact (ih (leftLen + 1)).trans (or_iff_right first).symm
    | some n =>
      have size : (((data.drop (data.length - leftLen)).take maxMtu).take n).length =
          min n (min leftLen maxMtu) := by
        simp only [List.length_take, List.length_drop]
        omega
      dsimp only
      rw [List.exists_mem_cons_iff, size]
      refine Iff.trans ?_ (or_iff_right first).symm
      split
      · exact ih _
      · simp

/-- **What a send-all loop does**, whatever the results of its `send` calls. -/
structure Pusher.SendsAll (cls : Pusher) (data : List Byte) (rounds : List SendRound) : Prop where
  /-- the windows are inside `data` -/
  inside : ∀ s ∈ pushSends cls data.length rounds data.length,
    0 ≤ s.offset ∧ s.offset + s.size ≤ data.length
  /-- `leftLen` stays in its bounds -/
  bounds : ∀ s ∈ pushSends cls data.length rounds data.length, s.leftLen ≤ data.length
  /-- what the socket accepts is the front of `data` -/
  front : (pushLoop cls data rounds data.length).accepted <+: data
  /-- `len` is returned only when all was accepted -/
  whole : (pushLoop cls data rounds data.length).ret = .ok (data.length : Int) →
    (pushLoop cls data rounds data.length).accepted = data

/-- The results of the `send` calls of some rounds, up to a `select` that fails: what they take at
most, or `none` for -1. -/
def Pusher.sends (cls : Pusher) (len : Nat) : List SendRound → List (Option Nat)
  | [] => []
  | r :: rounds =>
    if cls.Waits r then
      if r.select = .timeout ∧ 0 < len then cls.sends len rounds else []
    else r.send.map (min · maxMtu) :: cls.sends len rounds

/-- How much some results take. -/
def taken : List (Option Nat) → Nat
  | [] => 0
  | r :: results => r.getD 0 + taken results

/-- With `done` bytes sent and `left` to send: from the first `send` on that fails before everything
has been sent all fail, and no more of them than bytes have been sent. -/
def FailsLast (done left : Nat) (results : List (Option Nat)) : Prop :=
  ∀ before after, results = before ++ none :: after → none ∉ before → taken before < max 1 left →
    (∀ r ∈ after, r = none) ∧ after.length < done + taken before

theorem failsLast_nil (done left : Nat) : FailsLast done left [] := by
  intro before after joined
  cases before <;> cases joined

/-- A failed `send` must be the first of a row that nothing follows. -/
theorem failsLast_none (done left : Nat) (results : List (Option Nat)) :
    FailsLast done left (none :: results) ↔ (∀ r ∈ results, r = none) ∧ results.length < done := by
  constructor
  · intro last
    exact last [] results rfl List.not_mem_nil (by rw [taken]; omega)
  · rintro ⟨fail, few⟩ before after joined fine _
    cases before with
    | nil =>
      obtain rfl : results = after := List.tail_eq_of_cons_eq joined
      exact ⟨fail, few⟩
    | cons r before =>
      obtain rfl : none = r := List.head_eq_of_cons_eq joined
      exact absurd List.mem_cons_self fine

/-- An accepted one moves the loop on, unless it was the last. -/
theorem failsLast_some (done left : Nat) {k : Nat} (positive : 0 < k) (results : List (Option Nat)) :
    FailsLast done left (some k :: results) ↔ (k < left → FailsLast (done + k) (left - k) results) := by
  constructor
  · intro last more before after joined fine few
    have step := last (some k :: before) after (by rw [joined, List.cons_append]) (by simpa using fine)
      (by rw [taken, Option.getD_some]; omega)
    rw [taken, Option.getD_some] at step
    exact ⟨step.1, by omega⟩
  · rintro last before after joined fine few
    cases before with
    | nil => cases joined
    | cons r before =>
      obtain ⟨rfl, rfl⟩ := List.cons.inj joined
      rw [taken, Option.getD_some] at few ⊢
      obtain ⟨fail, few'⟩ := last (by omega) before after rfl
        (fun member => fine (List.mem_cons_of_mem _ member)) (by omega)
      exact ⟨fail, by omega⟩

/-! ## One round -/

/-- `SendsAll` from the middle of the loop, where `done` bytes of `data` have been accepted. -/
@[mk_iff]
structure SendsFrom (cls : Pusher) (data : List Byte) (done : Nat) (rounds : List SendRound)
    (leftLen : Nat) : Prop where
  inside : ∀ s ∈ pushSends cls data.length rounds leftLen,
    0 ≤ s.offset ∧ s.offset + s.size ≤ data.length
  bounds : ∀ s ∈ pushSends cls data.length rounds leftLen, s.leftLen ≤ data.length
  front : (pushLoop cls data rounds leftLen).accepted <+: data.drop done
  whole : (pushLoop cls data rounds leftLen).ret = .ok (data.length : Int) →
    (pushLoop cls data rounds leftLen).accepted = data.drop done

theorem sendsAll_iff (cls : Pusher) (data : List Byte) (rounds : List SendRound) :
    cls.SendsAll data rounds ↔ SendsFrom cls data 0 rounds data.length := by
  constructor
  · rintro ⟨inside, bounds, front, whole⟩
    exact ⟨inside, bounds, front, whole⟩
  · rintro ⟨inside, bounds, front, whole⟩
    exact ⟨inside, bounds, front, whole⟩

section
variable {cls : Pusher} {data : List Byte} {done leftLen : Nat} {r : SendRound} {rounds : List SendRound}

theorem sendsFrom_nil : SendsFrom cls data done [] leftLen :=
  ⟨fun _ member => absurd member List.not_mem_nil, fun _ member => absurd member List.not_mem_nil,
    List.nil_prefix, fun returns => by cases returns⟩

/-- A timeout of `select` changes nothing. -/
theorem sendsFrom_timeout (waits : cls.Waits r) (timeout : r.select = .timeout) (more : 0 < leftLen) :
    SendsFrom cls data done (r :: rounds) leftLen ↔ SendsFrom cls data done rounds leftLen := by
  simp only [sendsFrom_iff, pushLoop, pushSends, if_pos waits, if_pos timeout, if_pos more,
    if_pos (And.intro timeout more)]

/-- The loop is left at `select`: with nothing to send, or with -1. -/
theorem sendsFrom_leaves (waits : cls.Waits r) (leaves : ¬ (r.select = .timeout ∧ 0 < leftLen))
    (all : leftLen = 0 → done = data.length) : SendsFrom cls data done (r :: rounds) leftLen := by
  rw [sendsFrom_iff, pushSends, if_pos waits, if_neg leaves, pushLoop, if_pos waits]
  refine ⟨fun _ member => absurd member List.not_mem_nil,
    fun _ member => absurd member List.not_mem_nil, ?_⟩
  by_cases timeout : r.select = .timeout
  · have none : leftLen = 0 := Nat.eq_zero_of_not_pos fun more => leaves ⟨timeout, more⟩
    rw [if_pos timeout, if_neg (by omega), all none, List.drop_length]
    exact ⟨List.nil_prefix, fun _ => rfl⟩
  · rw [if_neg timeout]
    refine ⟨List.nil_prefix, fun returns => ?_⟩
    have minus : (-1 : Int) = data.length := Except.ok.inj returns
    omega

/-- A failed `send` needs a byte to go back over. -/
theorem sendsFrom_fails (waits : ¬ cls.Waits r) (fails : r.send = none) (inside : leftLen ≤ data.length) :
    SendsFrom cls data done (r :: rounds) leftLen ↔
      leftLen < data.length ∧ SendsFrom cls data done rounds (leftLen + 1) := by
  simp only [sendsFrom_iff, pushLoop, pushSends, if_neg waits, if_neg (Nat.not_lt.mpr inside), fails,
    List.forall_mem_cons]
  constructor
  · rintro ⟨⟨-, inside⟩, ⟨bound, bounds⟩, front, whole⟩
    exact ⟨bound, inside, bounds, front, whole⟩
  · rintro ⟨bound, inside, bounds, front, whole⟩
    exact ⟨⟨by omega, inside⟩, ⟨bound, bounds⟩, front, whole⟩

theorem take_append_prefix_iff (bs accepted : List Byte) (k : Nat) :
    bs.take k ++ accepted <+: bs ↔ accepted <+: bs.drop k := by
  have front : bs.take k ++ accepted <+: bs.take k ++ bs.drop k ↔ accepted <+: bs.drop k :=
    List.prefix_append_right_inj _
  rwa [List.take_append_drop] at front

theorem take_append_eq_iff (bs accepted : List Byte) (k : Nat) :
    bs.take k ++ accepted = bs ↔ accepted = bs.drop k := by
  have same : bs.take k ++ accepted = bs.take k ++ bs.drop k ↔ accepted = bs.drop k :=
    List.append_right_inj _
  rwa [List.take_append_drop] at same

/-- A `send` that goes on where the accepted bytes end, and takes `k` bytes. -/
theorem sendsFrom_takes {n k : Nat} (waits : ¬ cls.Waits r) (takes : r.send = some n)
    (count : k = min n (min leftLen maxMtu)) (goes : done + leftLen = data.length) :
    SendsFrom cls data done (r :: rounds) leftLen ↔
      (k < leftLen → SendsFrom cls data (done + k) rounds (leftLen - k)) := by
  have start : data.length - leftLen = done := by omega
  have length : (data.drop done).length = leftLen := by
    rw [List.length_drop]
    omega
  have part : ((data.drop done).take maxMtu).take n = (data.drop done).take k := by
    rw [List.take_take, List.take_eq_take_iff]
    omega
  have size : ((data.drop done).take k).length = k := by
    rw [List.length_take]
    omega
  simp only [sendsFrom_iff, pushLoop, pushSends, if_neg waits, takes, start, part, size, ← count,
    if_neg (show ¬ data.length < leftLen by omega), List.forall_mem_cons]
  by_cases more : k < leftLen
  · rw [if_pos (by omega), if_pos (by omega)]
    simp only [take_append_prefix_iff, take_append_eq_iff, List.drop_drop]
    constructor
    · rintro ⟨⟨-, inside⟩, ⟨-, bounds⟩, front, whole⟩ _
      exact ⟨inside, bounds, front, whole⟩
    · intro next
      obtain ⟨inside, bounds, front, whole⟩ := next more
      exact ⟨⟨by omega, inside⟩, ⟨by omega, bounds⟩, front, whole⟩
  · rw [if_neg (by omega), if_neg (by omega), List.take_of_length_le (by omega)]
    refine ⟨fun _ less => absurd less more, fun _ => ⟨⟨by omega, ?_⟩, ⟨by omega, ?_⟩, ?_, fun _ => rfl⟩⟩
    · exact fun _ member => absurd member List.not_mem_nil
    · exact fun _ member => absurd member List.not_mem_nil
    · exact List.prefix_refl _

/-- A `send` that takes something takes the first byte of its window. -/
theorem accepts_first {n : Nat} {b : Byte} {tail : List Byte} (waits : ¬ cls.Waits r)
    (takes : r.send = some (n + 1)) (inside : leftLen ≤ data.length)
    (window : data.drop (data.length - leftLen) = b :: tail) :
    ∃ rest, (pushLoop cls data (r :: rounds) leftLen).accepted = b :: rest := by
  obtain ⟨m, mtu⟩ : ∃ m, maxMtu = m + 1 := ⟨maxMtu - 1, by decide⟩
  rw [pushLoop, if_neg waits, if_neg (by omega), takes, window, mtu]
  dsimp only
  split
  · exact ⟨_, rfl⟩
  · exact ⟨_, rfl⟩

/-- One that does not sends something else, in a buffer with other bytes there. -/
theorem sends_again {len n : Nat} (waits : ¬ cls.Waits r) (takes : r.send = some (n + 1))
    (back : len < done + leftLen) (more : done < len) (inside : leftLen ≤ len) :
    ∃ data : List Byte, data.length = len ∧ ¬ SendsFrom cls data done (r :: rounds) leftLen := by
  refine ⟨List.replicate done 0 ++ 1 :: List.replicate (len - done - 1) 0, ?_, ?_⟩
  · simp only [List.length_append, List.length_cons, List.length_replicate]
    omega
  generalize data_eq : List.replicate done (0 : Byte) ++ 1 :: List.replicate (len - done - 1) 0 = data
  have length : data.length = len := by
    rw [← data_eq]
    simp only [List.length_append, List.length_cons, List.length_replicate]
    omega
  have next : data.drop done = 1 :: List.replicate (len - done - 1) 0 := by
    rw [← data_eq, List.drop_left' (List.length_replicate)]
  obtain ⟨tail, window⟩ : ∃ tail, data.drop (len - leftLen) = 0 :: tail := by
    obtain ⟨j, gap⟩ : ∃ j, done = len - leftLen + (j + 1) := ⟨done - (len - leftLen) - 1, by omega⟩
    refine ⟨List.replicate j 0 ++ 1 :: List.replicate (len - done - 1) 0, ?_⟩
    rw [← data_eq, List.drop_append_of_le_length (by rw [List.length_replicate]; omega),
      List.drop_replicate, show done - (len - leftLen) = j + 1 by omega, List.replicate_succ,
      List.cons_append]
  rintro ⟨-, -, front, -⟩
  obtain ⟨rest, accepted⟩ := accepts_first waits takes
    (by omega : leftLen ≤ data.length) (by rw [length, window])
  rw [accepted, next] at front
  obtain ⟨rest', joined⟩ := front
  cases joined

/-! ## All rounds -/

variable {len : Nat}

theorem all_fails (waits : ¬ cls.Waits r) (fails : r.send = none) (inside : leftLen ≤ len) :
    (∀ data : List Byte, data.length = len → SendsFrom cls data done (r :: rounds) leftLen) ↔
      leftLen < len ∧
        ∀ data : List Byte, data.length = len → SendsFrom cls data done rounds (leftLen + 1) := by
  constructor
  · intro all
    have step : ∀ data : List Byte, data.length = len →
        leftLen < data.length ∧ SendsFrom cls data done rounds (leftLen + 1) := fun data length =>
      (sendsFrom_fails waits fails (length ▸ inside)).mp (all data length)
    have zeros : (List.replicate len (0 : Byte)).length = len := List.length_replicate
    refine ⟨?_, fun data length => (step data length).2⟩
    have less := (step _ zeros).1
    rwa [zeros] at less
  · rintro ⟨less, all⟩ data length
    exact (sendsFrom_fails waits fails (length ▸ inside)).mpr ⟨length ▸ less, all data length⟩

/-- After a failed `send` only failed ones may follow, one for each byte there is to go back over. -/
theorem failed_iff (positive : ∀ r ∈ rounds, r.send ≠ some 0) (back : len < done + leftLen)
    (more : done < len) (inside : leftLen ≤ len) :
    (∀ data : List Byte, data.length = len → SendsFrom cls data done rounds leftLen) ↔
      (∀ r ∈ cls.sends len rounds, r = none) ∧ leftLen + (cls.sends len rounds).length ≤ len := by
  induction rounds generalizing leftLen with
  | nil =>
    refine ⟨fun _ => ⟨fun _ member => absurd member List.not_mem_nil, inside⟩, fun _ _ _ => sendsFrom_nil⟩
  | cons r rounds ih =>
    have positive' : ∀ r ∈ rounds, r.send ≠ some 0 := fun r member =>
      positive r (List.mem_cons_of_mem _ member)
    by_cases waits : cls.Waits r
    · by_cases timeout : r.select = .timeout
      · rw [Pusher.sends, if_pos waits, if_pos ⟨timeout, by omega⟩, ← ih positive' back inside]
        exact forall₂_congr fun _ _ => sendsFrom_timeout waits timeout (by omega)
      · rw [Pusher.sends, if_pos waits, if_neg (fun both => timeout both.1)]
        refine ⟨fun _ => ⟨fun _ member => absurd member List.not_mem_nil, inside⟩, fun _ _ _ => ?_⟩
        exact sendsFrom_leaves waits (fun both => timeout both.1) (by omega)
    · rw [Pusher.sends, if_neg waits]
      cases send : r.send with
      | none =>
        rw [all_fails waits send inside, Option.map_none, List.forall_mem_cons, List.length_cons]
        constructor
        · rintro ⟨less, all⟩
          obtain ⟨fail, few⟩ := (ih positive' (by omega) less).mp all
          exact ⟨⟨rfl, fail⟩, by omega⟩
        · rintro ⟨⟨-, fail⟩, few⟩
          have less : leftLen < len := by omega
          exact ⟨less, (ih positive' (by omega) less).mpr ⟨fail, by omega⟩⟩
      | some n =>
        obtain ⟨m, rfl⟩ : ∃ m, n = m + 1 := by
          refine Nat.exists_eq_succ_of_ne_zero fun zero => ?_
          exact positive r List.mem_cons_self (by rw [send, zero])
        constructor
        · intro all
          obtain ⟨data, length, differs⟩ := sends_again waits send back more inside
          exact absurd (all data length) differs
        · rintro ⟨fail, -⟩
          cases fail _ List.mem_cons_self

/-- Before one, what is accepted moves the loop on. -/
theorem sendsFrom_iff_failsLast (positive : ∀ r ∈ rounds, r.send ≠ some 0) (goes : done + leftLen = len)
    (more : 0 < leftLen ↔ 0 < len) :
    (∀ data : List Byte, data.length = len → SendsFrom cls data done rounds leftLen) ↔
      FailsLast done leftLen (cls.sends len rounds) := by
  induction rounds generalizing done leftLen with
  | nil => exact ⟨fun _ => failsLast_nil done leftLen, fun _ _ _ => sendsFrom_nil⟩
  | cons r rounds ih =>
    have positive' : ∀ r ∈ rounds, r.send ≠ some 0 := fun r member =>
      positive r (List.mem_cons_of_mem _ member)
    by_cases waits : cls.Waits r
    · by_cases timeout : r.select = .timeout ∧ 0 < leftLen
      · rw [Pusher.sends, if_pos waits, if_pos ⟨timeout.1, more.mp timeout.2⟩,
          ← ih positive' goes more]
        exact forall₂_congr fun _ _ => sendsFrom_timeout waits timeout.1 timeout.2
      · rw [Pusher.sends, if_pos waits, if_neg (fun both => timeout ⟨both.1, more.mpr both.2⟩)]
        refine ⟨fun _ => failsLast_nil done leftLen, fun _ data length => ?_⟩
        exact sendsFrom_leaves waits timeout (by omega)
    · rw [Pusher.sends, if_neg waits]
      cases send : r.send with
      | none =>
        rw [all_fails waits send (by omega), Option.map_none, failsLast_none]
        constructor
        · rintro ⟨less, all⟩
          obtain ⟨fail, few⟩ := (failed_iff positive' (by omega) (by omega) less).mp all
          exact ⟨fail, by omega⟩
        · rintro ⟨fail, few⟩
          have less : leftLen < len := by omega
          exact ⟨less, (failed_iff positive' (by omega) (by omega) less).mpr ⟨fail, by omega⟩⟩
      | some n =>
        have mtu : 0 < maxMtu := by decide
        have nonzero : n ≠ 0 := fun zero => positive r List.mem_cons_self (by rw [send, zero])
        rw [Option.map_some, failsLast_some _ _ (show 0 < min n maxMtu by omega)]
        have step : ∀ data : List Byte, data.length = len →
            (SendsFrom cls data done (r :: rounds) leftLen ↔ (min n (min leftLen maxMtu) < leftLen →
              SendsFrom cls data (done + min n (min leftLen maxMtu)) rounds
                (leftLen - min n (min leftLen maxMtu)))) := fun data length =>
          sendsFrom_takes waits send rfl (by omega)
        rw [forall₂_congr step]
        by_cases part : min n maxMtu < leftLen
        · rw [show min n (min leftLen maxMtu) = min n maxMtu by omega,
            ← ih positive' (by omega) (by omega)]
          exact ⟨fun all less data length => all data length less, fun all data length less => all less data length⟩
        · exact ⟨fun _ less => absurd less part, fun _ _ _ less => by omega⟩

end

/-- **When `sendEx` is a send-all loop**: no `send` fails before everything has been accepted, or all
fail from the first one on that does, and no more of them than bytes have been accepted. -/
theorem sends_all_iff (cls : Pusher) (len : Nat) (rounds : List SendRound)
    (positive : ∀ r ∈ rounds, r.send ≠ some 0) :
    (∀ data : List Byte, data.length = len → cls.SendsAll data rounds) ↔
      FailsLast 0 len (cls.sends len rounds) := by
  rw [← sendsFrom_iff_failsLast positive (Nat.zero_add len) Iff.rfl]
  refine forall₂_congr fun data length => ?_
  rw [sendsAll_iff, length]

/-- Two `send` calls that take three bytes. -/
theorem sends_all_sample : Pusher.SendsAll .tcpSender [1, 2, 3] [⟨.ready, some 2⟩, ⟨.timeout, none⟩, ⟨.ready, some 1⟩] := by
  have results : Pusher.sends .tcpSender 3 [⟨.ready, some 2⟩, ⟨.timeout, none⟩, ⟨.ready, some 1⟩] =
      [some 2, some 1] := by decide
  refine (sends_all_iff .tcpSender 3 _ (by decide)).mpr ?_ [1, 2, 3] rfl
  rw [results, failsLast_some _ _ (by decide)]
  intro _
  rw [failsLast_some _ _ (by decide)]
  intro more
  exact absurd more (by decide)

/-- **A failed `send` repeats a byte**: with two of three bytes out, the next `send` starts at the second. -/
theorem failed_send_repeats :
    ¬ (∀ data rounds, (∀ r ∈ rounds, r.send ≠ some 0) → Pusher.SendsAll .tcpSender data rounds) ∧
    ¬ (∀ data rounds, (∀ r ∈ rounds, r.send ≠ some 0) → Pusher.SendsAll .taskVideoSend data rounds) := by
  have accepted : ∀ cls, (pushLoop cls [1, 2, 3]
      [⟨.ready, some 2⟩, ⟨.ready, none⟩, ⟨.ready, some 2⟩] 3).accepted = [1, 2, 2, 3] := by
    intro cls
    cases cls <;> decide
  constructor
  · intro all
    have front := (all [1, 2, 3] [⟨.ready, some 2⟩, ⟨.ready, none⟩, ⟨.ready, some 2⟩] (by decide)).front
    rw [show [(1 : Byte), 2, 3].length = 3 from rfl, accepted] at front
    exact absurd front (by decide)
  · intro all
    have front := (all [1, 2, 3] [⟨.ready, some 2⟩, ⟨.ready, none⟩, ⟨.ready, some 2⟩] (by decide)).front
    rw [show [(1 : Byte), 2, 3].length = 3 from rfl, accepted] at front
    exact absurd front (by decide)

end GreatEvent
