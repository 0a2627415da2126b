import GreatEvent.Server.World
import GreatEvent.Video.PackHead

/-!
# The senders of pushed video

`TaskVideoSend` and `TcpSender` have the same `packetHead`, `tpcSendMsg` and
`tcpSendData`. Their `sendEx` differ in one thing: `TcpSender` waits for the
socket with `select` before every `send`. A `send` that fails moves `leftLen`
the wrong way, so the next one starts a byte earlier. As long as no call
fails, what goes out are the messages of the calls (`wp_runAll`).
-/

namespace GreatEvent

open Lib

/-- The two classes. -/
inductive Pusher where
  | taskVideoSend
  | tcpSender
  deriving DecidableEq, Repr

/-- The class waits with `select`. -/
def Pusher.selects : Pusher → Bool
  | .taskVideoSend => false
  | .tcpSender => true

/-- What `select` says of the socket. -/
inductive SelectResult where
  | ready
  | timeout
  | failed
  deriving DecidableEq, Repr

/-- One round of the loop of `sendEx`: what its `select` comes to, if it has one, and how many bytes its
`send` takes at most, or `none` for -1. -/
structure SendRound where
  select : SelectResult
  send : Option Nat
  deriving DecidableEq, Repr

/-- The round does not come to its `send`. -/
def Pusher.Waits (cls : Pusher) (r : SendRound) : Prop := cls.selects = true ∧ r.select ≠ .ready

instance (cls : Pusher) (r : SendRound) : Decidable (cls.Waits r) := inferInstanceAs (Decidable (_ ∧ _))

/-- A sender on its socket: what the socket has taken, and how the coming rounds go. -/
structure PushSender where
  mSeqid : UInt32
  wire : List Byte
  rounds : List SendRound
  deriving DecidableEq, Repr

/-- A call of a sender. -/
abbrev PushAct := EStateM Stop PushSender

/-- What the loop of `sendEx` comes to: its result, the bytes taken and the rounds left over. -/
structure PushRun where
  ret : Except Stop Int
  accepted : List Byte
  left : List SendRound

/-- The loop of `sendEx` with `leftLen` of the bytes still to send. -/
def pushLoop (cls : Pusher) (data : List Byte) : List SendRound → Nat → PushRun
  | [], _ => ⟨.error .blocked, [], []⟩
  | r :: rounds, leftLen =>
    if cls.Waits r then
      if r.select = .timeout then
        -- `continue` tests the condition of the loop
        if 0 < leftLen then pushLoop cls data rounds leftLen
        else ⟨.ok ((data.length : Int) - leftLen), [], rounds⟩
      else ⟨.ok (-1), [], rounds⟩
    else if data.length < leftLen then ⟨.error .fault, [], rounds⟩
    else
      match r.send with
      | some n =>
        let part := ((data.drop (data.length - leftLen)).take maxMtu).take n
        let leftLen := leftLen - part.length
        if 0 < leftLen then
          let run := pushLoop cls data rounds leftLen
          { run with accepted := part ++ run.accepted }
        else ⟨.ok ((data.length : Int) - leftLen), part, rounds⟩
      | none => pushLoop cls data rounds (leftLen + 1)

namespace Pusher

/-- `sendEx(data, len)` -/
def sendEx (cls : Pusher) (data : List Byte) : PushAct Int := do
  let s ← get
  let run := pushLoop cls data s.rounds data.length
  set { s with wire := s.wire ++ run.accepted, rounds := run.left }
  match run.ret with
  | .ok ret => return ret
  | .error stop => throw stop

/-- `tpcSendMsg` -/
def tpcSendMsg (cls : Pusher) (msg : Byte) : PushAct Int :=
  cls.sendEx (PackHead.bytes ⟨msg, 0, 0, UInt32.ofNat PackHead.size⟩)

/-- `tcpSendData` -/
def tcpSendData (cls : Pusher) (data : List Byte) : PushAct Int := do
  modify fun s => { s with mSeqid := s.mSeqid + 1 }
  let s ← get
  let _ ← cls.sendEx (PackHead.bytes
    ⟨MsgType.videoRecvStream.code, 0, s.mSeqid, UInt32.ofNat data.length⟩)
  cls.sendEx data

end Pusher

/-- What `tcpSendData` is given; `len` is an `int`. -/
structure PushData where
  bytes : List Byte
  isInt : bytes.length < 2 ^ 31

/-- The calls of a sender. -/
inductive PushCall where
  | msg (msg : Byte)
  | data (data : PushData)

namespace PushCall

def run (cls : Pusher) : PushCall → PushAct Int
  | .msg code => cls.tpcSendMsg code
  | .data unit => cls.tcpSendData unit.bytes

/-- The calls one after another, and the bytes each of them has sent. -/
def runAll (cls : Pusher) : List PushCall → PushAct (List (List Byte))
  | [] => return []
  | call :: calls => do
    let before := (← get).wire
    let _ ← call.run cls
    let part := (← get).wire.drop before.length
    let parts ← runAll cls calls
    return part :: parts

/-- `mSeqid` after a call. -/
def next (mSeqid : UInt32) : PushCall → UInt32
  | .msg _ => mSeqid
  | .data _ => mSeqid + 1

/-- The bytes of a call. -/
def message (mSeqid : UInt32) : PushCall → List Byte
  | .msg code => PackHead.bytes ⟨code, 0, 0, UInt32.ofNat PackHead.size⟩
  | .data unit => PackHead.bytes
      ⟨MsgType.videoRecvStream.code, 0, mSeqid + 1, UInt32.ofNat unit.bytes.length⟩ ++ unit.bytes

/-- The bytes of some calls. -/
def messages (mSeqid : UInt32) : List PushCall → List (List Byte)
  | [] => []
  | call :: calls => call.message mSeqid :: messages (call.next mSeqid) calls

end PushCall

/-! ## Sending without errors -/

/-- Neither call of the round fails. -/
def Pusher.Fine (cls : Pusher) (r : SendRound) : Prop :=
  (cls.selects = true → r.select ≠ .failed) ∧ ∃ n, r.send = some (n + 1)

/-- The rounds that come to their `send`. -/
def Pusher.ready (cls : Pusher) (rounds : List SendRound) : Nat :=
  rounds.countP fun r => ¬ cls.Waits r

section
variable {cls : Pusher} {data : List Byte}

theorem ready_cons (r : SendRound) (rounds : List SendRound) :
    cls.ready (r :: rounds) = cls.ready rounds + if cls.Waits r then 0 else 1 := by
  rw [Pusher.ready, List.countP_cons]
  by_cases waits : cls.Waits r
  · simp [Pusher.ready, waits]
  · simp [Pusher.ready, waits]

/-- Without an error the loop sends what is left, or it is still waiting. -/
theorem pushLoop_fine {rounds : List SendRound} (fine : ∀ r ∈ rounds, cls.Fine r) {leftLen : Nat}
    (inside : leftLen ≤ data.length) :
    (∃ ret left, pushLoop cls data rounds leftLen =
        ⟨.ok ret, data.drop (data.length - leftLen), left⟩ ∧ (∀ r ∈ left, cls.Fine r) ∧
        cls.ready rounds ≤ cls.ready left + max 1 leftLen) ∨
      ∃ part, pushLoop cls data rounds leftLen = ⟨.error .blocked, part, []⟩ ∧
        cls.ready rounds < max 1 leftLen := by
  induction rounds generalizing leftLen with
  | nil => exact .inr ⟨[], rfl, by rw [Pusher.ready, List.countP_nil]; omega⟩
  | cons r rounds ih =>
    obtain ⟨alive, n, taken⟩ := fine r List.mem_cons_self
    have later : ∀ r ∈ rounds, cls.Fine r := fun r member => fine r (List.mem_cons_of_mem _ member)
    rw [pushLoop, ready_cons]
    by_cases waits : cls.Waits r
    · have timeout : r.select = .timeout := by
        cases what : r.select with
        | ready => exact absurd what waits.2
        | timeout => rfl
        | failed => exact absurd what (alive waits.1)
      rw [if_pos waits, if_pos waits, if_pos timeout, Nat.add_zero]
      split
      · exact ih later inside
      case isFalse empty =>
        obtain rfl : leftLen = 0 := by omega
        refine .inl ⟨((data.length : Int) - (0 : Nat)), rounds, ?_, later, by omega⟩
        rw [Nat.sub_zero, List.drop_length]
    · rw [if_neg waits, if_neg waits, if_neg (Nat.not_lt.mpr inside), taken]
      dsimp only
      generalize rest : data.drop (data.length - leftLen) = left
      have length : left.length = leftLen := by
        rw [← rest, List.length_drop]
        omega
      have mtu : 0 < maxMtu := by decide
      rw [List.take_take]
      generalize count : ((left.take (min (n + 1) maxMtu)).length) = k
      rw [List.length_take] at count
      split
      case isTrue more =>
        have step : data.drop (data.length - (leftLen - k)) = left.drop k := by
          rw [← rest, List.drop_drop]
          congr 1
          omega
        have joined : left.take (min (n + 1) maxMtu) ++ left.drop k = left := by
          rw [show min (n + 1) maxMtu = k by omega, List.take_append_drop]
        rcases ih later (show leftLen - k ≤ data.length by omega) with
          ⟨ret, unused, ran, fineUnused, enough⟩ | ⟨part, ran, few⟩
        · refine .inl ⟨ret, unused, ?_, fineUnused, by omega⟩
          rw [ran, step, joined]
        · exact .inr ⟨left.take (min (n + 1) maxMtu) ++ part, by rw [ran], by omega⟩
      case isFalse done =>
        refine .inl ⟨((data.length : Int) - (leftLen - k : Nat)), rounds, ?_, later, by omega⟩
        rw [List.take_of_length_le (by omega)]

variable {s : PushSender} {E : Stop → PushSender → Prop}

/-- `sendEx` sends everything, or it is still in its loop because too few rounds have come to their
`send`. -/
theorem wp_pushEx (data : List Byte) (fine : ∀ r ∈ s.rounds, cls.Fine r)
    {Q : Int → PushSender → Prop}
    (sent : ∀ ret left, (∀ r ∈ left, cls.Fine r) →
      cls.ready s.rounds ≤ cls.ready left + max 1 data.length →
      Q ret { s with wire := s.wire ++ data, rounds := left })
    (waits : ∀ s', cls.ready s.rounds < max 1 data.length → E .blocked s') :
    wp (cls.sendEx data) Q E s := by
  simp only [Pusher.sendEx, wp_bind, wp_get, wp_set]
  rcases pushLoop_fine fine (Nat.le_refl data.length) with
    ⟨ret, left, ran, fineLeft, enough⟩ | ⟨part, ran, few⟩
  · rw [Nat.sub_self, List.drop_zero] at ran
    rw [ran]
    exact sent ret left fineLeft enough
  · rw [ran]
    exact waits _ few

/-- How many rounds that come to their `send` a call takes at most. -/
def PushCall.need : PushCall → Nat
  | .msg _ => PackHead.size
  | .data unit => PackHead.size + max 1 unit.bytes.length

/-- And how many some calls take. -/
def needs : List PushCall → Nat
  | [] => 0
  | call :: calls => call.need + needs calls

/-- **A call sends its message.** -/
theorem wp_call (call : PushCall) (fine : ∀ r ∈ s.rounds, cls.Fine r) {Q : Int → PushSender → Prop}
    (sent : ∀ ret left, (∀ r ∈ left, cls.Fine r) →
      cls.ready s.rounds ≤ cls.ready left + call.need →
      Q ret ⟨call.next s.mSeqid, s.wire ++ call.message s.mSeqid, left⟩)
    (waits : ∀ s', cls.ready s.rounds < call.need → E .blocked s') : wp (call.run cls) Q E s := by
  have head : ∀ h : PackHead, max 1 h.bytes.length = PackHead.size := by
    intro h
    rw [PackHead.length_bytes]
    rfl
  cases call with
  | msg code =>
    refine wp_pushEx _ fine (fun ret left fineLeft enough => ?_) (fun s' few => ?_)
    · rw [head] at enough
      exact sent ret left fineLeft enough
    · rw [head] at few
      exact waits s' few
  | data unit =>
    simp only [PushCall.run, Pusher.tcpSendData, wp_bind, wp_modify, wp_get]
    refine wp_pushEx (s := { s with mSeqid := s.mSeqid + 1 }) _ fine
      (fun _ left fineLeft enough => ?_) (fun s' few => ?_)
    · refine wp_pushEx (s := ⟨s.mSeqid + 1, _, left⟩) _ fineLeft (fun ret left' fineLeft' enough' => ?_) (fun s' few => ?_)
      · have done := sent ret left' fineLeft' (by
          dsimp only at enough enough'
          rw [head] at enough
          rw [PushCall.need]
          omega)
        simp only [List.append_assoc]
        exact done
      · refine waits s' ?_
        dsimp only at enough few
        rw [head] at enough
        rw [PushCall.need]
        omega
    · refine waits s' ?_
      dsimp only at few
      rw [head] at few
      rw [PushCall.need]
      omega

/-- **The calls send their messages**, one behind the other. -/
theorem wp_runAll (cls : Pusher) (calls : List PushCall) {s : PushSender}
    (fine : ∀ r ∈ s.rounds, cls.Fine r) :
    wp (PushCall.runAll cls calls)
      (fun parts s' => parts = PushCall.messages s.mSeqid calls ∧ s'.wire = s.wire ++ parts.flatten)
      (fun stop _ => stop = .blocked ∧ cls.ready s.rounds < needs calls) s := by
  induction calls generalizing s with
  | nil => exact ⟨rfl, (List.append_nil _).symm⟩
  | cons call calls ih =>
    simp only [PushCall.runAll, wp_bind, wp_get]
    refine wp_call call fine (fun _ left fineLeft enough => ?_) (fun s' few => ?_)
    · refine (ih fineLeft).mono (fun parts s' sent => ?_) (fun stop s' waits => ?_)
      · obtain ⟨rfl, wire⟩ := sent
        simp only [wp_pure, List.drop_left, List.flatten_cons]
        refine ⟨rfl, ?_⟩
        rw [wire, List.append_assoc]
      · refine ⟨waits.1, ?_⟩
        have few := waits.2
        dsimp only at few
        rw [needs]
        omega
    · refine ⟨rfl, ?_⟩
      rw [needs]
      omega

end

end GreatEvent
