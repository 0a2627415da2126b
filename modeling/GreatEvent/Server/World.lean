import GreatEvent.Lib.Callback
import GreatEvent.Net.Protocol

/-!
# What a session callback runs in

`World τ` is one session as its callbacks see it: the object `obj` that does
the work (a task, or the `Session` itself), the socket (bytes not yet read,
bytes the kernel has accepted), the session's event flags, and the results
the coming `recv` and `send` calls will give, which are the environment's
choice. `trace` records, in order, what an observer could see: the windows
passed to `recv`, the frames handed to command dispatch, the frames put into
the send buffer, the control commands recognised. No function of the program
reads it.

`Act τ` is a callback: it returns, or it stops inside (`Stop`), and keeps the
state either way.
-/

namespace GreatEvent

open Lib

/-- The result of one `send` call. -/
inductive SendResult where
  | sent (n : Nat)
  | eagain
  | error
  deriving DecidableEq, Repr

/-- The result of one `recv` call: at most `n` bytes, `-1` with `EAGAIN`, or end of stream. -/
inductive RecvResult where
  | got (n : Nat)
  | again
  | closed
  deriving DecidableEq, Repr

/-- Why a callback does not come back: `blocked`, it is still in its `send` loop when the results
run out; `fault`, it reads or writes outside its memory. -/
inductive Stop where
  | blocked
  | fault
  deriving DecidableEq, Repr

/-- A control command as `recvPackData` recognises it. -/
inductive Control where
  | start
  | setpause (value : Int)
  | seek (value : Int)
  | send
  deriving DecidableEq, Repr

/-- The tasks a login can create. -/
inductive TaskKind where
  | playback
  | fileSend
  deriving DecidableEq, Repr

/-- The callbacks that can remove, delete and close a session. -/
inductive Teardown where
  | onRead
  | onWrite
  deriving DecidableEq, Repr

/-- One observable event. `window size off len` is a `recv` asked to write `len` bytes at `off`
into a buffer of `size` bytes. -/
inductive Obs where
  | window (size : Nat) (off len : Int)
  | frame (bytes : List Byte)
  | queued (f : Frame)
  | command (c : Control)
  | create (kind : TaskKind) (path : List Byte)
  | teardown (by' : Teardown)
  deriving DecidableEq

namespace Obs

/-- The observations made by the reading side: windows and frames. -/
def isReading : Obs → Bool
  | .window .. => true
  | .frame _ => true
  | _ => false

def frame? : Obs → Option (List Byte)
  | .frame bytes => some bytes
  | _ => none

def queued? : Obs → Option Frame
  | .queued f => some f
  | _ => none

def command? : Obs → Option Control
  | .command c => some c
  | _ => none

/-- The window lies inside its buffer. -/
def windowOk : Obs → Bool
  | .window size off len => 0 ≤ off && 0 ≤ len && off + len ≤ size
  | _ => true

end Obs

/-- The frames handed to command dispatch, in order. -/
def framesIn (trace : List Obs) : List (List Byte) := trace.filterMap Obs.frame?

/-- The frames put into the send buffer, in order. -/
def queuedIn (trace : List Obs) : List Frame := trace.filterMap Obs.queued?

/-- The control commands recognised, in order. -/
def commandsIn (trace : List Obs) : List Control := trace.filterMap Obs.command?

/-- The messages these frames make for the transport. -/
def outgoing (trace : List Obs) : List (List Byte) := (queuedIn trace).map Frame.bytes

theorem framesIn_append (s t : List Obs) : framesIn (s ++ t) = framesIn s ++ framesIn t :=
  List.filterMap_append

theorem queuedIn_append (s t : List Obs) : queuedIn (s ++ t) = queuedIn s ++ queuedIn t :=
  List.filterMap_append

theorem commandsIn_append (s t : List Obs) : commandsIn (s ++ t) = commandsIn s ++ commandsIn t :=
  List.filterMap_append

theorem queuedIn_concat (trace : List Obs) (f : Frame) :
    queuedIn (trace ++ [.queued f]) = queuedIn trace ++ [f] :=
  queuedIn_append _ _

theorem outgoing_concat (trace : List Obs) (f : Frame) :
    outgoing (trace ++ [.queued f]) = outgoing trace ++ [f.bytes] := by
  rw [outgoing, queuedIn_concat, List.map_append]
  rfl

/-- Observations that queue nothing leave the messages alone. -/
theorem outgoing_append_of_silent (trace : List Obs) {obs : List Obs} (silent : queuedIn obs = []) :
    outgoing (trace ++ obs) = outgoing trace := by
  rw [outgoing, outgoing, queuedIn_append, silent, List.append_nil]

/-- A session and its surroundings. -/
structure World (τ : Type) where
  obj : τ
  /-- what the peer has sent and `recv` has not returned yet -/
  inp : List Byte
  /-- what the kernel has accepted from `send`, in order -/
  wire : List Byte
  /-- the results of the coming `recv` calls -/
  recvs : List RecvResult
  /-- the results of the coming `send` calls -/
  sends : List SendResult
  mReading : Bool
  mWriting : Bool
  /-- the session's three events, each pending or active -/
  readEvent : Bool
  writeEvent : Bool
  timeEvent : Bool
  /-- removed from the session manager, deleted and its socket closed -/
  closed : Bool
  /-- a callback stopped inside -/
  halted : Option Stop
  trace : List Obs

/-- A callback over a session with object `τ`. -/
abbrev Act (τ : Type) := EStateM Stop (World τ)

/-- The same session around another object. -/
def World.withObj {σ τ : Type} (w : World σ) (t : τ) : World τ :=
  { obj := t, inp := w.inp, wire := w.wire, recvs := w.recvs, sends := w.sends,
    mReading := w.mReading, mWriting := w.mWriting, readEvent := w.readEvent,
    writeEvent := w.writeEvent, timeEvent := w.timeEvent, closed := w.closed,
    halted := w.halted, trace := w.trace }

/-- What the peer's socket has accepted arrives. -/
def World.arrive {τ : Type} (w : World τ) (bytes : List Byte) : World τ := { w with inp := w.inp ++ bytes }

section
variable {σ τ α : Type}

/-- The session after a callback; one that stopped inside stays halted. -/
def after (act : Act τ α) (w : World τ) : World τ :=
  match act.run w with
  | .ok _ w' => w'
  | .error e w' => { w' with halted := some e }

/-- A method of a member object, called from its owner: `put` stores the member back. -/
def inMember (t : τ) (put : τ → σ) (act : Act τ α) : Act σ α := fun w =>
  match act.run (w.withObj t) with
  | .ok a w' => .ok a (w'.withObj (put w'.obj))
  | .error e w' => .error e (w'.withObj (put w'.obj))

/-- `*this` -/
def self : Act τ τ := do return (← get).obj

def modifySelf (f : τ → τ) : Act τ Unit := modify fun w => { w with obj := f w.obj }

/-- What a callback's precondition says about the session it leaves. -/
theorem after_of_wp {P : World τ → Prop} {act : Act τ α} {w : World τ}
    (h : wp act (fun _ w' => P w') (fun e w' => P { w' with halted := some e }) w) :
    P (after act w) := by
  unfold wp at h
  unfold after
  cases run : act.run w <;> rw [run] at h <;> exact h

/-- A member's method runs in the member's world. -/
@[simp] theorem wp_inMember (t : τ) (put : τ → σ) (act : Act τ α) {Q : α → World σ → Prop}
    {E : Stop → World σ → Prop} {w : World σ} : wp (inMember t put act) Q E w ↔
      wp act (fun a w' => Q a (w'.withObj (put w'.obj))) (fun e w' => E e (w'.withObj (put w'.obj)))
        (w.withObj t) := by
  have run : EStateM.run (inMember t put act) w = match act.run (w.withObj t) with
    | .ok a w' => .ok a (w'.withObj (put w'.obj))
    | .error e w' => .error e (w'.withObj (put w'.obj)) := rfl
  simp only [wp, run]
  cases act.run (w.withObj t) <;> rfl

/-- Record an observation. -/
def emit (o : Obs) : Act τ Unit := modify fun w => { w with trace := w.trace ++ [o] }

section
variable {Q : Unit → World τ → Prop} {E : Stop → World τ → Prop} {w : World τ}

@[simp] theorem wp_self {Q : τ → World τ → Prop} : wp self Q E w ↔ Q w.obj w := Iff.rfl

@[simp] theorem wp_modifySelf (f : τ → τ) :
    wp (modifySelf f) Q E w ↔ Q () { w with obj := f w.obj } := Iff.rfl

@[simp] theorem wp_emit (o : Obs) :
    wp (emit o) Q E w ↔ Q () { w with trace := w.trace ++ [o] } := Iff.rfl

end

/-! ## Sending -/

/-- What the send loop comes to: its result (`none`, the results ran out first), the bytes the
socket accepted and the results left over. -/
structure SendRun where
  ret : Option Int
  accepted : List Byte
  left : List SendResult
  deriving DecidableEq

/-- The loop of `sendEx` with `data` still to send out of `len` bytes: partial sends are continued,
`EAGAIN` is retried while something is left, any other error ends it at once. -/
def sendLoop (len : Nat) : List Byte → List SendResult → SendRun
  | _, [] => ⟨none, [], []⟩
  | _, .error :: rs => ⟨some (-1), [], rs⟩
  | data, .eagain :: rs =>
    if 0 < data.length then sendLoop len data rs else ⟨some ((len : Int) - data.length), [], rs⟩
  | data, .sent n :: rs =>
    let rest := data.drop n
    if 0 < rest.length then
      let run := sendLoop len rest rs
      ⟨run.ret, data.take n ++ run.accepted, run.left⟩
    else ⟨some ((len : Int) - rest.length), data.take n, rs⟩

/-- `sendEx(data, len)`: `TaskPlayback`, `TaskFileSend` and `TaskFileRecv` each have this body. -/
def sendEx (data : List Byte) : Act τ Int := do
  let w ← get
  let run := sendLoop data.length data w.sends
  set { w with wire := w.wire ++ run.accepted, sends := run.left }
  match run.ret with
  | some ret => return ret
  | none => throw .blocked

theorem run_sendEx (data : List Byte) (w : World τ) : EStateM.run (sendEx data) w =
    match (sendLoop data.length data w.sends).ret with
    | some ret => .ok ret { w with
        wire := w.wire ++ (sendLoop data.length data w.sends).accepted,
        sends := (sendLoop data.length data w.sends).left }
    | none => .error .blocked { w with
        wire := w.wire ++ (sendLoop data.length data w.sends).accepted,
        sends := (sendLoop data.length data w.sends).left } := by
  simp only [sendEx, EStateM.run_bind, EStateM.run_get, EStateM.run_set]
  cases (sendLoop data.length data w.sends).ret <;> rfl

/-- The socket never accepts anything but the front of the data. -/
theorem sendLoop_accepted_prefix (len : Nat) (data : List Byte) (rs : List SendResult) :
    (sendLoop len data rs).accepted <+: data := by
  induction rs generalizing data with
  | nil => exact List.nil_prefix
  | cons r rs ih =>
    cases r with
    | error => exact List.nil_prefix
    | eagain =>
      simp only [sendLoop]
      split
      · exact ih data
      · exact List.nil_prefix
    | sent n =>
      simp only [sendLoop]
      split
      · obtain ⟨rest, joined⟩ := ih (data.drop n)
        exact ⟨rest, by rw [List.append_assoc, joined, List.take_append_drop]⟩
      · exact List.take_prefix n data

/-- The results that a send of so many bytes leaves over. -/
def leftAfter : Nat → List SendResult → List SendResult
  | _, [] => []
  | _, .error :: rs => rs
  | left, .eagain :: rs => if 0 < left then leftAfter left rs else rs
  | left, .sent n :: rs => if n < left then leftAfter (left - n) rs else rs

theorem sendLoop_left (len : Nat) (data : List Byte) (rs : List SendResult) :
    (sendLoop len data rs).left = leftAfter data.length rs := by
  induction rs generalizing data with
  | nil => rfl
  | cons r rs ih =>
    cases r with
    | error => rfl
    | eagain =>
      simp only [sendLoop, leftAfter]
      split
      · exact ih data
      · rfl
    | sent n =>
      have more : 0 < (data.drop n).length ↔ n < data.length := by
        rw [List.length_drop]
        omega
      simp only [sendLoop, leftAfter, more]
      split
      · rw [ih, List.length_drop]
      · rfl

/-- They are the last ones of those given. -/
theorem leftAfter_suffix (left : Nat) (rs : List SendResult) : leftAfter left rs <:+ rs := by
  induction rs generalizing left with
  | nil => exact List.nil_suffix
  | cons r rs ih =>
    cases r with
    | error => exact List.suffix_cons _ rs
    | eagain =>
      simp only [leftAfter]
      split
      · exact (ih left).trans (List.suffix_cons _ rs)
      · exact List.suffix_cons _ rs
    | sent n =>
      simp only [leftAfter]
      split
      · exact (ih (left - n)).trans (List.suffix_cons _ rs)
      · exact List.suffix_cons _ rs

theorem leftAfter_fine (left : Nat) {rs : List SendResult} (fine : .error ∉ rs) :
    .error ∉ leftAfter left rs :=
  fun bad => fine ((leftAfter_suffix left rs).subset bad)

/-- The results bring a send of `left` bytes to its end: all of them are accepted, or it fails. -/
def sendEnds : Nat → List SendResult → Bool
  | _, [] => false
  | _, .error :: _ => true
  | left, .eagain :: rs => left == 0 || sendEnds left rs
  | left, .sent n :: rs => decide (left ≤ n) || sendEnds (left - n) rs

theorem sendLoop_ends (len : Nat) (data : List Byte) (rs : List SendResult) :
    (sendLoop len data rs).ret.isSome = sendEnds data.length rs := by
  induction rs generalizing data with
  | nil => rfl
  | cons r rs ih =>
    cases r with
    | error => rfl
    | eagain =>
      cases data with
      | nil => rfl
      | cons b bs => exact ih (b :: bs)
    | sent n =>
      have rest : (data.drop n).length = data.length - n := List.length_drop
      simp only [sendLoop, sendEnds]
      by_cases more : n < data.length
      · rw [if_pos (by omega), decide_eq_false (by omega), Bool.false_or, ← rest]
        exact ih _
      · rw [if_neg (by omega), decide_eq_true (by omega)]
        rfl

/-- The coming results bring the send of a login reply to its end. -/
def World.Answers (w : World τ) : Prop := sendEnds (packHeadLen + loginRetSize) w.sends = true

instance (w : World τ) : Decidable w.Answers := inferInstanceAs (Decidable (_ = _))

/-- A fatal error hits a send that has `left` bytes to go, some bytes before them being out: some
already at its start if `started`. -/
def cutShort (started : Bool) : Nat → List SendResult → Bool
  | _, [] => false
  | _, .error :: _ => started
  | left, .eagain :: rs => decide (0 < left) && cutShort started left rs
  | left, .sent n :: rs => decide (n < left) && cutShort (started || decide (0 < n)) (left - n) rs

theorem cutShort_of_fine {rs : List SendResult} (fine : .error ∉ rs) (started : Bool) (left : Nat) :
    cutShort started left rs = false := by
  induction rs generalizing started left with
  | nil => rfl
  | cons r rs ih =>
    simp only [List.mem_cons, not_or] at fine
    cases r with
    | error => exact absurd rfl fine.1
    | eagain => simp [cutShort, ih fine.2]
    | sent n => simp [cutShort, ih fine.2]

/-- The loop is left with everything accepted, or after a fatal error; one that is not cut short has
then accepted nothing. -/
theorem sendLoop_outcome {len : Nat} (started : Bool) {data : List Byte} {rs : List SendResult}
    {ret : Int} (left : (sendLoop len data rs).ret = some ret) :
    ((sendLoop len data rs).accepted = data ∧ ret = len) ∨
      (ret = -1 ∧ .error ∈ rs ∧ (cutShort started data.length rs = false →
        started = false ∧ (sendLoop len data rs).accepted = [])) := by
  induction rs generalizing started data with
  | nil => cases left
  | cons r rs ih =>
    cases r with
    | error =>
      cases left
      exact .inr ⟨rfl, List.mem_cons_self, fun whole => ⟨whole, rfl⟩⟩
    | eagain =>
      simp only [sendLoop] at left ⊢
      split at left
      case isTrue more =>
        rw [if_pos more]
        rcases ih started left with all | ⟨failed, bad, whole⟩
        · exact .inl all
        · refine .inr ⟨failed, List.mem_cons_of_mem _ bad, fun uncut => whole ?_⟩
          simpa [cutShort, more] using uncut
      case isFalse done =>
        obtain rfl : data = [] := List.eq_nil_of_length_eq_zero (by omega)
        cases left
        exact .inl ⟨rfl, by simp⟩
    | sent n =>
      simp only [sendLoop] at left ⊢
      split at left
      case isTrue more =>
        rw [if_pos more]
        have inside : n < data.length := by
          rw [List.length_drop] at more
          omega
        rcases ih (started || decide (0 < n)) left with ⟨all, ret⟩ | ⟨failed, bad, whole⟩
        · exact .inl ⟨by rw [all, List.take_append_drop], ret⟩
        · refine .inr ⟨failed, List.mem_cons_of_mem _ bad, fun uncut => ?_⟩
          obtain ⟨fresh, none⟩ := whole (by
            simpa only [cutShort, inside, decide_true, Bool.true_and, List.length_drop] using uncut)
          simp only [Bool.or_eq_false_iff, decide_eq_false_iff_not, Nat.not_lt, Nat.le_zero] at fresh
          obtain ⟨fresh, rfl⟩ := fresh
          exact ⟨fresh, by rw [none]; rfl⟩
      case isFalse done =>
        have empty : data.drop n = [] := List.eq_nil_of_length_eq_zero (by omega)
        rw [if_neg done]
        cases left
        exact .inl ⟨List.take_of_length_le (List.drop_eq_nil_iff.mp empty), by simp [empty]⟩

/-- **What a send comes to**: everything is accepted; or it fails for good, with nothing accepted
unless it is cut short; or it is still in its loop with the front of the data accepted. -/
theorem wp_sendEx_outcome (data : List Byte) {Q : Int → World τ → Prop}
    {E : Stop → World τ → Prop} {w : World τ}
    (sent : Q data.length { w with
      wire := w.wire ++ data, sends := leftAfter data.length w.sends })
    (failed : ∀ part, part <+: data → .error ∈ w.sends →
      (cutShort false data.length w.sends = false → part = []) →
      Q (-1) { w with wire := w.wire ++ part, sends := leftAfter data.length w.sends })
    (blocks : ∀ part left, part <+: data →
      E .blocked { w with wire := w.wire ++ part, sends := left }) :
    wp (sendEx data) Q E w := by
  have front := sendLoop_accepted_prefix data.length data w.sends
  cases outcome : (sendLoop data.length data w.sends).ret with
  | none => exact wp_of_error (by rw [run_sendEx, outcome]) (blocks _ _ front)
  | some ret =>
    refine wp_of_ok (by rw [run_sendEx, outcome]) ?_
    rw [sendLoop_left]
    rcases sendLoop_outcome false outcome with ⟨all, rfl⟩ | ⟨rfl, bad, whole⟩
    · rw [all]
      exact sent
    · exact failed _ front bad fun uncut => (whole uncut).2

/-- What a send leaves alone, whatever the socket answers. -/
theorem wp_sendEx (data : List Byte) {Q : Int → World τ → Prop} {E : Stop → World τ → Prop}
    {w : World τ} (returns : ∀ ret part left, Q ret { w with wire := w.wire ++ part, sends := left })
    (blocks : ∀ part left, E .blocked { w with wire := w.wire ++ part, sends := left }) :
    wp (sendEx data) Q E w := by
  cases outcome : (sendLoop data.length data w.sends).ret with
  | some ret => exact wp_of_ok (by rw [run_sendEx, outcome]) (returns ret _ _)
  | none => exact wp_of_error (by rw [run_sendEx, outcome]) (blocks _ _)

/-- Whether a send comes back is up to the results. -/
theorem wp_sendEx_ends (data : List Byte) {w : World τ} : wp (sendEx data)
    (fun _ _ => sendEnds data.length w.sends = true)
    (fun _ _ => sendEnds data.length w.sends = false) w := by
  rw [← sendLoop_ends data.length]
  cases outcome : (sendLoop data.length data w.sends).ret with
  | some ret => exact wp_of_ok (by rw [run_sendEx, outcome]) rfl
  | none => exact wp_of_error (by rw [run_sendEx, outcome]) rfl

/-- The send of a login reply from a command buffer. -/
theorem wp_sendReply (cmd : CmdBuffer) {w : World τ} :
    wp (sendEx ((cmd.bytes.drop 0).take (packHeadLen + loginRetSize - 0))) (fun _ _ => w.Answers)
      (fun _ _ => ¬ w.Answers) w := by
  have length : ((cmd.bytes.drop 0).take (packHeadLen + loginRetSize - 0)).length =
      packHeadLen + loginRetSize := by
    rw [List.drop_zero, List.length_take, cmd.bytes_len]
    rfl
  refine (wp_sendEx_ends _).mono (fun _ _ answers => ?_) (fun _ _ waits => ?_)
  · rwa [length] at answers
  · rw [length] at waits
    exact Bool.eq_false_iff.mp waits

/-! ## Receiving -/

/-- How many of the `avail` bytes that have arrived a `recv` of length `len` can take: `size_t` turns
a negative length into a huge one. -/
def recvRoom (len : Int) (avail : Nat) : Nat := if len < 0 then avail else min avail len.toNat

/-- What a `recv` of length `len` returns when `avail` bytes have arrived; a length of 0 never gives
a positive count. -/
def recvCount (len : Int) (avail : Nat) : RecvResult → Int
  | .again => -1
  | .closed => 0
  | .got n =>
    if len = 0 then 0
    else if min n (recvRoom len avail) = 0 then -1
    else (min n (recvRoom len avail) : Nat)

/-- `recv(fd, buffer + off, len, 0)` into a buffer of `size` bytes: the result and the bytes
written. Writing past the buffer is a fault. -/
def recv (size : Nat) (off len : Int) : Act τ (Int × List Byte) := do
  emit (.window size off len)
  let w ← get
  let ret := recvCount len w.inp.length (w.recvs.headD .again)
  let bytes := w.inp.take ret.toNat
  set { w with inp := w.inp.drop ret.toNat, recvs := w.recvs.tail }
  if 0 < ret ∧ (size : Int) < off + ret then
    throw .fault
  return (ret, bytes)

/-- The state after a `recv` that returned `ret`. -/
def World.received (w : World τ) (size : Nat) (off len ret : Int) : World τ :=
  { w with inp := w.inp.drop ret.toNat, recvs := w.recvs.tail,
           trace := w.trace ++ [.window size off len] }

theorem wp_recv (size : Nat) (off len : Int) {Q : Int × List Byte → World τ → Prop}
    {E : Stop → World τ → Prop} {w : World τ} {ret : Int}
    (result : recvCount len w.inp.length (w.recvs.headD .again) = ret)
    (returns : ¬ (0 < ret ∧ (size : Int) < off + ret) →
      Q (ret, w.inp.take ret.toNat) (w.received size off len ret))
    (faults : 0 < ret → (size : Int) < off + ret → E .fault (w.received size off len ret)) :
    wp (recv size off len) Q E w := by
  simp only [recv, wp_bind, wp_emit, wp_get, wp_set, result]
  by_cases past : 0 < ret ∧ (size : Int) < off + ret
  · rw [if_pos past]
    exact faults past.1 past.2
  · rw [if_neg past]
    exact returns past

/-- A `recv` never returns more than was asked for or has arrived. -/
theorem recvCount_le (len : Int) (avail : Nat) (r : RecvResult) :
    recvCount len avail r ≤ avail ∧ (0 ≤ len → recvCount len avail r ≤ len) := by
  have room : recvRoom len avail ≤ avail ∧ (0 ≤ len → (recvRoom len avail : Int) ≤ len) := by
    unfold recvRoom
    split <;> omega
  cases r with
  | again => exact ⟨by simp only [recvCount]; omega, by simp only [recvCount]; omega⟩
  | closed => exact ⟨by simp only [recvCount]; omega, id⟩
  | got n =>
    simp only [recvCount]
    split
    · omega
    · split <;> omega

/-- A `recv` returns 0 only at the end of the stream, or when it was asked for nothing. -/
theorem recvCount_eq_zero {len : Int} {avail : Nat} {r : RecvResult}
    (zero : recvCount len avail r = 0) : r = .closed ∨ len = 0 := by
  cases r with
  | again => cases zero
  | closed => exact .inl rfl
  | got n =>
    simp only [recvCount] at zero
    split at zero
    · exact .inr ‹_›
    · split at zero <;> omega

/-! ## Events -/

/-- `EventCall::addEvent(session, EV_WRITE, fd)` -/
def addWriteEvent : Act τ Unit := modify fun w =>
  if w.mWriting then w else { w with mWriting := true, writeEvent := true }

/-- `EventCall::addEvent(session, EV_READ, fd)` -/
def addReadEvent : Act τ Unit := modify fun w =>
  if w.mReading then w else { w with mReading := true, readEvent := true }

@[simp] theorem wp_addWriteEvent {Q : Unit → World τ → Prop} {E : Stop → World τ → Prop}
    {w : World τ} : wp addWriteEvent Q E w ↔
      Q () (if w.mWriting then w else { w with mWriting := true, writeEvent := true }) := Iff.rfl

@[simp] theorem wp_addReadEvent {Q : Unit → World τ → Prop} {E : Stop → World τ → Prop}
    {w : World τ} : wp addReadEvent Q E w ↔
      Q () (if w.mReading then w else { w with mReading := true, readEvent := true }) := Iff.rfl

end

end GreatEvent
