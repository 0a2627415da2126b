import GreatEvent.Client.TcpConnect

/-!
# Video over UDT: `sendvideo.cpp` and `recvvideo.cpp`

A frame goes out as its length, an `int`, and its bytes. `recvvideo` receives
the length and then the bytes into one buffer and hands them to
`ReceiveSource`. An error of the length ends it; an error of the bytes is
only logged, and what the buffer holds is handed on (`recvvideo_frames`). UDT
is a byte stream that breaks at some point and stays broken.
-/

namespace GreatEvent.Udt

open Lib

/-! ## Sending -/

/-- What a `sendEx` comes to: the bytes that UDT has taken, and the results left. -/
structure Sent where
  ok : Bool
  data : List Byte
  sends : List (Option Nat)

/-- `sendEx(usock, buf, size)`. The results say how many bytes more than one the coming `UDT::send`
calls take at most, `none` is `UDT::ERROR`; past their end a call takes everything. -/
def sendEx : List (Option Nat) → List Byte → Sent
  | sends, [] => ⟨true, [], sends⟩
  | [], data => ⟨true, data, []⟩
  | none :: sends, _ => ⟨false, [], sends⟩
  | some more :: sends, data =>
    let rest := sendEx sends (data.drop (more + 1))
    { rest with data := data.take (more + 1) ++ rest.data }

/-- The sending end of a connection. -/
structure VideoSender where
  wire : List Byte
  sends : List (Option Nat)

/-- `sendData(data, len)`: whether it has succeeded. -/
def VideoSender.sendData (data : List Byte) (s : VideoSender) : Bool × VideoSender :=
  let len := sendEx s.sends (leBytes 4 data.length)
  if len.ok then
    let sent := sendEx len.sends data
    (sent.ok, ⟨s.wire ++ len.data ++ sent.data, sent.sends⟩)
  else (false, ⟨s.wire ++ len.data, len.sends⟩)

/-- Some frames sent one after the other. -/
def VideoSender.sendAll (frames : List (List Byte)) (s : VideoSender) : VideoSender :=
  frames.foldl (fun s data => (s.sendData data).2) s

/-- A frame as it goes out. -/
def frameBytes (data : List Byte) : List Byte := leBytes 4 data.length ++ data

/-- Without an error everything goes out. -/
theorem sendEx_fine {sends : List (Option Nat)} (fine : none ∉ sends) (data : List Byte) :
    (sendEx sends data).ok = true ∧ (sendEx sends data).data = data ∧
      none ∉ (sendEx sends data).sends := by
  induction sends generalizing data with
  | nil =>
    cases data with
    | nil => exact ⟨rfl, rfl, fine⟩
    | cons b data => exact ⟨rfl, rfl, fine⟩
  | cons r sends ih =>
    rw [List.mem_cons, not_or] at fine
    cases data with
    | nil => exact ⟨rfl, rfl, List.not_mem_cons_of_ne_of_not_mem fine.1 fine.2⟩
    | cons b data =>
      cases r with
      | none => exact absurd rfl fine.1
      | some more =>
        obtain ⟨ok, all, left⟩ := ih fine.2 ((b :: data).drop (more + 1))
        refine ⟨ok, ?_, left⟩
        show (b :: data).take (more + 1) ++ (sendEx sends ((b :: data).drop (more + 1))).data = _
        rw [all, List.take_append_drop]

theorem sendData_fine {s : VideoSender} (fine : none ∉ s.sends) (data : List Byte) :
    (s.sendData data).1 = true ∧ (s.sendData data).2.wire = s.wire ++ frameBytes data ∧
      none ∉ (s.sendData data).2.sends := by
  obtain ⟨ok, len, left⟩ := sendEx_fine fine (leBytes 4 data.length)
  obtain ⟨ok', sent, left'⟩ := sendEx_fine left data
  simp only [VideoSender.sendData, ok, if_true]
  refine ⟨ok', ?_, left'⟩
  rw [len, sent, frameBytes, List.append_assoc]

/-- **Frames go out one behind the other.** -/
theorem sendAll_wire {s : VideoSender} (fine : none ∉ s.sends) (frames : List (List Byte)) :
    (s.sendAll frames).wire = s.wire ++ frames.flatMap frameBytes := by
  induction frames generalizing s with
  | nil => exact (List.append_nil _).symm
  | cons data frames ih =>
    obtain ⟨-, wire, left⟩ := sendData_fine fine data
    show ((s.sendData data).2.sendAll frames).wire = _
    rw [ih left, wire, List.flatMap_cons, List.append_assoc]

/-! ## Receiving -/

/-- `recvEx(usock, buf, size)` with `inp` arriving before UDT breaks; the cuts are as in `tcpRecv`. -/
def recvEx : List Nat → Nat → List Byte → Received
  | cuts, 0, inp => ⟨true, [], inp, cuts⟩
  | [], size + 1, inp => ⟨size + 1 ≤ inp.length, inp.take (size + 1), inp.drop (size + 1), []⟩
  | cut :: cuts, size + 1, inp =>
    let got := inp.take (min (size + 1) (cut + 1))
    if got.length = 0 then ⟨false, [], inp, cuts⟩
    else
      let more := recvEx cuts (size + 1 - got.length) (inp.drop got.length)
      { more with data := got ++ more.data }

/-- **`recvEx` receives what it asks for**, however the bytes come, or what there is before the error. -/
theorem recvEx_eq (cuts : List Nat) (size : Nat) (inp : List Byte) :
    ∃ cuts', recvEx cuts size inp = ⟨size ≤ inp.length, inp.take size, inp.drop size, cuts'⟩ := by
  induction cuts generalizing size inp with
  | nil =>
    cases size with
    | zero => exact ⟨[], by simp [recvEx]⟩
    | succ size => exact ⟨[], by simp [recvEx]⟩
  | cons cut cuts ih =>
    cases size with
    | zero => exact ⟨cut :: cuts, by simp [recvEx]⟩
    | succ size =>
      rw [recvEx]
      dsimp only
      by_cases none' : inp = []
      · subst none'
        exact ⟨cuts, by simp⟩
      · have arrived : 0 < inp.length := List.length_pos_iff.mpr none'
        generalize count : (inp.take (min (size + 1) (cut + 1))).length = n
        have got : inp.take (min (size + 1) (cut + 1)) = inp.take n := by
          rw [List.take_eq_take_iff, ← count, List.length_take]
          omega
        rw [List.length_take] at count
        obtain ⟨cuts', rest⟩ := ih (size + 1 - n) (inp.drop n)
        refine ⟨cuts', ?_⟩
        have all : n + (size + 1 - n) = size + 1 := by omega
        have enough : size + 1 - n ≤ (inp.drop n).length ↔ size + 1 ≤ inp.length := by
          rw [List.length_drop]
          omega
        rw [if_neg (by omega), rest]
        simp only [got, enough, ← List.take_add, List.drop_drop, all]

/-- `sizeof(buffer)` of `recvvideo` -/
def bufferLen : Nat := 800000

/-- `char buffer[800000]` -/
structure FrameBuffer where
  bytes : List Byte
  sized : bytes.length = bufferLen

namespace FrameBuffer

/-- `data` received at the start of the buffer. -/
def store (b : FrameBuffer) (data : List Byte) (fits : data.length ≤ bufferLen) : FrameBuffer :=
  ⟨poke b.bytes 0 data, by rw [length_poke (by rwa [b.sized, Nat.zero_add]), b.sized]⟩

theorem store_bytes (b : FrameBuffer) {data : List Byte} (fits : data.length ≤ bufferLen) :
    (b.store data fits).bytes = data ++ b.bytes.drop data.length := poke_zero _ _

/-- `= {0}` -/
def zero : FrameBuffer := ⟨List.replicate bufferLen 0, List.length_replicate⟩

end FrameBuffer

/-- A call of `ReceiveSource`: what the buffer it is given holds of its `dataLen` bytes, and `dataLen`. -/
structure Source where
  bytes : List Byte
  dataLen : Int
  deriving DecidableEq

/-- `recvvideo` on its connection, with the calls of `ReceiveSource` it has made; `mStreamBase` says
whether a callback is registered. -/
structure VideoReceiver where
  inp : List Byte
  cuts : List Nat
  buffer : FrameBuffer
  mStreamBase : Bool
  sources : List Source

namespace VideoReceiver

/-- One round of the loop of `recvvideo`: whether it goes on; `none`, it writes past the buffer. -/
def round (r : VideoReceiver) : Option (Bool × VideoReceiver) :=
  let head := recvEx r.cuts 4 r.inp
  if head.ok then
    let size := asInt (wordAt head.data 0)
    let body := recvEx head.cuts size.toNat head.inp
    if fits : body.data.length ≤ bufferLen then
      -- an error of the body is logged only
      let buffer := r.buffer.store body.data fits
      let source : Source := ⟨buffer.bytes.take size.toNat, size⟩
      some (true, { r with
        inp := body.inp
        cuts := body.cuts
        buffer := buffer
        sources := if r.mStreamBase then r.sources ++ [source] else r.sources })
    else none
  else some (false, { r with inp := head.inp, cuts := head.cuts })

/-- `recvvideo`, with `mRunning` set for so many rounds. -/
def recvvideo : Nat → VideoReceiver → Option VideoReceiver
  | 0, r => some r
  | rounds + 1, r =>
    match r.round with
    | some (true, r) => recvvideo rounds r
    | some (false, r) => some r
    | none => none

end VideoReceiver

/-! ## What `ReceiveSource` is given -/

/-- `recvvideo` at its start, with a callback registered. -/
def start (inp : List Byte) (cuts : List Nat) : VideoReceiver where
  inp := inp
  cuts := cuts
  buffer := .zero
  mStreamBase := true
  sources := []

/-- The call for a frame. -/
def wholeSource (data : List Byte) : Source := ⟨data, data.length⟩

/-- The frames that are received completely when UDT breaks at a position of their stream. -/
def completed : List (List Byte) → Nat → List (List Byte)
  | [], _ => []
  | data :: frames, position =>
    if 4 + data.length ≤ position then data :: completed frames (position - (4 + data.length)) else []

/-- It breaks between the length of a frame and the frame's last byte. -/
def cutsBody : List (List Byte) → Nat → Bool
  | [], _ => false
  | data :: frames, position =>
    if 4 + data.length ≤ position then cutsBody frames (position - (4 + data.length))
    else 4 ≤ position

theorem length_frameBytes (data : List Byte) : (frameBytes data).length = 4 + data.length := by
  rw [frameBytes, List.length_append, length_leBytes]

/-- The length of a frame is read back. -/
theorem size_frameBytes {data : List Byte} (fits : data.length ≤ bufferLen) :
    asInt (wordAt (leBytes 4 data.length) 0) = data.length := by
  have size : bufferLen = 800000 := rfl
  have small : data.length < 256 ^ 4 := by omega
  have length : (leBytes 4 data.length).length = 4 := length_leBytes _ _
  have word : (wordAt (leBytes 4 data.length) 0).toNat = data.length := by
    rw [wordAt, List.drop_zero, List.take_of_length_le (Nat.le_of_eq length), leValue_leBytes,
      Nat.mod_eq_of_lt small, UInt32.toNat_ofNat', Nat.mod_eq_of_lt (by omega)]
  rw [asInt, word, if_pos (by omega)]

namespace VideoReceiver

section
variable {r : VideoReceiver} {data : List Byte}

/-- A round that receives the length of a frame: what there is of the body is stored and handed on. -/
theorem round_length (fits : data.length ≤ bufferLen) (registered : r.mStreamBase = true)
    (long : 4 ≤ r.inp.length) (length : r.inp.take 4 = leBytes 4 data.length) :
    ∃ next, ∃ stored : ((r.inp.drop 4).take data.length).length ≤ bufferLen,
      r.round = some (true, next) ∧ next.inp = (r.inp.drop 4).drop data.length ∧
      next.mStreamBase = true ∧
      next.sources = r.sources ++
        [⟨(r.buffer.store _ stored).bytes.take data.length, data.length⟩] := by
  obtain ⟨cuts, head⟩ := recvEx_eq r.cuts 4 r.inp
  obtain ⟨cuts', body⟩ := recvEx_eq cuts data.length (r.inp.drop 4)
  have stored : ((r.inp.drop 4).take data.length).length ≤ bufferLen :=
    Nat.le_trans (List.length_take_le _ _) fits
  rw [round, head]
  simp only [long, decide_true, if_true, length, size_frameBytes fits, Int.toNat_natCast, body,
    dif_pos stored, registered]
  exact ⟨_, stored, rfl, rfl, rfl, rfl⟩

/-- A round that receives a frame. -/
theorem round_whole {rest : List Byte} (fits : data.length ≤ bufferLen) (registered : r.mStreamBase = true)
    (arrives : r.inp = frameBytes data ++ rest) :
    ∃ next, r.round = some (true, next) ∧ next.inp = rest ∧ next.mStreamBase = true ∧
      next.sources = r.sources ++ [wholeSource data] := by
  have split : r.inp = leBytes 4 data.length ++ (data ++ rest) := by
    rw [arrives, frameBytes, List.append_assoc]
  have head : (leBytes 4 data.length).length = 4 := length_leBytes _ _
  have body : r.inp.drop 4 = data ++ rest := by rw [split, List.drop_left' head]
  have long : 4 ≤ r.inp.length := by
    rw [split, List.length_append, head]
    omega
  obtain ⟨next, stored, ran, left, goesOn, sources⟩ :=
    round_length fits registered long (by rw [split, List.take_left' head])
  refine ⟨next, ran, ?_, goesOn, ?_⟩
  · rw [left, body, List.drop_left]
  · have held : (r.buffer.store _ stored).bytes.take data.length = data := by
      rw [FrameBuffer.store_bytes, body, List.take_left, List.take_left]
    rw [sources, held]
    rfl

/-- A round in which UDT breaks inside the body: the frame is handed on. -/
theorem round_cut (fits : data.length ≤ bufferLen) (registered : r.mStreamBase = true)
    (arrives : r.inp <+: frameBytes data) (long : 4 ≤ r.inp.length) :
    ∃ next source, r.round = some (true, next) ∧ next.inp = [] ∧ next.mStreamBase = true ∧
      next.sources = r.sources ++ [source] := by
  have head : (leBytes 4 data.length).length = 4 := length_leBytes _ _
  have length : r.inp.take 4 = leBytes 4 data.length := by
    rw [List.prefix_iff_eq_take.mp arrives, List.take_take, Nat.min_eq_left long, frameBytes,
      List.take_left' head]
  obtain ⟨next, stored, ran, left, goesOn, sources⟩ := round_length fits registered long length
  have short := arrives.length_le
  rw [length_frameBytes] at short
  refine ⟨next, _, ran, ?_, goesOn, sources⟩
  rw [left, List.drop_drop, List.drop_eq_nil_of_le short]

/-- A round in which it breaks before. -/
theorem round_short (short : r.inp.length < 4) :
    ∃ next, r.round = some (false, next) ∧ next.sources = r.sources := by
  obtain ⟨cuts, head⟩ := recvEx_eq r.cuts 4 r.inp
  rw [round, head]
  simp only [Nat.not_le.mpr short, decide_false, Bool.false_eq_true, if_false]
  exact ⟨_, rfl, rfl⟩

end

/-- **What `recvvideo` hands on**: every frame that is received completely and, if UDT breaks inside the
body of a frame, one call more. -/
theorem recvvideo_frames {frames : List (List Byte)} (fits : ∀ data ∈ frames, data.length ≤ bufferLen)
    {r : VideoReceiver} (registered : r.mStreamBase = true) {position : Nat}
    (arrives : r.inp = (frames.flatMap frameBytes).take position) :
    ∃ ends extra, (∀ rounds, frames.length < rounds → recvvideo rounds r = some ends) ∧
      ends.sources = r.sources ++ (completed frames position).map wholeSource ++ extra ∧
      extra.length = if cutsBody frames position then 1 else 0 := by
  induction frames generalizing r position with
  | nil =>
    have none' : r.inp = [] := by rw [arrives, List.flatMap_nil, List.take_nil]
    obtain ⟨ends, ran, sources⟩ := round_short (r := r) (by rw [none']; decide)
    refine ⟨ends, [], fun rounds enough => ?_, by simp [sources, completed], rfl⟩
    obtain ⟨rounds, rfl⟩ : ∃ n, rounds = n + 1 := ⟨rounds - 1, by omega⟩
    rw [recvvideo, ran]
  | cons data frames ih =>
    have fitsFirst := fits data List.mem_cons_self
    rw [List.flatMap_cons] at arrives
    rw [completed, cutsBody]
    by_cases whole : 4 + data.length ≤ position
    · have front : r.inp =
          frameBytes data ++ (frames.flatMap frameBytes).take (position - (4 + data.length)) := by
        rw [arrives, List.take_append, length_frameBytes,
          List.take_of_length_le (by rwa [length_frameBytes])]
      obtain ⟨next, ran, left, goesOn, sources⟩ := round_whole fitsFirst registered front
      obtain ⟨ends, extra, runs, sources', count⟩ :=
        ih (fun g member => fits g (List.mem_cons_of_mem _ member)) goesOn left
      rw [if_pos whole, if_pos whole]
      refine ⟨ends, extra, fun rounds enough => ?_, ?_, count⟩
      · obtain ⟨rounds, rfl⟩ : ∃ n, rounds = n + 1 := ⟨rounds - 1, by omega⟩
        rw [recvvideo, ran]
        exact runs rounds (Nat.lt_of_succ_lt_succ enough)
      · rw [sources', sources, List.map_cons]
        simp only [List.append_assoc, List.cons_append, List.nil_append]
    · have front : r.inp = (frameBytes data).take position := by
        rw [arrives, List.take_append_of_le_length (by rw [length_frameBytes]; omega)]
      have length : r.inp.length = position := by
        rw [front, List.length_take, length_frameBytes]
        omega
      rw [if_neg whole, if_neg whole]
      by_cases long : 4 ≤ position
      · obtain ⟨next, source, ran, left, goesOn, sources⟩ := round_cut fitsFirst registered
          (by rw [front]; exact List.take_prefix _ _) (by rwa [length])
        obtain ⟨ends, ran', sources'⟩ := round_short (r := next) (by rw [left]; decide)
        refine ⟨ends, [source], fun rounds enough => ?_, ?_, ?_⟩
        · obtain ⟨rounds, rfl⟩ : ∃ n, rounds = n + 2 := ⟨rounds - 2, by
            rw [List.length_cons] at enough
            omega⟩
          simp only [recvvideo, ran, ran']
        · rw [sources', sources, List.map_nil, List.append_nil]
        · simp [long]
      · obtain ⟨ends, ran, sources⟩ := round_short (r := r) (by omega)
        refine ⟨ends, [], fun rounds enough => ?_, ?_, ?_⟩
        · obtain ⟨rounds, rfl⟩ : ∃ n, rounds = n + 1 := ⟨rounds - 1, by omega⟩
          rw [recvvideo, ran]
        · simp [sources]
        · simp [long]

end VideoReceiver

/-- `ReceiveSource` is called for the completely received frames, in their order, each with its own bytes
and length, and for nothing else. -/
def OnlyWhole (frames : List (List Byte)) (position : Nat) (r : VideoReceiver) : Prop :=
  ∃ ends, (∀ rounds, frames.length < rounds → r.recvvideo rounds = some ends) ∧
    ends.sources = (completed frames position).map wholeSource

/-- **When only whole frames reach the callback**: just if UDT does not break inside the body of a
frame. -/
theorem only_whole_iff {frames : List (List Byte)} (fits : ∀ data ∈ frames, data.length ≤ bufferLen)
    {sends : List (Option Nat)} (fine : none ∉ sends) (position : Nat) (cuts : List Nat) :
    OnlyWhole frames position
        (start ((VideoSender.sendAll frames ⟨[], sends⟩).wire.take position) cuts) ↔
      cutsBody frames position = false := by
  have arrives : (start ((VideoSender.sendAll frames ⟨[], sends⟩).wire.take position) cuts).inp =
      (frames.flatMap frameBytes).take position := by
    rw [sendAll_wire fine]
    rfl
  obtain ⟨ends, extra, runs, sources, count⟩ := VideoReceiver.recvvideo_frames fits rfl arrives
  rw [show (start _ cuts).sources = [] from rfl, List.nil_append] at sources
  constructor
  · rintro ⟨ends', runs', only⟩
    have same := (runs _ (Nat.lt_succ_self _)).symm.trans (runs' _ (Nat.lt_succ_self _))
    cases same
    rw [sources, List.append_right_eq_self] at only
    rw [only] at count
    cases cut : cutsBody frames position with
    | false => rfl
    | true =>
      rw [cut] at count
      cases count
  · intro uncut
    rw [uncut] at count
    refine ⟨ends, runs, ?_⟩
    rw [sources, List.eq_nil_of_length_eq_zero count, List.append_nil]

/-- Two frames, and UDT breaks inside the length of the second. -/
def sampleFrames : List (List Byte) := [[0x65, 0x88], [0x41]]

theorem only_whole_iff_sample : OnlyWhole sampleFrames 8
    (start ((VideoSender.sendAll sampleFrames ⟨[], [some 1, some 0]⟩).wire.take 8) [0, 2]) :=
  (only_whole_iff (by decide) (by decide) 8 [0, 2]).mpr rfl

/-- **A frame is handed on that has not been received**: UDT breaks behind its length. -/
theorem cut_frame_handed_on :
    ¬ OnlyWhole [[0x65]] 4 (start ((VideoSender.sendAll [[0x65]] ⟨[], []⟩).wire.take 4) []) := by
  rintro ⟨ends, runs, only⟩
  have arrives : (start ((VideoSender.sendAll [[0x65]] ⟨[], []⟩).wire.take 4) []).inp =
      ([[0x65]].flatMap frameBytes).take 4 := rfl
  obtain ⟨ends', extra, runs', sources, count⟩ :=
    VideoReceiver.recvvideo_frames (by decide) rfl arrives
  have same := (runs _ (Nat.lt_succ_self _)).symm.trans (runs' _ (Nat.lt_succ_self _))
  cases same
  have calls := congrArg List.length (only.symm.trans sources)
  rw [List.length_append, count] at calls
  exact absurd calls (by decide)

end GreatEvent.Udt
