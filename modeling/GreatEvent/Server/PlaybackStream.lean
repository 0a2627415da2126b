import GreatEvent.Lib.Transmission
import GreatEvent.Server.PlaybackPacing

/-!
# What a playback task puts on the wire

Between two callbacks the send buffer is empty or holds the payload of a
packet whose header has gone out (`Resting`). While no send fails for good,
the bytes accepted by the socket are the queued frames in order, short of
what the buffer still holds; a seek breaks this exactly when it comes while
a payload waits. Without seeks the media frames are the demuxer's packets
in order.
-/

namespace GreatEvent

open Lib FrameReader

namespace TagSendBuffer

/-- The empty buffer. -/
def idle : TagSendBuffer := ⟨true, 0, 0, .zero, .zero⟩

/-- The buffer after a media header has gone out. -/
def payloadOf (pkt : AVPacket) : TagSendBuffer := ⟨false, 0, pkt.size, pkt, .zero⟩

/-- The buffer with `n` bytes of header to send and a packet behind them. -/
def loaded (n : Nat) (cmd : CmdBuffer) (pkt : AVPacket) : TagSendBuffer := ⟨true, 0, n, pkt, cmd⟩

/-- The send buffer between two callbacks. -/
def Resting (b : TagSendBuffer) : Prop := b = idle ∨ ∃ pkt, 0 < pkt.size ∧ b = payloadOf pkt

/-- What a resting buffer has still to send. -/
def unsent (b : TagSendBuffer) : List Byte := if b.bSendCmd then [] else b.avpack.payload

theorem Resting.idle_of_free {b : TagSendBuffer} (resting : Resting b) (free : b.totalLen = 0) :
    b = idle := by
  rcases resting with rfl | ⟨pkt, pos, rfl⟩
  · rfl
  · exact absurd free (Nat.ne_of_gt pos)

/-- After a header the buffer turns to the packet behind it, or rests. -/
def afterHeader (pkt : AVPacket) : TagSendBuffer := if 0 < pkt.size then payloadOf pkt else idle

theorem resting_afterHeader (pkt : AVPacket) : Resting (afterHeader pkt) := by
  unfold afterHeader
  split
  · exact .inr ⟨pkt, ‹_›, rfl⟩
  · exact .inl rfl

theorem unsent_afterHeader (pkt : AVPacket) : (afterHeader pkt).unsent = pkt.payload := by
  unfold afterHeader
  split
  · rfl
  · have none : pkt.size = 0 := by omega
    simp [AVPacket.payload, none, idle, unsent]

end TagSendBuffer

namespace TaskPlayback

open TagSendBuffer

section
variable {Q : Int → World TaskPlayback → Prop} {E : Stop → World TaskPlayback → Prop}
  {w : World TaskPlayback}

/-- `tcpSendData` with a header to send. -/
theorem wp_tcpSendData_header {n : Nat} {cmd : CmdBuffer} {pkt : AVPacket}
    (holds : w.obj.mSendBuffer = loaded n cmd pkt) (pos : 0 < n) (fits : n ≤ cmdLen)
    (sent : Q n { w with
      obj := { w.obj with mSendBuffer := afterHeader pkt }
      wire := w.wire ++ cmd.bytes.take n, sends := leftAfter n w.sends })
    (failed : ∀ part, part <+: cmd.bytes.take n → .error ∈ w.sends →
      (cutShort false n w.sends = false → part = []) →
      Q (-1) { w with wire := w.wire ++ part, sends := leftAfter n w.sends })
    (blocks : ∀ part left, part <+: cmd.bytes.take n →
      E .blocked { w with wire := w.wire ++ part, sends := left }) :
    wp tcpSendData Q E w := by
  have data : (cmd.bytes.drop 0).take (n - 0) = cmd.bytes.take n := rfl
  have length : (cmd.bytes.take n).length = n := by
    rw [List.length_take, cmd.bytes_len]
    omega
  simp only [tcpSendData, wp_bind, wp_self, holds, loaded, if_true, data]
  refine wp_sendEx_outcome _ ?_ (fun part front bad whole => ?_) blocks
  · have some : (0 : Int) < n := by omega
    simp only [length, wp_ite, wp_bind, wp_self, wp_modifySend, wp_pure, holds, loaded, if_pos some,
      Nat.zero_add, Int.toNat_natCast, if_true, Bool.true_and, decide_eq_true_eq]
    exact sent
  · rw [length] at whole ⊢
    have post := failed part front bad whole
    have differs : ¬ 0 = n := by omega
    simp only [wp_ite, wp_bind, wp_self, wp_pure, holds, loaded, if_neg differs,
      if_neg (show ¬ (0 : Int) < -1 by decide)]
    exact post

/-- `tcpSendData` with a payload to send. -/
theorem wp_tcpSendData_payload {pkt : AVPacket} (holds : w.obj.mSendBuffer = payloadOf pkt)
    (pos : 0 < pkt.size)
    (sent : Q pkt.size { w with
      obj := { w.obj with mSendBuffer := idle }
      wire := w.wire ++ pkt.payload, sends := leftAfter pkt.size w.sends })
    (failed : ∀ part, part <+: pkt.payload → .error ∈ w.sends →
      (cutShort false pkt.size w.sends = false → part = []) →
      Q (-1) { w with wire := w.wire ++ part, sends := leftAfter pkt.size w.sends })
    (blocks : ∀ part left, part <+: pkt.payload →
      E .blocked { w with wire := w.wire ++ part, sends := left }) :
    wp tcpSendData Q E w := by
  have data : (pkt.payload.drop 0).take (pkt.size - 0) = pkt.payload := by
    rw [List.drop_zero, Nat.sub_zero]
    exact List.take_of_length_le (Nat.le_of_eq pkt.length_payload)
  simp only [tcpSendData, wp_bind, wp_self, holds, payloadOf, Bool.false_eq_true, if_false, data]
  refine wp_sendEx_outcome _ ?_ (fun part front bad whole => ?_) blocks
  · have some : (0 : Int) < pkt.size := by omega
    simp only [AVPacket.length_payload, wp_ite, wp_bind, wp_self, wp_modifySend, wp_pure, holds,
      payloadOf, if_pos some, Nat.zero_add, Int.toNat_natCast, if_true, Bool.false_and,
      Bool.false_eq_true, if_false]
    exact sent
  · rw [pkt.length_payload] at whole ⊢
    have post := failed part front bad whole
    have differs : ¬ 0 = pkt.size := by omega
    simp only [wp_ite, wp_bind, wp_self, wp_pure, holds, payloadOf, if_neg differs,
      if_neg (show ¬ (0 : Int) < -1 by decide)]
    exact post

/-- A send buffer about to be sent from, and all that it stands for. -/
inductive Ready : TagSendBuffer → List Byte → Prop where
  | header {n : Nat} (cmd : CmdBuffer) (pkt : AVPacket) (pos : 0 < n) (fits : n ≤ cmdLen) :
      Ready (loaded n cmd pkt) (cmd.bytes.take n ++ pkt.payload)
  | payload {pkt : AVPacket} (pos : 0 < pkt.size) : Ready (payloadOf pkt) pkt.payload

theorem Ready.busy {b : TagSendBuffer} {unsent : List Byte} (ready : Ready b unsent) :
    b.totalLen ≠ 0 := by
  cases ready with
  | header _ _ pos => exact Nat.ne_of_gt pos
  | payload pos => exact Nat.ne_of_gt pos

/-- The bytes of the frames queued so far. -/
def messages (c : Core TaskPlayback) : List (List Byte) := (queuedIn c.trace).map Frame.bytes

/-- Something is about to be sent. -/
def Busy (c : Core TaskPlayback) : Prop :=
  ∃ unsent, Ready c.obj.mSendBuffer unsent ∧ Transmits c.wire (messages c) unsent

/-- Between two callbacks: what the buffer holds is all of the queued frames that is not out. -/
structure Flowing (c : Core TaskPlayback) : Prop where
  resting : Resting c.obj.mSendBuffer
  wire : Transmits c.wire (messages c) c.obj.mSendBuffer.unsent

/-- At any moment: the queued frames are out up to some rest, and up to none if the buffer is
empty. -/
def Stalled (c : Core TaskPlayback) : Prop :=
  ∃ rest, Transmits c.wire (messages c) rest ∧ (c.obj.mSendBuffer.totalLen = 0 → rest = [])

theorem Flowing.stalled {c : Core TaskPlayback} (flowing : Flowing c) : Stalled c := by
  refine ⟨_, flowing.wire, fun free => ?_⟩
  rw [flowing.resting.idle_of_free free]
  rfl

theorem Flowing.done {c : Core TaskPlayback} (flowing : Flowing c)
    (free : c.obj.mSendBuffer.totalLen = 0) : Transmits c.wire (messages c) [] := by
  have wire := flowing.wire
  rwa [flowing.resting.idle_of_free free] at wire

/-- A resting buffer that is not empty is ready for its payload. -/
theorem Flowing.busy {c : Core TaskPlayback} (flowing : Flowing c)
    (holds : c.obj.mSendBuffer.totalLen ≠ 0) : Busy c := by
  rcases flowing.resting with idle | ⟨pkt, pos, same⟩
  · exact absurd (by rw [idle]; rfl) holds
  · refine ⟨pkt.payload, ?_, ?_⟩
    · rw [same]
      exact .payload pos
    · have wire := flowing.wire
      rwa [same] at wire

/-- **Sending keeps the stream.** -/
theorem wp_tcpSendData_flow (busy : Busy w.core) (fine : .error ∉ w.sends)
    (returns : ∀ ret b wire left, .error ∉ left →
      (w.obj.mSendBuffer.avpack.size = 0 → b = idle) →
      Flowing ⟨{ w.obj with mSendBuffer := b }, w.inp, wire, w.trace⟩ →
      Q ret { w with obj := { w.obj with mSendBuffer := b }, wire := wire, sends := left })
    (blocks : ∀ wire left, Stalled ⟨w.obj, w.inp, wire, w.trace⟩ →
      E .blocked { w with wire := wire, sends := left }) :
    wp tcpSendData Q E w := by
  obtain ⟨unsent, ready, wire⟩ := busy
  have holds := ready.busy
  generalize buffer : w.core.obj.mSendBuffer = b at ready holds
  have stalls : ∀ part left, part <+: unsent →
      E .blocked { w with wire := w.wire ++ part, sends := left } := by
    intro part left front
    obtain ⟨rest, sent⟩ := wire.send_prefix front
    refine blocks _ _ ⟨rest, sent, fun free => absurd ?_ holds⟩
    rw [← buffer]
    exact free
  cases ready with
  | @header n cmd pkt pos fits =>
    refine wp_tcpSendData_header buffer pos fits ?_ (fun _ _ bad => absurd bad fine) ?_
    · have last : w.obj.mSendBuffer.avpack.size = 0 → afterHeader pkt = idle := by
        intro none
        have none : pkt.size = 0 := by
          rw [show w.obj.mSendBuffer = loaded n cmd pkt from buffer] at none
          exact none
        rw [afterHeader, if_neg (by omega)]
      refine returns _ _ _ _ (leftAfter_fine n fine) last ⟨resting_afterHeader pkt, ?_⟩
      show Transmits _ _ (afterHeader pkt).unsent
      rw [unsent_afterHeader]
      exact wire.send
    · intro part left front
      exact stalls part left (front.trans (List.prefix_append _ _))
  | @payload pkt pos =>
    refine wp_tcpSendData_payload buffer pos ?_ (fun _ _ bad => absurd bad fine) ?_
    · exact returns _ _ _ _ (leftAfter_fine pkt.size fine) (fun _ => rfl) ⟨.inl rfl, wire.send_all⟩
    · intro part left front
      exact stalls part left front

/-- A header without payload that the socket takes whole. -/
theorem wp_tcpSendData_whole {unsent : List Byte} {k : Nat} (ready : Ready w.obj.mSendBuffer unsent)
    (command : w.obj.mSendBuffer.bSendCmd = true) (empty : w.obj.mSendBuffer.avpack.size = 0)
    (results : w.sends = [.sent k]) (enough : cmdLen ≤ k)
    (returns : ∀ ret : Int, 0 < ret → Q ret { w with
      obj := { w.obj with mSendBuffer := idle }
      wire := w.wire ++ unsent, sends := [] }) : wp tcpSendData Q E w := by
  generalize holds : w.obj.mSendBuffer = b at ready command empty
  cases ready with
  | payload => cases command
  | @header n cmd pkt pos fits =>
    have none : pkt.payload = [] := List.eq_nil_of_length_eq_zero (pkt.length_payload.trans empty)
    have isIdle : afterHeader pkt = idle := if_neg (Nat.not_lt.mpr (Nat.le_of_eq empty))
    have length : (cmd.bytes.take n).length = n := by
      rw [List.length_take, cmd.bytes_len]
      omega
    have all : (cmd.bytes.take n).drop k = [] := List.drop_eq_nil_of_le (by omega)
    have taken : (cmd.bytes.take n).take k = cmd.bytes.take n := List.take_of_length_le (by omega)
    have data : (cmd.bytes.drop 0).take (n - 0) = cmd.bytes.take n := rfl
    have sent : (0 : Int) < n := by omega
    have ran : EStateM.run (sendEx (cmd.bytes.take n)) w =
        .ok (n : Int) { w with wire := w.wire ++ cmd.bytes.take n, sends := [] } := by
      rw [run_sendEx, results]
      simp only [sendLoop, all, taken, List.length_nil, Nat.lt_irrefl, if_false, length]
      simp
    have post := returns n sent
    rw [none, List.append_nil] at post
    rw [← isIdle] at post
    simp only [tcpSendData, wp_bind, wp_self, holds, loaded, if_true, data]
    refine wp_of_ok ran ?_
    simp only [wp_ite, wp_bind, wp_self, wp_modifySend, wp_pure, holds, loaded, if_pos sent,
      Nat.zero_add, Int.toNat_natCast, if_true, Bool.true_and, decide_eq_true_eq]
    exact post

/-- A queued frame stands at the end of the messages. -/
theorem messages_queued {c : Core TaskPlayback} {trace : List Obs} {f : Frame}
    (logged : c.trace = trace ++ [.queued f]) :
    messages c = (queuedIn trace).map Frame.bytes ++ [f.bytes] := by
  rw [messages, logged, queuedIn_append, List.map_append]
  rfl

/-- A frame in the empty buffer is ready to be sent. -/
theorem busy_of_queued {c d : Core TaskPlayback} {f : Frame} (done : Transmits c.wire (messages c) [])
    (wire : d.wire = c.wire) (logged : d.trace = c.trace ++ [.queued f])
    (ready : Ready d.obj.mSendBuffer f.bytes) : Busy d := by
  refine ⟨f.bytes, ready, ?_⟩
  rw [wire, messages_queued logged]
  exact done.queue f.bytes

/-- A header in a buffer that has sent nothing, in front of no packet. -/
theorem ready_putCmd (sent : w.obj.mSendBuffer.hasSendLen = 0) (empty : w.obj.mSendBuffer.avpack.size = 0)
    (msg : ModuleMsg) (index : UInt32) :
    Ready (loadCmd w msg index).obj.mSendBuffer (Frame.ofCmd msg index).bytes := by
  have fits : (Frame.ofCmd msg index).cmd.bytes.length ≤ cmdLen := by
    rw [NetCmd.length_bytes]
    decide
  have put := CmdBuffer.take_put w.obj.mSendBuffer.cmd fits
  rw [NetCmd.length_bytes] at put
  have ready := Ready.header (n := packHeadLen) (w.obj.mSendBuffer.cmd.put _ fits)
    w.obj.mSendBuffer.avpack (by decide) (by decide)
  have none' : w.obj.mSendBuffer.avpack.payload = [] :=
    List.eq_nil_of_length_eq_zero ((AVPacket.length_payload _).trans empty)
  rw [put, none'] at ready
  simp only [loadCmd, sent]
  exact ready

/-- A media header in a buffer that has sent nothing. -/
theorem ready_putVideo (sent : w.obj.mSendBuffer.hasSendLen = 0) (p : Packet) :
    Ready (loadVideo w p).obj.mSendBuffer (p.frame (staleType w)).bytes := by
  have fits : (p.netCmd.bytes ++ (p.avFrame (staleType w)).bytes).length ≤ cmdLen := by
    rw [List.length_append, NetCmd.length_bytes, AvFrame.length_bytes]
    decide
  have put := CmdBuffer.take_put w.obj.mSendBuffer.cmd fits
  rw [List.length_append, NetCmd.length_bytes, AvFrame.length_bytes] at put
  have ready := Ready.header (n := packHeadLen + AvFrame.size) (w.obj.mSendBuffer.cmd.put _ fits)
    (patchStartCodes p.frameType p.pkt) (by decide) (by decide)
  rw [put, List.append_assoc] at ready
  simp only [loadVideo, sent]
  exact ready

theorem ready_loadCmd (idle' : w.obj.mSendBuffer = idle) (msg : ModuleMsg) (index : UInt32) :
    Ready (loadCmd w msg index).obj.mSendBuffer (Frame.ofCmd msg index).bytes := by
  apply ready_putCmd
  · rw [idle']
    rfl
  · rw [idle']
    rfl

theorem ready_loadVideo (idle' : w.obj.mSendBuffer = idle) (p : Packet) :
    Ready (loadVideo w p).obj.mSendBuffer (p.frame (staleType w)).bytes := by
  apply ready_putVideo
  rw [idle']
  rfl

/-- A write callback keeps the stream. -/
theorem writeBuffer_flows (flowing : Flowing w.core) (fine : .error ∉ w.sends) :
    wp writeBuffer (fun _ t => Flowing t.core) (fun _ t => Stalled t.core) w := by
  -- what is done with a frame put into the empty buffer
  have sends : ∀ {Q' : Int → World TaskPlayback → Prop} (d : World TaskPlayback),
      (∀ ret t, Flowing t.core → Q' ret t) → .error ∉ d.sends → Busy d.core → wp tcpSendData Q' (fun _ t => Stalled t.core) d := by
    intro Q' d post fine busy
    exact wp_tcpSendData_flow busy fine (fun _ _ _ _ _ _ flows => post _ _ flows)
      (fun _ _ stalled => stalled)
  refine wp_writeBuffer ?_ ?_ ?_ ?_ ?_ ?_
  · intro holds
    exact sends w (fun _ _ post => post) fine (flowing.busy holds)
  · intro free val rest _
    refine sends _ (fun _ _ post => post) fine ?_
    exact busy_of_queued (flowing.done free) rfl rfl
      (ready_loadCmd (flowing.resting.idle_of_free free) val 0)
  · intro _ _ _
    exact flowing
  · intro free _ _ _ p _
    refine sends _ (fun _ _ post => post) fine ?_
    exact busy_of_queued (flowing.done free) rfl rfl
      (ready_loadVideo (w := takePacket w) (flowing.resting.idle_of_free free) p)
  · intro free _ _ _ _
    refine sends _ (fun _ _ post => post) fine ?_
    exact busy_of_queued (flowing.done free) rfl rfl
      (ready_loadCmd (flowing.resting.idle_of_free free) .dataEnd 0)
  · intro free _ _ _
    refine sends _ (fun _ _ post => post) fine ?_
    exact busy_of_queued (flowing.done free) rfl rfl
      (ready_loadCmd (flowing.resting.idle_of_free free) .sectionEnd 0)

/-- If a seek has been logged since `c`, the send buffer was empty at `c`. -/
def SeekFindsFree (c : Core TaskPlayback) (trace : List Obs) : Prop :=
  (∃ o ∈ trace.drop c.trace.length, o.isSeek = true) → c.obj.mSendBuffer.totalLen = 0

instance (c : Core TaskPlayback) (trace : List Obs) : Decidable (SeekFindsFree c trace) :=
  inferInstanceAs (Decidable (_ → _))

/-- A seek in the empty buffer keeps the stream. -/
theorem seek_flows (flowing : Flowing w.core) (fine : .error ∉ w.sends)
    (free : w.obj.mSendBuffer.totalLen = 0) (v : Int) (index : UInt32) :
    wp tcpSendData (fun rest w' => wp tcpSendData
        (fun _ w'' => Flowing (seekDone w'' rest).core)
        (fun _ t => Stalled t.core) (loadCmd w' .exeRet index))
      (fun _ t => Stalled t.core) (loadCmd (seeking w v) .seekCmpd index) := by
  have idle' : w.obj.mSendBuffer = idle := flowing.resting.idle_of_free free
  have emptied : (seeking w v).obj.mSendBuffer = idle := by
    show w.obj.mSendBuffer.reset = idle
    rw [idle']
    rfl
  have done : Transmits (seeking w v).core.wire (messages (seeking w v).core) [] := by
    have same : messages (seeking w v).core = messages w.core := by
      simp [messages, seeking, World.core, queuedIn, Obs.queued?]
    rw [same]
    exact flowing.done free
  have none : (loadCmd (seeking w v) .seekCmpd index).obj.mSendBuffer.avpack.size = 0 := by
    show (seeking w v).obj.mSendBuffer.avpack.size = 0
    rw [emptied]
    rfl
  refine wp_tcpSendData_flow (busy_of_queued done rfl rfl (ready_loadCmd emptied .seekCmpd index)) fine
    (fun rest b wire left fineLeft last flows => ?_) (fun _ _ stalled => stalled)
  obtain rfl := last none
  refine wp_tcpSendData_flow ?_ fineLeft (fun _ _ _ _ _ _ flows => ⟨flows.resting, flows.wire⟩)
    (fun _ _ stalled => stalled)
  exact busy_of_queued (flows.done rfl) rfl rfl (ready_loadCmd rfl .exeRet index)

/-- Observations that queue nothing leave the messages alone. -/
theorem messages_logged (obj : TaskPlayback) (inp wire : List Byte) (trace : List Obs)
    {obs : List Obs} (silent : queuedIn obs = []) :
    messages ⟨obj, inp, wire, trace ++ obs⟩ = messages ⟨obj, inp, wire, trace⟩ := by
  rw [messages, messages, queuedIn_append, silent, List.append_nil]

theorem Flowing.logged {c : Core TaskPlayback} (flowing : Flowing c) (obj : TaskPlayback)
    (inp : List Byte) {obs : List Obs} (silent : queuedIn obs = [])
    (buffer : obj.mSendBuffer = c.obj.mSendBuffer) : Flowing ⟨obj, inp, c.wire, c.trace ++ obs⟩ := by
  refine ⟨by rw [buffer]; exact flowing.resting, ?_⟩
  rw [messages_logged _ _ _ _ silent, buffer]
  exact flowing.wire

/-- A frame from the client keeps the stream, if it is no seek into a waiting payload. -/
theorem dispatch_flows (flowing : Flowing w.core) (fine : .error ∉ w.sends) :
    wp dispatch (fun r t => r = none ∧ (SeekFindsFree w.core t.trace → Flowing t.core))
      (fun _ t => SeekFindsFree w.core t.trace → Stalled t.core) w := by
  have commanded : ∀ (c : Control) (obj : TaskPlayback),
      obj.mSendBuffer = w.obj.mSendBuffer →
      Flowing ⟨obj, w.inp, w.wire, w.trace ++ [.command c]⟩ :=
    fun c obj buffer => flowing.logged obj w.inp rfl buffer
  refine wp_dispatch ⟨rfl, fun _ => flowing⟩ (fun _ => flowing.stalled)
    (fun _ => (commanded .start _ rfl).stalled) ?_ ?_
    ⟨rfl, fun _ => commanded (.setpause 0) _ rfl⟩ ?_
  · rintro _ (rfl | rfl) <;> exact ⟨rfl, fun _ => commanded .start _ rfl⟩
  · intro v _
    exact ⟨rfl, fun _ => commanded (.setpause v) _ rfl⟩
  · intro v _
    by_cases free : w.obj.mSendBuffer.totalLen = 0
    · refine (seek_flows flowing fine free v _).mono (fun rest t sent => ?_)
        (fun _ _ stalled _ => stalled)
      exact sent.mono (fun _ _ post => ⟨rfl, fun _ => post⟩) (fun _ _ stalled _ => stalled)
    · -- whatever happens from here on, the trace has a seek in it
      have excluded : ∀ (t : World TaskPlayback) (obs : List Obs),
          t.trace = w.trace ++ .command (.seek v) :: obs → ¬ SeekFindsFree w.core t.trace := by
        intro t obs logged found
        refine free (found ⟨.command (.seek v), ?_, rfl⟩)
        rw [logged, World.core, List.drop_left]
        exact List.mem_cons_self
      apply wp_seek_logged
      · exact fun _ _ t obs logged => ⟨rfl, fun found => absurd found (excluded t obs logged)⟩
      · exact fun t obs logged found => absurd found (excluded t obs logged)

/-- The methods of a playback task keep the stream. -/
theorem method_flows (e : Event) (flowing : Flowing w.core) (fine : .error ∉ w.sends) :
    wp (e.method : Act TaskPlayback Int) (fun _ t => SeekFindsFree w.core t.trace → Flowing t.core)
      (fun _ t => SeekFindsFree w.core t.trace → Stalled t.core) w := by
  cases e with
  | read recvs sends =>
    have read : ∀ b rest recvs' obs, AllReading obs →
        Flowing (w.read b rest recvs' obs).core := fun b rest recvs' obs reading =>
      flowing.logged _ rest (queuedIn_reading reading) rfl
    refine wp_readBuffer ?_ ?_ ?_
    · intro ret b rest recvs' obs _ reading
      exact fun _ => read b rest recvs' obs reading
    · intro b rest recvs' obs _ reading _
      exact (read b rest recvs' obs reading).stalled
    · intro b rest recvs' obs _ reading
      have earlier : ∀ t : World TaskPlayback, SeekFindsFree w.core t.trace →
          SeekFindsFree (w.read b rest recvs' obs).core t.trace := by
        rintro t found ⟨o, member, isSeek⟩
        refine found ⟨o, ?_, isSeek⟩
        have longer : t.trace.drop (w.trace ++ obs).length = (t.trace.drop w.trace.length).drop obs.length := by
          rw [List.drop_drop, List.length_append]
        exact List.mem_of_mem_drop (longer ▸ member)
      refine (dispatch_flows (w := w.read b rest recvs' obs) (read b rest recvs' obs reading)
        fine).mono ?_ ?_
      · rintro _ t ⟨rfl, flows⟩ ret _ found
        have flows := flows (earlier t found)
        exact ⟨flows.resting, flows.wire⟩
      · intro _ t stalled found
        exact stalled (earlier t found)
  | write sends =>
    exact (writeBuffer_flows flowing fine).mono (fun _ _ post _ => post) (fun _ _ stalled _ => stalled)
  | timer =>
    simp only [Event.method, Callbacks.setHeartBeat, setHeartCount, wp_bind, wp_modifySelf, wp_get,
      wp_ite, wp_addWriteEvent, wp_self, wp_pure]
    split
    · split <;> exact fun _ => ⟨flowing.resting, flowing.wire⟩
    · exact fun _ => ⟨flowing.resting, flowing.wire⟩
  | readTimeout => exact fun _ => flowing
  | writeTimeout => exact fun _ => flowing

end

/-- The state of a run: between callbacks, or stopped inside one. -/
def Streams (w : World TaskPlayback) : Prop :=
  Flowing w.core ∨ (w.Halted ∧ Stalled w.core)

theorem Streams.stalled {w : World TaskPlayback} (streams : Streams w) : Stalled w.core :=
  streams.elim Flowing.stalled And.right

/-- A session that takes another turn is between callbacks. -/
theorem Streams.flowing {w w' : World TaskPlayback} {e : Event} (streams : Streams w)
    (fired : fire w e = some w') : Flowing w.core := by
  rcases streams with flowing | ⟨halted, -⟩
  · exact flowing
  · simp [fire, World.Live, show w.halted ≠ none from halted] at fired

/-- A turn of the event loop keeps the stream while sends do not fail and a seek finds the buffer
empty; if a callback stops inside, the stream stands where it is. -/
theorem fire_flows {w w' : World TaskPlayback} {e : Event} (fired : fire w e = some w')
    (flowing : Flowing w.core) (fine : e.NoFatal) (free : SeekFindsFree w.core w'.trace) :
    Streams w' := by
  have both := fire_rule fired (Q := fun c => SeekFindsFree w.core c.trace → Flowing c)
    (H := fun c => SeekFindsFree w.core c.trace → Stalled c) ?_ ?_
  · exact both.imp (fun flows => flows free) (fun h => ⟨h.1, h.2 free⟩)
  · intro c by' flows found
    refine (flows fun ⟨o, member, isSeek⟩ => found ⟨o, ?_, isSeek⟩).logged c.obj c.inp rfl rfl
    rw [List.drop_append]
    exact List.mem_append_left _ member
  · intro d same _ sends _
    rw [← same]
    exact method_flows e (same ▸ flowing) (sends ▸ fine)

/-- The constructor's buffer is ready to send the login reply. -/
theorem ready_login (raw : TagSendBuffer) (mFfmpeg : FfmpegContext)
    (fits : (loginRetFrame mFfmpeg.info).bytes.length ≤ cmdLen) :
    Ready { (init raw mFfmpeg).mSendBuffer with
      cmd := (init raw mFfmpeg).mSendBuffer.cmd.put (loginRetFrame mFfmpeg.info).bytes fits
      totalLen := packHeadLen + loginRetSize
      bSendCmd := true } (loginRetFrame mFfmpeg.info).bytes := by
  have sent := CmdBuffer.take_put (init raw mFfmpeg).mSendBuffer.cmd fits
  rw [length_loginRetFrame] at sent
  have ready := Ready.header (n := packHeadLen + loginRetSize)
    ((init raw mFfmpeg).mSendBuffer.cmd.put _ fits) .zero (by decide) (by decide)
  have none : AVPacket.zero.payload = [] := rfl
  rw [sent, none, List.append_nil] at ready
  exact ready

/-- A new task's login reply is on its way. -/
theorem flows_start (raw : TagSendBuffer) (mFfmpeg : FfmpegContext) (inp : List Byte)
    {sends : List SendResult} (fine : .error ∉ sends) : Streams (start raw mFfmpeg inp sends) := by
  refine after_of_wp ?_
  simp only [construct, wp_bind, wp_self, wp_modifySend, wp_emit]
  refine wp_tcpSendData_flow ?_ fine (fun _ _ _ _ _ _ flows => .inl flows)
    (fun _ _ stalled => .inr ⟨Option.some_ne_none _, stalled⟩)
  exact busy_of_queued (c := ⟨init raw mFfmpeg, inp, [], []⟩) .nil rfl rfl (ready_login raw mFfmpeg _)

/-- The steps of a run in which no send fails for good and no seek comes while a payload waits. -/
def SeeksBetweenFrames (w : World TaskPlayback) (e : Event) (w' : World TaskPlayback) : Prop :=
  e.NoFatal ∧ SeekFindsFree w.core w'.trace

instance (w : World TaskPlayback) (e : Event) (w' : World TaskPlayback) :
    Decidable (SeeksBetweenFrames w e w') := inferInstanceAs (Decidable (_ ∧ _))

theorem streams_run {raw : TagSendBuffer} {mFfmpeg : FfmpegContext} {inp : List Byte}
    {sends : List SendResult} {es : List Event} {w : World TaskPlayback} (fine : .error ∉ sends)
    (run : Runs fire SeeksBetweenFrames (start raw mFfmpeg inp sends) es w) : Streams w :=
  run.invariant (flows_start raw mFfmpeg inp fine) fun _ _ _ before fired allowed =>
    fire_flows fired (before.flowing fired) allowed.1 allowed.2

/-- **Frame alignment.** In every run without fatal send errors in which a seek is processed only
while the send buffer is empty, whenever the buffer is empty the bytes on the wire are whole
frames. -/
theorem output_aligned {raw : TagSendBuffer} {mFfmpeg : FfmpegContext} {inp : List Byte}
    {sends : List SendResult} {es : List Event} {w : World TaskPlayback} (fine : .error ∉ sends)
    (run : Runs fire SeeksBetweenFrames (start raw mFfmpeg inp sends) es w)
    (free : w.obj.mSendBuffer.totalLen = 0) :
    ∃ fs, fs = queuedIn w.trace ∧ w.wire = Frame.stream fs := by
  obtain ⟨rest, sent, none⟩ := (streams_run fine run).stalled
  obtain rfl := none free
  exact ⟨_, rfl, sent.wire_eq⟩

def seekBytes : List Byte := controlBytes "<control name=\"seek\" value=\"4000\" />"

theorem output_aligned_sample : ∃ w, Runs fire SeeksBetweenFrames
    (start sampleRaw sampleFfmpeg (startBytes ++ seekBytes) [.sent 2000])
    [readWhole, writeSplit, writeSplit, readWhole, .timer, writeSplit] w ∧
    ∃ fs, fs = queuedIn w.trace ∧ w.wire = Frame.stream fs := by
  have finished : (exec fire SeeksBetweenFrames
      (start sampleRaw sampleFfmpeg (startBytes ++ seekBytes) [.sent 2000])
      [readWhole, writeSplit, writeSplit, readWhole, .timer, writeSplit]).map
      (fun w => w.obj.mSendBuffer.totalLen) = some 0 := by
    decide +kernel
  obtain ⟨w, ran, free⟩ := Option.map_eq_some_iff.mp finished
  exact ⟨w, .of_exec ran, output_aligned (by decide) (.of_exec ran) free⟩

/-- A seek that arrives after the header of a 33-byte packet: its replies take the place of the
payload, and the stream ends inside the announced frame although nothing is left to send. -/
theorem output_broken_by_seek : ∃ w, Runs fire (fun w e _ => w.Registered e ∧ e.NoFatal)
    (start sampleRaw sampleFfmpeg (startBytes ++ seekBytes) [.sent 2000])
    [readWhole, writeSplit, readWhole] w ∧
    w.obj.mSendBuffer.totalLen = 0 ∧ ¬ ∃ fs, w.wire = Frame.stream fs := by
  have finished : (exec fire (fun w e _ => w.Registered e ∧ e.NoFatal)
      (start sampleRaw sampleFfmpeg (startBytes ++ seekBytes) [.sent 2000])
      [readWhole, writeSplit, readWhole]).map
      (fun w => (w.obj.mSendBuffer.totalLen, w.wire.take 1048,
        (w.wire.drop 1048).length, (NetCmd.ofBytes (w.wire.drop 1048)).dwLength.toNat)) =
      some (0, (loginRetFrame sampleFfmpeg.info).bytes, 64, 49) := by
    decide +kernel
  obtain ⟨w, ran, facts⟩ := Option.map_eq_some_iff.mp finished
  obtain ⟨free, login, length, announced⟩ : w.obj.mSendBuffer.totalLen = 0 ∧
      w.wire.take 1048 = (loginRetFrame sampleFfmpeg.info).bytes ∧ (w.wire.drop 1048).length = 64 ∧
      (NetCmd.ofBytes (w.wire.drop 1048)).dwLength.toNat = 49 := by
    simpa only [Prod.mk.injEq] using facts
  refine ⟨w, .of_exec ran, free, fun ⟨fs, whole⟩ => ?_⟩
  have open' : netFraming.Unfinished (w.wire.drop 1048) := by
    right
    show _ < packHeadLen + (NetCmd.ofBytes ((w.wire.drop 1048).take packHeadLen)).dwLength.toNat
    rw [NetCmd.ofBytes_take (Nat.le_refl _), announced, length]
    decide
  have nonempty : w.wire.drop 1048 ≠ [] := fun none => by
    rw [none] at length
    cases length
  refine (loginRetFrame sampleFfmpeg.info).whole.not_flatten open' nonempty
    (fun g (member : g ∈ fs.map Frame.bytes) => Frame.whole_of_mem member) ?_
  rw [← login, List.take_append_drop]
  exact whole

/-! ## Media -/

/-- A frame with `MODULE_MSG_VIDEO` in its header. -/
def isVideo (f : Frame) : Bool := f.cmd.dwCmd == ModuleMsg.video.code

/-- The messages whose frames may stand between the media frames. -/
def betweenMedia : List ModuleMsg := [.loginRet, .ping, .sectionEnd, .dataEnd]

/-- Without a seek, the queued media frames are the packets taken from the demuxer, in order, and the
packets not taken are still to come. -/
structure Carries (packets : List Packet) (c : Core TaskPlayback) : Prop where
  media : ∃ taken, packets = taken ++ c.obj.mFfmpeg.results.filterMap id ∧
    (queuedIn c.trace).filter isVideo = taken.map fun p => p.frame 0
  others : ∀ f ∈ queuedIn c.trace, isVideo f = true ∨ ∃ m ∈ betweenMedia, f.cmd.dwCmd = m.code
  waiting : ∀ m ∈ c.obj.mMsgQueue, m = .ping

section
variable {packets : List Packet} {c : Core TaskPlayback} {obj : TaskPlayback} {inp wire : List Byte}

theorem Carries.logged (carries : Carries packets c) {obs : List Obs} (silent : queuedIn obs = [])
    (results : obj.mFfmpeg.results = c.obj.mFfmpeg.results)
    (waiting : ∀ m ∈ obj.mMsgQueue, m = .ping) : Carries packets ⟨obj, inp, wire, c.trace ++ obs⟩ := by
  have same : queuedIn (c.trace ++ obs) = queuedIn c.trace := by
    rw [queuedIn_append, silent, List.append_nil]
  refine ⟨?_, ?_, waiting⟩
  · rw [results, same]
    exact carries.media
  · rw [same]
    exact carries.others

/-- A frame that is no media. -/
theorem Carries.other (carries : Carries packets c) {f : Frame} {m : ModuleMsg}
    (between : m ∈ betweenMedia) (code : f.cmd.dwCmd = m.code)
    (results : obj.mFfmpeg.results.filterMap id = c.obj.mFfmpeg.results.filterMap id)
    (waiting : ∀ m ∈ obj.mMsgQueue, m = .ping) :
    Carries packets ⟨obj, inp, wire, c.trace ++ [.queued f]⟩ := by
  have noMedia : isVideo f = false := by
    have differ : ∀ m ∈ betweenMedia, (m.code == ModuleMsg.video.code) = false := by decide
    rw [isVideo, code]
    exact differ m between
  have more : queuedIn (c.trace ++ [.queued f]) = queuedIn c.trace ++ [f] := queuedIn_append ..
  obtain ⟨taken, all, videos⟩ := carries.media
  refine ⟨⟨taken, by rw [results]; exact all, ?_⟩, ?_, waiting⟩
  · rw [more, List.filter_append, videos, List.filter_cons_of_neg (by rw [noMedia]; exact Bool.false_ne_true)]
    simp
  · rw [more]
    intro g member
    rcases List.mem_append.mp member with old | new
    · exact carries.others g old
    · rw [List.mem_singleton.mp new]
      exact .inr ⟨m, between, code⟩

/-- The frame of the next packet. -/
theorem Carries.next (carries : Carries packets c) {p : Packet}
    (next : c.obj.mFfmpeg.results.headD none = some p)
    (results : obj.mFfmpeg.results = c.obj.mFfmpeg.results.tail)
    (waiting : ∀ m ∈ obj.mMsgQueue, m = .ping) :
    Carries packets ⟨obj, inp, wire, c.trace ++ [.queued (p.frame 0)]⟩ := by
  have more : queuedIn (c.trace ++ [.queued (p.frame 0)]) = queuedIn c.trace ++ [p.frame 0] :=
    queuedIn_append ..
  have split : c.obj.mFfmpeg.results.filterMap id = p :: obj.mFfmpeg.results.filterMap id := by
    rw [results]
    cases come : c.obj.mFfmpeg.results with
    | nil => rw [come] at next; cases next
    | cons r rest =>
      rw [come] at next
      obtain rfl : r = some p := next
      rfl
  obtain ⟨taken, all, videos⟩ := carries.media
  refine ⟨⟨taken ++ [p], ?_, ?_⟩, ?_, waiting⟩
  · rw [all, split, List.append_assoc]
    rfl
  · rw [more, List.filter_append, videos, List.map_append]
    rfl
  · rw [more]
    intro g member
    rcases List.mem_append.mp member with old | new
    · exact carries.others g old
    · rw [List.mem_singleton.mp new]
      exact .inl rfl

end

/-- Nothing sought. -/
def NoSeek (trace : List Obs) : Prop := ∀ o ∈ trace, o.isSeek = false

instance (trace : List Obs) : Decidable (NoSeek trace) := inferInstanceAs (Decidable (∀ _ ∈ _, _))

section
variable {Q : Int → World TaskPlayback → Prop} {E : Stop → World TaskPlayback → Prop}
  {w : World TaskPlayback} {packets : List Packet}

/-- An empty send buffer leaves `dwFrameType` zero. -/
theorem staleType_idle (idle' : w.obj.mSendBuffer = idle) : staleType w = 0 := by
  rw [staleType, idle']
  decide

theorem writeBuffer_carries (carries : Carries packets w.core)
    (resting : Resting w.obj.mSendBuffer) :
    wp writeBuffer (fun _ t => Carries packets t.core) (fun _ t => Carries packets t.core) w := by
  -- sending does not touch what `Carries` is about
  have sends : ∀ {Q' : Int → World TaskPlayback → Prop} (d : World TaskPlayback),
      (∀ ret t, Carries packets t.core → Q' ret t) →
      (∀ obj wire, obj.mFfmpeg = d.obj.mFfmpeg → obj.mMsgQueue = d.obj.mMsgQueue →
        Carries packets ⟨obj, d.inp, wire, d.trace⟩) →
      wp tcpSendData Q' (fun _ t => Carries packets t.core) d := by
    intro Q' d post holds
    exact wp_tcpSendData_frame (fun _ _ _ _ => post _ _ (holds _ _ rfl rfl))
      (fun _ _ => holds _ _ rfl rfl)
  have waiting := carries.waiting
  refine wp_writeBuffer ?_ ?_ ?_ ?_ ?_ ?_
  · intro _
    refine sends w (fun _ _ post => post) fun obj wire results queue => ?_
    have same : Carries packets ⟨obj, w.inp, wire, w.trace ++ []⟩ :=
      carries.logged rfl (by rw [results]; rfl) (queue ▸ waiting)
    rwa [List.append_nil] at same
  · intro _ val rest waits
    obtain rfl := waiting val (waits ▸ List.mem_cons_self)
    refine sends _ (fun _ _ post => post) fun obj wire results queue => ?_
    refine carries.other (m := .ping) (by decide) rfl (by rw [results]; rfl) ?_
    rw [queue]
    exact fun m member => waiting m (waits ▸ List.mem_cons_of_mem _ member)
  · intro _ _ _
    exact carries
  · intro free _ _ _ p next
    refine sends _ (fun _ _ post => post) fun obj wire results queue => ?_
    have frame : p.frame (staleType (takePacket w)) = p.frame 0 := by
      rw [staleType_idle (w := takePacket w) (resting.idle_of_free free)]
    have carried : Carries packets ⟨obj, w.inp, wire, w.trace ++ [.queued (p.frame 0)]⟩ :=
      carries.next next (by rw [results]; rfl) (queue ▸ waiting)
    rw [← frame] at carried
    exact carried
  · intro _ _ _ _ ended
    refine sends _ (fun _ _ post => post) fun obj wire results queue => ?_
    refine carries.other (m := .dataEnd) (by decide) rfl ?_ (queue ▸ waiting)
    rw [results]
    show w.obj.mFfmpeg.results.tail.filterMap id = w.obj.mFfmpeg.results.filterMap id
    cases come : w.obj.mFfmpeg.results with
    | nil => rfl
    | cons r rest =>
      rw [come] at ended
      obtain rfl : r = none := ended
      rfl
  · intro _ _ _ _
    refine sends _ (fun _ _ post => post) fun obj wire results queue => ?_
    exact carries.other (m := .sectionEnd) (by decide) rfl (by rw [results]; rfl) (queue ▸ waiting)

theorem dispatch_carries (carries : Carries packets w.core) :
    wp dispatch (fun r t => r = none ∧ (NoSeek t.trace → Carries packets t.core))
      (fun _ t => NoSeek t.trace → Carries packets t.core) w := by
  have commanded : ∀ (c : Control) (obj : TaskPlayback), obj.mFfmpeg = w.obj.mFfmpeg →
      obj.mMsgQueue = w.obj.mMsgQueue → Carries packets ⟨obj, w.inp, w.wire, w.trace ++ [.command c]⟩ :=
    fun c obj results queue => carries.logged rfl (by rw [results]; rfl) (queue ▸ carries.waiting)
  refine wp_dispatch ⟨rfl, fun _ => carries⟩ (fun _ => carries)
    (fun _ => commanded .start _ rfl rfl) ?_ ?_
    ⟨rfl, fun _ => commanded (.setpause 0) _ rfl rfl⟩ ?_
  · rintro _ (rfl | rfl) <;> exact ⟨rfl, fun _ => commanded .start _ rfl rfl⟩
  · intro v _
    exact ⟨rfl, fun _ => commanded (.setpause v) _ rfl rfl⟩
  · intro v _
    have excluded : ∀ (t : World TaskPlayback) (obs : List Obs),
        t.trace = w.trace ++ .command (.seek v) :: obs → ¬ NoSeek t.trace := by
      intro t obs logged noSeek
      rw [logged] at noSeek
      cases noSeek (.command (.seek v)) (List.mem_append_right _ List.mem_cons_self)
    apply wp_seek_logged
    · exact fun _ _ t obs logged => ⟨rfl, fun noSeek => absurd noSeek (excluded t obs logged)⟩
    · exact fun t obs logged noSeek => absurd noSeek (excluded t obs logged)

theorem method_carries (e : Event) (carries : Carries packets w.core)
    (resting : Resting w.obj.mSendBuffer) :
    wp (e.method : Act TaskPlayback Int) (fun _ t => NoSeek t.trace → Carries packets t.core)
      (fun _ t => NoSeek t.trace → Carries packets t.core) w := by
  cases e with
  | read recvs sends =>
    have read : ∀ b rest recvs' obs, AllReading obs → Carries packets (w.read b rest recvs' obs).core :=
      fun b rest recvs' obs reading => carries.logged (queuedIn_reading reading) rfl carries.waiting
    refine wp_readBuffer ?_ ?_ ?_
    · intro ret b rest recvs' obs _ reading
      exact fun _ => read b rest recvs' obs reading
    · intro b rest recvs' obs _ reading _
      exact read b rest recvs' obs reading
    · intro b rest recvs' obs _ reading
      refine (dispatch_carries (read b rest recvs' obs reading)).mono ?_ (fun _ _ post => post)
      rintro _ t ⟨rfl, carried⟩ ret _ noSeek
      exact ⟨(carried noSeek).media, (carried noSeek).others, (carried noSeek).waiting⟩
  | write sends =>
    exact (writeBuffer_carries carries resting).mono (fun _ _ carried _ => carried)
      (fun _ _ carried _ => carried)
  | timer =>
    have beat : ∀ m ∈ w.obj.mMsgQueue ++ [.ping], m = .ping := by
      intro m member
      rcases List.mem_append.mp member with old | new
      · exact carries.waiting m old
      · exact List.mem_singleton.mp new
    simp only [Event.method, Callbacks.setHeartBeat, setHeartCount, wp_bind, wp_modifySelf, wp_get,
      wp_ite, wp_addWriteEvent, wp_self, wp_pure]
    split
    · split <;> exact fun _ => ⟨carries.media, carries.others, beat⟩
    · exact fun _ => ⟨carries.media, carries.others, beat⟩
  | readTimeout => exact fun _ => carries
  | writeTimeout => exact fun _ => carries

end

theorem fire_carries {packets : List Packet} {w w' : World TaskPlayback} {e : Event}
    (fired : fire w e = some w') (carries : Carries packets w.core)
    (resting : Resting w.obj.mSendBuffer) (noSeek : NoSeek w'.trace) : Carries packets w'.core := by
  refine fire_keeps fired (P := fun c => NoSeek c.trace → Carries packets c) ?_ ?_ noSeek
  · intro c by' carried noSeek
    have carried := carried fun o member => noSeek o (List.mem_append_left _ member)
    exact carried.logged rfl rfl carried.waiting
  · intro d same _ _ _
    have resting' : Resting d.obj.mSendBuffer := by
      rw [show d.obj = w.obj from congrArg Core.obj same]
      exact resting
    exact method_carries e (same ▸ carries) resting'

theorem carries_start (raw : TagSendBuffer) (mFfmpeg : FfmpegContext) (inp : List Byte)
    (sends : List SendResult) :
    Carries (mFfmpeg.results.filterMap id) (start raw mFfmpeg inp sends).core := by
  have login : ∀ (obj : TaskPlayback) (wire : List Byte), obj.mFfmpeg = mFfmpeg →
      obj.mMsgQueue = [] → Carries (mFfmpeg.results.filterMap id)
        ⟨obj, inp, wire, [] ++ [.queued (loginRetFrame mFfmpeg.info)]⟩ := by
    intro obj wire same empty
    have new : Carries (mFfmpeg.results.filterMap id) ⟨obj, inp, [], []⟩ :=
      ⟨⟨[], by rw [same]; rfl, rfl⟩, nofun, by rw [empty]; exact nofun⟩
    exact new.other (m := .loginRet) (by decide) rfl rfl new.waiting
  refine after_of_wp (P := fun t => Carries (mFfmpeg.results.filterMap id) t.core) ?_
  exact wp_construct (fun _ _ _ => login _ _ rfl rfl) (fun _ _ _ => login _ _ rfl rfl)

/-- The steps of a run without fatal send errors and without seeks. -/
def NoSeeks (_ : World TaskPlayback) (e : Event) (w' : World TaskPlayback) : Prop :=
  e.NoFatal ∧ NoSeek w'.trace

instance (w : World TaskPlayback) (e : Event) (w' : World TaskPlayback) : Decidable (NoSeeks w e w') :=
  inferInstanceAs (Decidable (_ ∧ _))

theorem NoSeeks.between {a b : World TaskPlayback} {e : Event} (allowed : NoSeeks a e b) :
    SeeksBetweenFrames a e b := by
  refine ⟨allowed.1, fun ⟨o, member, isSeek⟩ => ?_⟩
  rw [allowed.2 o (List.mem_of_mem_drop member)] at isSeek
  cases isSeek

theorem carries_run {raw : TagSendBuffer} {mFfmpeg : FfmpegContext} {inp : List Byte}
    {sends : List SendResult} {es : List Event} {w : World TaskPlayback} (fine : .error ∉ sends)
    (run : Runs fire NoSeeks (start raw mFfmpeg inp sends) es w) :
    Carries (mFfmpeg.results.filterMap id) w.core := by
  induction run with
  | nil => exact carries_start raw mFfmpeg inp sends
  | @snoc es a e b run fired allowed ih =>
    have streams := streams_run fine (run.weaken fun _ _ _ => NoSeeks.between)
    exact fire_carries fired ih (streams.flowing fired).resting allowed.2

/-- The wire is a stream of frames of which only the last may be incomplete, and none while the send
buffer is empty. Its media frames are those of the first packets in order, each announcing and
carrying the whole patched payload; the others are the login reply, heartbeats and the ends of
segments and of the file. -/
def InOrder (packets : List Packet) (w : World TaskPlayback) : Prop :=
  ∃ fs taken left, packets = taken ++ left ∧
    w.wire <+: Frame.stream fs ∧ Frame.stream fs.dropLast <+: w.wire ∧
    (w.obj.mSendBuffer.totalLen = 0 → w.wire = Frame.stream fs) ∧
    fs.filter isVideo = taken.map (fun p => p.frame 0) ∧
    (∀ p ∈ taken, (p.frame 0).cmd.dwLength.toNat = p.pkt.size + AvFrame.size ∧
      (p.avFrame 0).nLength.toNat = p.pkt.size ∧
      (p.frame 0).body = (p.avFrame 0).bytes ++ (patchStartCodes p.frameType p.pkt).payload) ∧
    ∀ f ∈ fs, isVideo f = true ∨ ∃ m ∈ betweenMedia, f.cmd.dwCmd = m.code

/-- **No media is lost, duplicated or reordered** in any run without fatal send errors and without
seeks. -/
theorem media_in_order {raw : TagSendBuffer} {mFfmpeg : FfmpegContext} {inp : List Byte}
    {sends : List SendResult} {es : List Event} {w : World TaskPlayback} (fine : .error ∉ sends)
    (run : Runs fire NoSeeks (start raw mFfmpeg inp sends) es w) :
    InOrder (mFfmpeg.results.filterMap id) w := by
  obtain ⟨rest, sent, done⟩ := (streams_run fine (run.weaken fun _ _ _ => NoSeeks.between)).stalled
  have carries := carries_run fine run
  obtain ⟨taken, all, videos⟩ := carries.media
  refine ⟨queuedIn w.trace, taken, _, all, sent.wire_prefix, ?_, ?_, videos, ?_, carries.others⟩
  · have last := sent.last
    rwa [messages, ← List.map_dropLast] at last
  · intro free
    rw [done free] at sent
    exact sent.wire_eq
  · intro p _
    refine ⟨p.dwLength_toNat, ?_, rfl⟩
    have small := p.pkt.size_lt
    simp only [Packet.avFrame, UInt32.toNat_ofNat']
    omega

theorem media_in_order_sample : ∃ w, Runs fire NoSeeks
    (start sampleRaw sampleFfmpeg (startBytes ++ pauseBytes) [.sent 2000])
    [readWhole, writeSplit, .timer, writeSplit, writeSplit, writeSplit, readWhole, .write [.sent 5]] w ∧
    InOrder (sampleFfmpeg.results.filterMap id) w := by
  have finished : (exec fire NoSeeks
      (start sampleRaw sampleFfmpeg (startBytes ++ pauseBytes) [.sent 2000])
      [readWhole, writeSplit, .timer, writeSplit, writeSplit, writeSplit, readWhole,
        .write [.sent 5]]).isSome = true := by
    decide +kernel
  obtain ⟨w, ran⟩ := Option.isSome_iff_exists.mp finished
  exact ⟨w, .of_exec ran, media_in_order (by decide) (.of_exec ran)⟩

end TaskPlayback

end GreatEvent
