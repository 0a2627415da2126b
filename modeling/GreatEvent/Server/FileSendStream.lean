import GreatEvent.Lib.Transmission
import GreatEvent.Server.FileSendSteps
import GreatEvent.Server.Turns

/-!
# What a file sending task puts on the wire

Between two callbacks the send buffer is empty (`Free`), or it holds a header
or a chunk of which nothing has been sent (`Waits`): `hasSendLen` only moves
when a send has gone through. So the bytes accepted by the socket are the
queued frames in order, short of what the buffer holds (`Flowing`), as long
as no send is cut short by a fatal error.
-/

namespace GreatEvent

open Lib FrameReader

namespace TagFileSendBuffer

/-- The bytes behind the header. -/
def payload (b : TagFileSendBuffer) : List Byte := (b.data.getD []).take b.dataLen

/-- Nothing to send. -/
structure Free (b : TagFileSendBuffer) : Prop where
  totalLen : b.totalLen = 0
  hasSendLen : b.hasSendLen = 0
  dataLen : b.dataLen = 0

/-- A header or a chunk to send, none of it sent yet. -/
structure Waits (b : TagFileSendBuffer) : Prop where
  busy : b.totalLen ≠ 0
  fresh : b.hasSendLen = 0
  stored : b.dataLen ≤ (b.data.getD []).length
  phase : b.totalLen ≤ cmdLen ∧ b.bSendCmd = true ∨ b.totalLen = b.dataLen ∧ b.bSendCmd = false

/-- What the next send is asked to send. -/
def next (b : TagFileSendBuffer) : List Byte :=
  if b.bSendCmd then b.cmd.bytes.take b.totalLen else b.payload

/-- The buffer after that has been sent. -/
def turned (b : TagFileSendBuffer) : TagFileSendBuffer := if b.bSendCmd then b.setToVideo else b.reset

/-- All that the buffer has still to send. -/
def unsent (b : TagFileSendBuffer) : List Byte :=
  if b.totalLen = 0 then [] else if b.bSendCmd then b.cmd.bytes.take b.totalLen ++ b.payload else b.payload

section
variable {b : TagFileSendBuffer}

theorem Free.unsent (free : Free b) : b.unsent = [] := if_pos free.totalLen

/-- A header with nothing behind it. -/
theorem unsent_header (busy : b.totalLen ≠ 0) (header : b.bSendCmd = true) (none : b.dataLen = 0) :
    b.unsent = b.cmd.bytes.take b.totalLen := by
  rw [unsent, if_neg busy, if_pos header, payload, none, List.take_zero, List.append_nil]

theorem Waits.length_next (waits : Waits b) : b.next.length = b.totalLen := by
  unfold next
  rcases waits.phase with ⟨fits, header⟩ | ⟨same, chunk⟩
  · rw [if_pos header, List.length_take, b.cmd.bytes_len]
    omega
  · rw [if_neg (by rw [chunk]; exact Bool.false_ne_true), payload, List.length_take, same]
    have stored := waits.stored
    omega

/-- A turned buffer is free or waits with its chunk. -/
theorem Waits.turned (waits : Waits b) : Free b.turned ∨ Waits b.turned := by
  unfold TagFileSendBuffer.turned
  split
  · by_cases none : b.dataLen = 0
    · exact .inl ⟨none, rfl, none⟩
    · exact .inr ⟨none, rfl, waits.stored, .inr ⟨rfl, rfl⟩⟩
  · exact .inl ⟨rfl, rfl, rfl⟩

/-- What goes out next is the front of what is unsent, and the rest is what the turned buffer holds. -/
theorem Waits.unsent (waits : Waits b) : b.unsent = b.next ++ b.turned.unsent := by
  have busy := waits.busy
  simp only [TagFileSendBuffer.unsent, next, TagFileSendBuffer.turned]
  rw [if_neg busy]
  by_cases header : b.bSendCmd = true
  · simp only [if_pos header, setToVideo, Bool.false_eq_true, if_false]
    split
    · rename_i none
      simp [payload, none]
    · rfl
  · simp [header, reset]

theorem turned_data (b : TagFileSendBuffer) : b.turned.data = b.data := by
  unfold TagFileSendBuffer.turned
  split <;> rfl

end

end TagFileSendBuffer

namespace TaskFileSend

open TagFileSendBuffer

section
variable {Q : Int → World TaskFileSend → Prop} {E : Stop → World TaskFileSend → Prop}
  {w : World TaskFileSend}

/-- `tcpSendData` is a send of what is next, and the buffer turns when it has gone through. -/
theorem wp_tcpSendData_next (waits : Waits w.obj.mSendBuffer)
    (send : wp (sendEx w.obj.mSendBuffer.next) (fun ret t => t.obj = w.obj ∧
      (ret = w.obj.mSendBuffer.totalLen ∧ Q ret { t with
          obj := { t.obj with mSendBuffer := w.obj.mSendBuffer.turned } } ∨
        ret = -1 ∧ Q ret t)) E w) :
    wp tcpSendData Q E w := by
  have busy := waits.busy
  have fresh := waits.fresh
  have data : (((if w.obj.mSendBuffer.bSendCmd then w.obj.mSendBuffer.cmd.bytes
      else w.obj.mSendBuffer.data.getD []).drop w.obj.mSendBuffer.hasSendLen).take
        (w.obj.mSendBuffer.totalLen - w.obj.mSendBuffer.hasSendLen)) = w.obj.mSendBuffer.next := by
    rw [fresh, List.drop_zero, Nat.sub_zero, next]
    rcases waits.phase with ⟨-, header⟩ | ⟨same, chunk⟩
    · rw [header]
      rfl
    · rw [chunk, payload, same]
      rfl
  simp only [tcpSendData, wp_bind, wp_self, data]
  refine send.mono ?_ (fun _ _ stopped => stopped)
  rintro ret t ⟨obj, ⟨rfl, post⟩ | ⟨rfl, post⟩⟩
  · have pos : (0 : Int) < w.obj.mSendBuffer.totalLen := by omega
    simp only [wp_ite, wp_bind, wp_self, wp_modifySend, wp_pure, if_pos pos, obj, fresh, Nat.zero_add,
      Int.toNat_natCast, if_true]
    simp only [turned, obj] at post
    split at post <;> rename_i header
    · rw [if_pos header]
      exact post
    · rw [if_neg header]
      exact post
  · have differs : ¬ w.obj.mSendBuffer.hasSendLen = w.obj.mSendBuffer.totalLen := by omega
    simp only [wp_ite, wp_bind, wp_self, wp_pure, obj, if_neg differs,
      if_neg (show ¬ (0 : Int) < -1 by decide)]
    exact post

/-- **What `tcpSendData` comes to** when the buffer waits: it turns, or nothing happens to it. -/
theorem wp_tcpSendData (waits : Waits w.obj.mSendBuffer)
    (sent : ∀ left, Q w.obj.mSendBuffer.totalLen { w with
      obj := { w.obj with mSendBuffer := w.obj.mSendBuffer.turned }
      wire := w.wire ++ w.obj.mSendBuffer.next, sends := left })
    (failed : ∀ part left, part <+: w.obj.mSendBuffer.next → .error ∈ w.sends →
      (cutShort false w.obj.mSendBuffer.totalLen w.sends = false → part = []) →
      Q (-1) { w with wire := w.wire ++ part, sends := left })
    (blocks : ∀ part left, part <+: w.obj.mSendBuffer.next →
      E .blocked { w with wire := w.wire ++ part, sends := left }) :
    wp tcpSendData Q E w := by
  have length := waits.length_next
  refine wp_tcpSendData_next waits (wp_sendEx_outcome _ ?_ (fun part front bad whole => ?_)
    (fun part left front => blocks part left front))
  · exact ⟨rfl, .inl ⟨by rw [length], by rw [length]; exact sent _⟩⟩
  · exact ⟨rfl, .inr ⟨rfl, failed part _ front bad (length ▸ whole)⟩⟩

/-- Between two callbacks: what the buffer holds is all of the queued frames that is not out. -/
structure Flowing (c : Core TaskFileSend) : Prop where
  buffer : Free c.obj.mSendBuffer ∨ Waits c.obj.mSendBuffer
  wire : Transmits c.wire (outgoing c.trace) c.obj.mSendBuffer.unsent

/-- At any moment: the queued frames are out up to some rest. -/
def Sent (c : Core TaskFileSend) : Prop := ∃ rest, Transmits c.wire (outgoing c.trace) rest

theorem Flowing.sent {c : Core TaskFileSend} (flowing : Flowing c) : Sent c := ⟨_, flowing.wire⟩

theorem Flowing.free {c : Core TaskFileSend} (flowing : Flowing c)
    (none : c.obj.mSendBuffer.totalLen = 0) : Free c.obj.mSendBuffer :=
  flowing.buffer.resolve_right fun waits => waits.busy none

theorem Flowing.waits {c : Core TaskFileSend} (flowing : Flowing c)
    (some : c.obj.mSendBuffer.totalLen ≠ 0) : Waits c.obj.mSendBuffer :=
  flowing.buffer.resolve_left fun free => some free.totalLen

/-- Nothing that matters to the wire has changed. -/
theorem Flowing.move {c d : Core TaskFileSend} (flowing : Flowing c)
    (buffer : d.obj.mSendBuffer = c.obj.mSendBuffer) (wire : d.wire = c.wire)
    (queued : outgoing d.trace = outgoing c.trace) : Flowing d := by
  constructor
  · rw [buffer]
    exact flowing.buffer
  · rw [buffer, wire, queued]
    exact flowing.wire

/-- **Sending keeps the stream**, if the send is not cut short. It returns what has been sent, or the
error. -/
theorem wp_tcpSendData_flow (flowing : Flowing w.core) (waits : Waits w.obj.mSendBuffer)
    (uncut : cutShort false w.obj.mSendBuffer.totalLen w.sends = false)
    (returns : ∀ (ret : Int) b wire left, ret = w.obj.mSendBuffer.totalLen ∨ ret = -1 →
      b.data = w.obj.mSendBuffer.data →
      Flowing ⟨{ w.obj with mSendBuffer := b }, w.inp, wire, w.trace⟩ →
      Q ret { w with obj := { w.obj with mSendBuffer := b }, wire := wire, sends := left })
    (blocks : ∀ wire left, Sent ⟨w.obj, w.inp, wire, w.trace⟩ →
      E .blocked { w with wire := wire, sends := left }) :
    wp tcpSendData Q E w := by
  have wire : Transmits w.wire (outgoing w.trace) w.obj.mSendBuffer.unsent := flowing.wire
  rw [waits.unsent] at wire
  refine wp_tcpSendData waits (fun left => ?_) (fun part left _ _ whole => ?_) (fun part left front => ?_)
  · exact returns _ _ _ left (.inl rfl) (turned_data _) ⟨waits.turned, wire.send⟩
  · have none : part = [] := whole uncut
    refine returns _ _ _ left (.inr rfl) rfl ?_
    rw [none, List.append_nil]
    exact flowing
  · obtain ⟨rest, out⟩ := wire.send_prefix (front.trans (List.prefix_append _ _))
    exact blocks _ left ⟨rest, out⟩

/-- A frame whose bytes the empty buffer has taken up flows. -/
theorem Flowing.queue {c d : Core TaskFileSend} {f : Frame} (flowing : Flowing c)
    (free : Free c.obj.mSendBuffer) (waits : Waits d.obj.mSendBuffer)
    (holds : d.obj.mSendBuffer.unsent = f.bytes) (wire : d.wire = c.wire)
    (queued : d.trace = c.trace ++ [.queued f]) : Flowing d := by
  have done := flowing.wire
  rw [free.unsent] at done
  refine ⟨.inr waits, ?_⟩
  rw [holds, wire, queued, outgoing_concat]
  exact done.queue f.bytes

/-- A header alone in the buffer. -/
theorem loadCmd_waits (free : Free w.obj.mSendBuffer) (msg : ModuleMsg) (index : UInt32) :
    Waits (loadCmd w msg index).obj.mSendBuffer ∧
      (loadCmd w msg index).obj.mSendBuffer.unsent = (Frame.ofCmd msg index).bytes := by
  have none : w.obj.mSendBuffer.dataLen = 0 := free.dataLen
  refine ⟨⟨show packHeadLen ≠ 0 by decide, free.hasSendLen, ?_, .inl ⟨packHeadLen_le_cmdLen, rfl⟩⟩, ?_⟩
  · show w.obj.mSendBuffer.dataLen ≤ _
    rw [none]
    exact Nat.zero_le _
  · have header := CmdBuffer.take_put w.obj.mSendBuffer.cmd (Frame.ofCmd_fits msg index)
    rw [NetCmd.length_bytes] at header
    have alone : (loadCmd w msg index).obj.mSendBuffer.unsent = _ :=
      unsent_header (show packHeadLen ≠ 0 by decide) rfl none
    exact alone.trans (header.trans (List.append_nil _).symm)

/-- A chunk with its header in the buffer. -/
theorem loadChunk_waits (free : Free w.obj.mSendBuffer) (file : FileStream) :
    Waits (loadChunk w file).obj.mSendBuffer ∧
      (loadChunk w file).obj.mSendBuffer.unsent = (nextChunk w.obj file).bytes := by
  have fits : (chunkHead w.obj file).length ≤ cmdLen := by
    rw [length_chunkHead]
    decide
  have header := CmdBuffer.take_put w.obj.mSendBuffer.cmd fits
  rw [length_chunkHead] at header
  have chunk : (chunkMem w.obj file).take (file.fread (chunkLen w.obj)).length =
      file.fread (chunkLen w.obj) := by
    rw [chunkMem, poke_zero, List.take_left]
  refine ⟨⟨show packHeadLen + FileGet.size ≠ 0 by decide, free.hasSendLen, ?_,
    .inl ⟨show packHeadLen + FileGet.size ≤ cmdLen by decide, rfl⟩⟩, ?_⟩
  · show _ ≤ (chunkMem w.obj file).length
    rw [chunkMem, poke_zero, List.length_append]
    exact Nat.le_add_right _ _
  · simp only [unsent, loadChunk, payload, Option.getD_some, chunk, if_true, header]
    rw [if_neg (by decide), nextChunk, chunkFrame, Frame.bytes, chunkHead, List.append_assoc]

/-- The length of what the next write callback sends. -/
def due (t : TaskFileSend) : Nat :=
  if t.mSendBuffer.totalLen ≠ 0 then t.mSendBuffer.totalLen
  else if t.mHasReadLen < t.mFileLen ∧ t.mMsgQueue = [] then packHeadLen + FileGet.size
  else packHeadLen

/-- Nothing that the transfer depends on has changed: of the send buffer, its memory. -/
structure SameFile (t t' : TaskFileSend) : Prop where
  mpFile : t'.mpFile = t.mpFile
  mMsgQueue : t'.mMsgQueue = t.mMsgQueue
  mFileLen : t'.mFileLen = t.mFileLen
  mHasReadLen : t'.mHasReadLen = t.mHasReadLen
  data : t'.mSendBuffer.data = t.mSendBuffer.data

/-- From `w` to `t` nothing of the transfer has gone on. -/
structure Beside (w t : World TaskFileSend) : Prop where
  same : SameFile w.obj t.obj
  buffer : t.obj.mSendBuffer = w.obj.mSendBuffer
  wire : t.wire = w.wire
  queued : queuedIn t.trace = queuedIn w.trace

/-- **A read callback goes on beside the transfer**, whatever it reads. -/
theorem read_beside (w : World TaskFileSend) :
    wp readBuffer (fun _ t => Beside w t) (fun _ t => Beside w t) w := by
  have quiet : ∀ obs, queuedIn obs = [] → queuedIn (w.trace ++ obs) = queuedIn w.trace := by
    intro obs silent
    rw [queuedIn_append, silent, List.append_nil]
  refine wp_readBuffer ?_ ?_ ?_
  · intro ret b rest recvs obs _ reading
    exact ⟨⟨rfl, rfl, rfl, rfl, rfl⟩, rfl, rfl, quiet obs (queuedIn_reading reading)⟩
  · intro b rest recvs obs _ reading
    exact ⟨⟨rfl, rfl, rfl, rfl, rfl⟩, rfl, rfl, quiet obs (queuedIn_reading reading)⟩
  · intro b rest recvs obs _ reading
    have silent := quiet obs (queuedIn_reading reading)
    have commanded : ∀ c : Control, queuedIn (w.trace ++ obs ++ [.command c]) = queuedIn w.trace := by
      intro c
      rw [queuedIn_append, silent]
      exact List.append_nil _
    refine wp_dispatch ?_ (fun ret _ => ?_) (fun c => ?_) (fun c sending writing event _ _ ret _ => ?_)
    · exact ⟨⟨rfl, rfl, rfl, rfl, rfl⟩, rfl, rfl, silent⟩
    · exact ⟨⟨rfl, rfl, rfl, rfl, rfl⟩, rfl, rfl, silent⟩
    · exact ⟨⟨rfl, rfl, rfl, rfl, rfl⟩, rfl, rfl, commanded c⟩
    · exact ⟨⟨rfl, rfl, rfl, rfl, rfl⟩, rfl, rfl, commanded c⟩

/-- `P` says what the object has to do with the frames queued, and every frame queued keeps it; `G` is
what is left of it once the session has stopped or ended. -/
structure Carried (P : TaskFileSend → List Frame → Prop) (G : List Frame → Prop) : Prop where
  steady : ∀ t t' frames, SameFile t t' → P t frames → P t' frames
  weaker : ∀ t frames, P t frames → G frames
  message : ∀ t frames val rest, P t frames → t.mMsgQueue = val :: rest →
    P { t with mMsgQueue := rest } (frames ++ [Frame.ofCmd val 0])
  chunk : ∀ w frames file, P w.obj frames → w.obj.mHasReadLen < w.obj.mFileLen →
    w.obj.mpFile = some file → P (loadChunk w file).obj (frames ++ [nextChunk w.obj file])
  ending : ∀ t frames, P t frames → ¬ t.mHasReadLen < t.mFileLen →
    G (frames ++ [Frame.ofCmd .dataEnd 0])

/-- **A write callback keeps the stream**, if its send is not cut short. -/
theorem writeBuffer_flows {P : TaskFileSend → List Frame → Prop} {G : List Frame → Prop}
    (carried : Carried P G) (flowing : Flowing w.core)
    (uncut : cutShort false (due w.obj) w.sends = false) (holds : P w.obj (queuedIn w.trace)) :
    wp writeBuffer
      (fun ret t => Flowing t.core ∧
        (P t.obj (queuedIn t.trace) ∨ ret = ownSockExit ∧ G (queuedIn t.trace)))
      (fun _ t => Sent t.core ∧ G (queuedIn t.trace)) w := by
  -- one send from a loaded buffer
  have sends : ∀ {Q : Int → World TaskFileSend → Prop} (d : World TaskFileSend),
      Flowing d.core → Waits d.obj.mSendBuffer → d.sends = w.sends →
      d.obj.mSendBuffer.totalLen = due w.obj → G (queuedIn d.trace) →
      (∀ ret b wire left, b.data = d.obj.mSendBuffer.data →
        Flowing ⟨{ d.obj with mSendBuffer := b }, d.inp, wire, d.trace⟩ →
        Q ret { d with obj := { d.obj with mSendBuffer := b }, wire := wire, sends := left }) →
      wp tcpSendData Q (fun _ t => Sent t.core ∧ G (queuedIn t.trace)) d := by
    intro Q d flows waits results length stopped returns
    refine wp_tcpSendData_flow flows waits (by rw [results, length]; exact uncut)
      (fun ret b wire left _ data flows => returns ret b wire left data flows) ?_
    exact fun _ _ sent => ⟨sent, stopped⟩
  refine wp_writeBuffer ?_ ?_ ?_ ?_ ?_ ?_ ?_
  · intro busy
    refine sends w flowing (flowing.waits busy) rfl (by rw [due, if_pos busy])
      (carried.weaker _ _ holds) fun _ b _ _ data flows => ?_
    exact ⟨flows, .inl (carried.steady w.obj _ _ ⟨rfl, rfl, rfl, rfl, data⟩ holds)⟩
  · intro free _ val rest queue
    have now := carried.message _ _ val rest holds queue
    rw [← queuedIn_concat] at now
    obtain ⟨waits, bytes⟩ := loadCmd_waits
      (w := { w with obj := { w.obj with mMsgQueue := rest } }) (flowing.free free) val 0
    refine sends _ (flowing.queue (flowing.free free) waits bytes rfl rfl) waits rfl ?_
      (carried.weaker _ _ now) fun _ b _ _ data flows => ?_
    · have busyQueue : ¬ (w.obj.mHasReadLen < w.obj.mFileLen ∧ w.obj.mMsgQueue = []) := by
        rw [queue]
        rintro ⟨-, none⟩
        cases none
      rw [due, if_neg (not_not_intro free), if_neg busyQueue]
      rfl
    · exact ⟨flows, .inl (carried.steady { w.obj with mMsgQueue := rest } _ _
        ⟨rfl, rfl, rfl, rfl, data⟩ now)⟩
  · intro _ _ _
    exact ⟨flowing, .inl holds⟩
  · intro free more queue _ file same
    have now := carried.chunk w _ file holds more same
    rw [← queuedIn_concat] at now
    obtain ⟨waits, bytes⟩ := loadChunk_waits (flowing.free free) file
    refine sends _ (flowing.queue (flowing.free free) waits bytes rfl rfl) waits rfl ?_
      (carried.weaker _ _ now) fun _ b _ _ data flows => ?_
    · rw [due, if_neg (not_not_intro free), if_pos ⟨more, queue⟩]
      rfl
    · exact ⟨flows, .inl (carried.steady (loadChunk w file).obj _ _ ⟨rfl, rfl, rfl, rfl, data⟩ now)⟩
  · exact fun _ _ => ⟨flowing.sent, carried.weaker _ _ holds⟩
  · exact fun _ => ⟨flowing.sent, carried.weaker _ _ holds⟩
  · intro free done
    have now := carried.ending _ _ holds done
    rw [← queuedIn_concat] at now
    obtain ⟨waits, bytes⟩ := loadCmd_waits (flowing.free free) .dataEnd 0
    refine sends _ (flowing.queue (flowing.free free) waits bytes rfl rfl) waits rfl ?_ now
      fun _ b _ _ _ flows => ⟨flows, .inr ⟨rfl, now⟩⟩
    rw [due, if_neg (not_not_intro free), if_neg fun both => done both.1]
    rfl

/-- No send of the event's callback is cut short. -/
def Uncut (t : TaskFileSend) (e : Event) : Prop :=
  e.isWrite = true → cutShort false (due t) e.sends = false

instance (t : TaskFileSend) (e : Event) : Decidable (Uncut t e) := inferInstanceAs (Decidable (_ → _))

theorem Uncut.of_noFatal {e : Event} (fine : e.NoFatal) (t : TaskFileSend) : Uncut t e :=
  fun _ => cutShort_of_fine fine false _

/-- The methods of a file sending task keep the stream. -/
theorem method_flows {P : TaskFileSend → List Frame → Prop} {G : List Frame → Prop}
    (carried : Carried P G) {e : Event} (flowing : Flowing w.core) (results : w.sends = e.sends)
    (uncut : Uncut w.obj e) (holds : P w.obj (queuedIn w.trace)) :
    wp (e.method : Act TaskFileSend Int)
      (fun ret t => Flowing t.core ∧
        (P t.obj (queuedIn t.trace) ∨ e.tearsDown ret = some .onWrite ∧ G (queuedIn t.trace)))
      (fun _ t => Sent t.core ∧ G (queuedIn t.trace)) w := by
  have still : Flowing w.core ∧
      (P w.obj (queuedIn w.trace) ∨ e.tearsDown 0 = some .onWrite ∧ G (queuedIn w.trace)) :=
    ⟨flowing, .inl holds⟩
  have beside : ∀ t, Beside w t → Flowing t.core ∧ P t.obj (queuedIn t.trace) := by
    intro t b
    refine ⟨flowing.move b.buffer b.wire ?_, ?_⟩
    · show outgoing t.trace = outgoing w.trace
      rw [outgoing, outgoing, b.queued]
    · rw [b.queued]
      exact carried.steady _ _ _ b.same holds
  cases e with
  | read recvs sends =>
    refine (read_beside w).mono (fun ret t b => ?_) (fun _ t b => ?_)
    · exact ⟨(beside t b).1, .inl (beside t b).2⟩
    · exact ⟨(beside t b).1.sent, carried.weaker _ _ (beside t b).2⟩
  | write sends =>
    refine (writeBuffer_flows carried flowing (by rw [results]; exact uncut rfl) holds).mono ?_
      (fun _ _ stopped => stopped)
    rintro ret t ⟨flows, now⟩
    refine ⟨flows, now.imp id ?_⟩
    rintro ⟨exits, ended⟩
    exact ⟨if_pos exits, ended⟩
  | timer => exact still
  | readTimeout => exact still
  | writeTimeout => exact still

/-- What has been accepted stays accepted. -/
theorem method_wire (e : Event) (w : World TaskFileSend) :
    wp (e.method : Act TaskFileSend Int) (fun _ t => w.wire <+: t.wire) (fun _ t => w.wire <+: t.wire)
      w := by
  have same : w.wire <+: w.wire := List.prefix_rfl
  have sends : ∀ {Q : Int → World TaskFileSend → Prop} (d : World TaskFileSend), d.wire = w.wire →
      (∀ ret t, w.wire <+: t.wire → Q ret t) → wp tcpSendData Q (fun _ t => w.wire <+: t.wire) d := by
    intro Q d wire post
    refine wp_tcpSendData_frame (fun ret b part left => ?_) (fun part left => ?_)
    · exact post _ _ (wire ▸ List.prefix_append _ _)
    · exact wire ▸ List.prefix_append _ _
  cases e with
  | read recvs results =>
    exact (read_beside w).mono (fun _ _ b => b.wire ▸ same) (fun _ _ b => b.wire ▸ same)
  | write results =>
    refine wp_writeBuffer (fun _ => ?_) (fun _ _ _ _ _ => ?_) (fun _ _ _ => same) (fun _ _ _ _ _ _ => ?_)
      (fun _ _ => same) (fun _ => same) (fun _ _ => ?_)
    all_goals exact sends _ rfl fun _ _ grown => grown
  | timer => exact same
  | readTimeout => exact same
  | writeTimeout => exact same

theorem fire_wire {w' : World TaskFileSend} {e : Event} (fired : fire w e = some w') :
    w.wire <+: w'.wire := by
  refine fire_keeps fired (P := fun c => w.wire <+: c.wire) (fun _ _ grown => grown) ?_
  intro d core _ _ _
  have wire : d.wire = w.wire := congrArg Core.wire core
  rw [← wire]
  exact method_wire e d

/-- A session sending a file: between callbacks, or stopped inside one, or ended. -/
def Delivers (P : TaskFileSend → List Frame → Prop) (G : List Frame → Prop)
    (w : World TaskFileSend) : Prop :=
  (Flowing w.core ∧ P w.obj (queuedIn w.trace)) ∨
    (¬ w.Live ∧ Sent w.core ∧ G (queuedIn w.trace))

theorem Delivers.sent {P : TaskFileSend → List Frame → Prop} {G : List Frame → Prop}
    (carried : Carried P G) (delivers : Delivers P G w) : Sent w.core ∧ G (queuedIn w.trace) := by
  rcases delivers with ⟨flowing, holds⟩ | ⟨-, stands⟩
  · exact ⟨flowing.sent, carried.weaker _ _ holds⟩
  · exact stands

/-- **A turn keeps the stream** if its send is not cut short. -/
theorem Delivers.fire {P : TaskFileSend → List Frame → Prop} {G : List Frame → Prop}
    (carried : Carried P G) {w' : World TaskFileSend} {e : Event} (delivers : Delivers P G w)
    (fired : fire w e = some w') (uncut : Uncut w.obj e) : Delivers P G w' := by
  have live := live_of_fire fired
  obtain ⟨flowing, holds⟩ := delivers.resolve_right fun stands => stands.1 live
  have turn := fire_returns fired
    (R := fun ret c => Flowing c ∧
      (P c.obj (queuedIn c.trace) ∨ e.tearsDown ret = some .onWrite ∧ G (queuedIn c.trace)))
    (H := fun c => Sent c ∧ G (queuedIn c.trace)) ?_
  · rcases turn with ⟨ret, stays, flows, now⟩ | ⟨ret, by', c, tears, ⟨flows, now⟩, closed, same⟩ | ⟨halted, stands⟩
    · refine .inl ⟨flows, now.resolve_right ?_⟩
      rintro ⟨tears, -⟩
      rw [stays] at tears
      cases tears
    · have queued := queuedIn_torn same
      have flows' : Flowing w'.core := by
        refine flows.move (by rw [same]) (by rw [same]) ?_
        show outgoing w'.trace = _
        rw [outgoing, outgoing, queued]
      have ended : G (queuedIn c.trace) := now.elim (carried.weaker _ _) And.right
      exact .inr ⟨World.not_live_of_closed closed, flows'.sent, queued ▸ ended⟩
    · exact .inr ⟨World.not_live_of_halted halted, stands⟩
  · intro d same _ results _
    have obj : d.obj = w.obj := congrArg Core.obj same
    have trace : d.trace = w.trace := congrArg Core.trace same
    exact method_flows carried (same ▸ flowing) results (obj ▸ uncut) (by rw [obj, trace]; exact holds)

end

/-- A new task for a file, its login reply on the way; `inp` has arrived already. -/
def start (filename : List Byte) (file : Option FileStream) (st_size : Nat) (inp : List Byte)
    (sends : List SendResult) : World TaskFileSend :=
  after construct { accepted (init filename file st_size) inp with sends := sends }

/-- The login reply in the buffer of a new task. -/
theorem waits_login (filename : List Byte) (file : Option FileStream) (st_size : Nat) {bytes : List Byte}
    (fits : bytes.length ≤ cmdLen) :
    Waits { (init filename file st_size).mSendBuffer with
      cmd := (init filename file st_size).mSendBuffer.cmd.put bytes fits
      totalLen := packHeadLen + loginRetSize
      bSendCmd := true } :=
  ⟨show packHeadLen + loginRetSize ≠ 0 by decide, rfl, Nat.zero_le _,
    .inl ⟨show packHeadLen + loginRetSize ≤ cmdLen by decide, rfl⟩⟩

theorem delivers_start {P : TaskFileSend → List Frame → Prop} {G : List Frame → Prop}
    (carried : Carried P G) {filename : List Byte} {file : Option FileStream} {st_size : Nat}
    {inp : List Byte} {sends : List SendResult}
    (uncut : cutShort false (packHeadLen + loginRetSize) sends = false)
    (new : P (init filename file st_size) [loginRetFrame (fileInfo (init filename file st_size).mFileLen)]) :
    Delivers P G (start filename file st_size inp sends) := by
  refine after_of_wp ?_
  simp only [construct, wp_bind, wp_self, wp_modifySend, wp_emit]
  have fits : (loginRetFrame (fileInfo (init filename file st_size).mFileLen)).bytes.length ≤ cmdLen := by
    rw [length_loginRetFrame]
    decide
  have header := CmdBuffer.take_put (init filename file st_size).mSendBuffer.cmd fits
  rw [length_loginRetFrame] at header
  have waits := waits_login filename file st_size fits
  refine wp_tcpSendData_flow ⟨.inr waits, ?_⟩ waits uncut ?_ ?_
  · have wire : Transmits [] [(loginRetFrame (fileInfo (init filename file st_size).mFileLen)).bytes]
        (TagFileSendBuffer.unsent { (init filename file st_size).mSendBuffer with
          cmd := (init filename file st_size).mSendBuffer.cmd.put _ fits
          totalLen := packHeadLen + loginRetSize
          bSendCmd := true }) := by
      rw [unsent_header waits.busy rfl rfl, header]
      exact Transmits.nil.queue _
    exact wire
  · intro ret b wire left _ data flows
    exact .inl ⟨flows, carried.steady (init filename file st_size) _ _ ⟨rfl, rfl, rfl, rfl, data⟩ new⟩
  · intro wire left sent
    exact .inr ⟨fun live => Option.some_ne_none _ live.2, sent, carried.weaker _ _ new⟩

end TaskFileSend

end GreatEvent
