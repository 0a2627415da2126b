import GreatEvent.Video.PushSender
import GreatEvent.Video.TaskVideoRecv

/-!
# Pushed video from end to end

The messages of `tcpSendData` are whole frames, so a `TaskVideoRecv` that is
given them writes the units behind start codes and is ready for the next
header (`push_round_trip`). The message of `tpcSendMsg` is none: its `len` is
the length of the header itself, which nothing follows. A reader takes the
next twelve bytes for its body, so a stream is self-delimiting just when it
has no such message (`self_delimiting_iff`).
-/

namespace GreatEvent

open Lib

/-! ## Messages as frames -/

/-- The length of a unit is read back. -/
theorem PushData.len (unit : PushData) :
    unit.bytes.length = (asInt (UInt32.ofNat unit.bytes.length)).toNat := by
  have isInt := unit.isInt
  have word : (UInt32.ofNat unit.bytes.length).toNat = unit.bytes.length := by
    rw [UInt32.toNat_ofNat', Nat.mod_eq_of_lt (by omega)]
  rw [asInt, word, if_pos isInt, Int.toNat_natCast]

namespace PushCall

/-- The message of `tcpSendData` is a whole frame. -/
theorem data_whole (mSeqid : UInt32) (unit : PushData) :
    packFraming.Whole ((PushCall.data unit).message mSeqid) :=
  (PackHead.whole_iff _ _).mpr unit.len

/-- The message of `tpcSendMsg` announces a body, which it does not have. -/
theorem msg_isOpen (mSeqid : UInt32) (code : Byte) :
    ((PushCall.msg code).message mSeqid).length <
      packFraming.frameLen ((PushCall.msg code).message mSeqid) := by
  have len := PackHead.packLen_bytes ⟨code, 0, 0, UInt32.ofNat PackHead.size⟩ []
  rw [List.append_nil] at len
  rw [TaskVideoRecv.frameLen_head, PushCall.message, PackHead.length_bytes, len]
  show PackHead.size < PackHead.size + (asInt (UInt32.ofNat PackHead.size)).toNat
  decide

/-- So it is no frame. -/
theorem msg_not_whole (mSeqid : UInt32) (code : Byte) :
    ¬ packFraming.Whole ((PushCall.msg code).message mSeqid) :=
  fun whole => absurd whole.2 (Nat.ne_of_lt (msg_isOpen mSeqid code))

/-- Every message of data is a whole frame. -/
theorem messages_whole {calls : List PushCall} (data : ∀ code, PushCall.msg code ∉ calls)
    (mSeqid : UInt32) : ∀ m ∈ messages mSeqid calls, packFraming.Whole m := by
  induction calls generalizing mSeqid with
  | nil => exact nofun
  | cons call calls ih =>
    intro m member
    rcases List.mem_cons.mp member with rfl | later
    · cases call with
      | msg code => exact absurd List.mem_cons_self (data code)
      | data unit => exact data_whole mSeqid unit
    · exact ih (fun code later => data code (List.mem_cons_of_mem _ later)) _ m later

theorem msg_mem_messages {calls : List PushCall} {code : Byte} (member : PushCall.msg code ∈ calls)
    (mSeqid : UInt32) : (PushCall.msg code).message 0 ∈ messages mSeqid calls := by
  induction calls generalizing mSeqid with
  | nil => cases member
  | cons call calls ih =>
    rcases List.mem_cons.mp member with rfl | later
    · exact List.mem_cons_self
    · exact List.mem_cons_of_mem _ (ih later _)

end PushCall

/-! ## The round trip -/

/-- What the file holds of some units. -/
def unitsFile (units : List PushData) : List Byte := units.flatMap fun u => TaskVideoRecv.tag ++ u.bytes

/-- A unit is stored behind a start code. -/
theorem stores_data (mSeqid : UInt32) {unit : PushData} (some' : unit.bytes ≠ []) :
    TaskVideoRecv.stores ((PushCall.data unit).message mSeqid) = TaskVideoRecv.tag ++ unit.bytes := by
  have pos := List.length_pos_iff.mpr some'
  rw [PushCall.message, TaskVideoRecv.stores, if_neg, List.drop_left' (PackHead.length_bytes _)]
  rw [List.length_append, PackHead.length_bytes]
  omega

theorem stores_messages {units : List PushData} (some' : ∀ u ∈ units, u.bytes ≠ []) (mSeqid : UInt32) :
    (PushCall.messages mSeqid (units.map .data)).flatMap TaskVideoRecv.stores = unitsFile units := by
  induction units generalizing mSeqid with
  | nil => rfl
  | cons unit units ih =>
    rw [List.map_cons, PushCall.messages, List.flatMap_cons, stores_data _ (some' unit List.mem_cons_self),
      ih fun u member => some' u (List.mem_cons_of_mem _ member)]
    rfl

theorem data_only (units : List PushData) (code : Byte) : PushCall.msg code ∉ units.map .data := by
  intro member
  obtain ⟨unit, -, same⟩ := List.mem_map.mp member
  cases same

/-- A stream brings the units to the file: however it is cut, everything is read if every `recv` brings
something, and when everything is read the file holds the units and the reader is ready for a header. -/
def Brings (stream : List Byte) (units : List PushData) : Prop :=
  ∀ (raw : TaskVideoRecv.RawBuffer) (recvs : List RecvResult) (n : Nat),
    let w := TaskVideoRecv.reads n (TaskVideoRecv.receiver raw stream recvs)
    ((∀ r ∈ recvs, ∃ k, r = .got (k + 1)) → n ≤ recvs.length → stream.length ≤ n → w.inp = []) ∧
      (w.inp = [] → w.obj.mwFile = unitsFile units ∧ w.obj.Ready)

theorem brings_messages {units : List PushData} (some' : ∀ u ∈ units, u.bytes ≠ []) (mSeqid : UInt32) :
    Brings (PushCall.messages mSeqid (units.map .data)).flatten units := by
  intro raw recvs n
  have whole := PushCall.messages_whole (data_only units) mSeqid
  constructor
  · exact fun delivers calls enough =>
      TaskVideoRecv.reads_all (TaskVideoRecv.parsed_init raw) delivers calls enough
  · intro done
    have all := TaskVideoRecv.reads_messages whole raw recvs n
      (PushCall.messages mSeqid (units.map .data)).length (by rw [done, List.drop_length]; rfl)
    rw [List.take_length, stores_messages some'] at all
    exact all

/-- **What is pushed is received**: the units sent one after the other, in any partial amounts, come to
the file of a receiver, however the stream is cut there. A sender that does not come back is still
waiting for its socket. -/
theorem push_round_trip (cls : Pusher) {units : List PushData} (some' : ∀ u ∈ units, u.bytes ≠ [])
    {s : PushSender} (fine : ∀ r ∈ s.rounds, cls.Fine r) :
    wp (PushCall.runAll cls (units.map .data))
      (fun _ s' => ∃ stream, s'.wire = s.wire ++ stream ∧ Brings stream units)
      (fun stop _ => stop = .blocked ∧ cls.ready s.rounds < needs (units.map .data)) s := by
  refine (wp_runAll cls (units.map .data) fine).mono (fun parts s' sent => ?_) (fun _ _ waits => waits)
  obtain ⟨rfl, wire⟩ := sent
  exact ⟨_, wire, brings_messages some' s.mSeqid⟩

/-- The unit of the sample. -/
def sampleUnit : PushData := ⟨[0x65, 0x88], by decide⟩

/-- Two units through a socket that times out once and takes five bytes at a time. -/
theorem push_round_trip_sample :
    wp (PushCall.runAll .tcpSender ([sampleUnit, sampleUnit].map .data))
      (fun _ s' => ∃ stream, s'.wire = [] ++ stream ∧ Brings stream [sampleUnit, sampleUnit])
      (fun stop _ => stop = .blocked ∧
        Pusher.tcpSender.ready (⟨.timeout, some 5⟩ :: List.replicate 8 ⟨.ready, some 5⟩) <
          needs ([sampleUnit, sampleUnit].map .data))
      ⟨0, [], ⟨.timeout, some 5⟩ :: List.replicate 8 ⟨.ready, some 5⟩⟩ := by
  refine push_round_trip .tcpSender ?_ (s := ⟨0, [], ⟨.timeout, some 5⟩ :: List.replicate 8 ⟨.ready, some 5⟩⟩) ?_
  · intro u member
    rcases List.mem_pair.mp member with rfl | rfl <;> exact nofun
  · intro r member
    rcases List.mem_cons.mp member with rfl | later
    · exact ⟨fun _ => nofun, 4, rfl⟩
    · obtain rfl := List.eq_of_mem_replicate later
      exact ⟨fun _ => nofun, 4, rfl⟩

/-! ## Where one message ends and the next begins -/

/-- However a stream of some parts is cut, a reader that has come to a part is ready for a header. -/
def HeadersRead (parts : List (List Byte)) : Prop :=
  ∀ (raw : TaskVideoRecv.RawBuffer) (recvs : List RecvResult) (n k : Nat), k < parts.length →
    let w := TaskVideoRecv.reads n (TaskVideoRecv.receiver raw parts.flatten recvs)
    w.inp = (parts.drop k).flatten → w.obj.Ready

theorem PushCall.messages_append (mSeqid : UInt32) (before after : List PushCall) :
    messages mSeqid (before ++ after) = messages mSeqid before ++ messages (before.foldl next mSeqid) after := by
  induction before generalizing mSeqid with
  | nil => rfl
  | cons call before ih =>
    rw [List.cons_append, messages, ih, messages]
    rfl

/-- The header behind the first `tpcSendMsg` is lost: the reader takes it for the body of the message. -/
theorem header_lost {before : List PushCall} (data : ∀ code, PushCall.msg code ∉ before) (code : Byte)
    (call : PushCall) (after : List PushCall) (mSeqid : UInt32) :
    ¬ HeadersRead (PushCall.messages mSeqid (before ++ .msg code :: call :: after)) := by
  intro headers
  let rest := PushCall.messages (before.foldl PushCall.next mSeqid) (call :: after)
  let msg := (PushCall.msg code).message mSeqid
  have parts : PushCall.messages mSeqid (before ++ .msg code :: call :: after) =
      PushCall.messages mSeqid before ++ [msg] ++ rest := by
    rw [PushCall.messages_append, List.append_assoc]
    rfl
  have stream : (PushCall.messages mSeqid before ++ [msg] ++ rest).flatten =
      (PushCall.messages mSeqid before).flatten ++ msg ++ rest.flatten := by
    simp only [List.flatten_append, List.flatten_singleton]
  have length : msg.length = PackHead.size := PackHead.length_bytes _
  let raw : TaskVideoRecv.RawBuffer := ⟨_, List.length_replicate (a := (0 : Byte))⟩
  obtain ⟨recvs, n, left, lost⟩ := TaskVideoRecv.reads_header (PushCall.messages_whole data mSeqid)
    (Nat.le_of_eq length.symm) (PushCall.msg_isOpen mSeqid code) raw rest.flatten
  rw [parts] at headers
  have ready := headers raw recvs n (PushCall.messages mSeqid before ++ [msg]).length
  rw [List.drop_left, stream] at ready
  refine lost (ready ?_ left)
  have more : 0 < rest.length := Nat.succ_pos _
  simp only [List.length_append] at more ⊢
  omega

theorem headersRead_of_whole {parts : List (List Byte)} (whole : ∀ m ∈ parts, packFraming.Whole m) :
    HeadersRead parts :=
  fun raw recvs n k _ left => (TaskVideoRecv.reads_messages whole raw recvs n k left).2

/-- What the calls of a sender put on the wire is headers, each followed by as many bytes as its `len`
says, and a reader reads each of them as a header. A sender that does not come back is still waiting for
its socket. -/
def SelfDelimiting (cls : Pusher) (calls : List PushCall) : Prop :=
  ∀ s : PushSender, (∀ r ∈ s.rounds, cls.Fine r) →
    wp (PushCall.runAll cls calls)
      (fun parts s' => s'.wire = s.wire ++ parts.flatten ∧
        (∀ m ∈ parts, packFraming.Whole m) ∧ HeadersRead parts)
      (fun stop _ => stop = .blocked ∧ cls.ready s.rounds < needs calls) s

/-- A socket that is always ready and takes a byte at a time. -/
def patient (n : Nat) : PushSender := ⟨0, [], List.replicate n ⟨.ready, some 1⟩⟩

theorem fine_patient (cls : Pusher) (n : Nat) : ∀ r ∈ (patient n).rounds, cls.Fine r := by
  intro r member
  obtain rfl := List.eq_of_mem_replicate member
  exact ⟨fun _ => nofun, 0, rfl⟩

theorem ready_patient (cls : Pusher) (n : Nat) : cls.ready (patient n).rounds = n := by
  rw [Pusher.ready, patient, List.countP_replicate, if_pos]
  simp [Pusher.Waits]

/-- With a message of `tpcSendMsg` in it the stream is not self-delimiting. -/
theorem msg_not_delimited (cls : Pusher) {calls : List PushCall} {code : Byte}
    (member : PushCall.msg code ∈ calls) : ¬ SelfDelimiting cls calls := by
  intro delimited
  have fine := fine_patient cls (needs calls)
  refine (((delimited _ fine).and (wp_runAll cls calls fine)).mono ?_ ?_).endState (P := fun _ => False)
  · rintro parts s' ⟨⟨-, whole, -⟩, rfl, -⟩
    exact PushCall.msg_not_whole 0 code (whole _ (PushCall.msg_mem_messages member _))
  · rintro stop s' ⟨⟨-, few⟩, -⟩
    rw [ready_patient] at few
    omega

/-- **The stream of a sender is self-delimiting** just when no `tpcSendMsg` is among its calls. -/
theorem self_delimiting_iff (cls : Pusher) (calls : List PushCall) :
    SelfDelimiting cls calls ↔ ∀ code, PushCall.msg code ∉ calls := by
  constructor
  · exact fun delimited code member => msg_not_delimited cls member delimited
  · intro data s fine
    refine (wp_runAll cls calls fine).mono (fun parts s' sent => ?_) (fun _ _ waits => waits)
    obtain ⟨rfl, wire⟩ := sent
    have whole := PushCall.messages_whole data s.mSeqid
    exact ⟨wire, whole, headersRead_of_whole whole⟩

/-- Only a message for the peer and a unit behind it: the header of the unit is not read as a header. -/
theorem hello_shifts_frames : ¬ SelfDelimiting .tcpSender [.msg MsgType.videoRecvMsg.code, .data sampleUnit] :=
  msg_not_delimited .tcpSender List.mem_cons_self

/-- `TcpSender::Thread` and a `TaskVideoSend` begin with a message, so their streams never are. -/
theorem hello_not_delimited (cls : Pusher) (units : List PushData) :
    ¬ SelfDelimiting cls (.msg MsgType.videoRecvMsg.code :: units.map .data) :=
  msg_not_delimited cls List.mem_cons_self

/-- The first unit of such a stream is lost to its receiver. -/
theorem hello_header_lost (unit : PushData) (units : List PushData) (mSeqid : UInt32) :
    ¬ HeadersRead (PushCall.messages mSeqid (.msg MsgType.videoRecvMsg.code :: (unit :: units).map .data)) :=
  header_lost (fun _ => List.not_mem_nil) _ (.data unit) (units.map .data) mSeqid

end GreatEvent
