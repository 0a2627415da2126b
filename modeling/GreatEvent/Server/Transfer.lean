import GreatEvent.Server.FileRecvStream
import GreatEvent.Server.FileSendStream

/-!
# A file transfer from end to end

A server task and a client task joined by their connection: what one side's
socket accepts is there for the other side's `recv`, which takes as much of
it as it likes. Every step is a callback of one of them. The frames the
server has queued carry the file up to where it has been read, the client's
file is what the frames taken so far carry, and the end-of-data frame is
queued when everything has been read.
-/

namespace GreatEvent

open Lib FrameReader

namespace TaskFileSend

open TaskFileRecv (Sound stores stored)

/-- A chunk's frame carries the chunk. -/
theorem stores_chunkFrame (dwPos : UInt32) {data : List Byte} (small : data.length ≤ bufferLen) :
    Sound (chunkFrame dwPos data small).bytes ∧ stores (chunkFrame dwPos data small).bytes = data := by
  have cmd : NetCmd.ofBytes (chunkFrame dwPos data small).bytes = chunkCmd data.length :=
    NetCmd.ofBytes_append _ _
  have head : (chunkFrame dwPos data small).bytes =
      ((chunkCmd data.length).bytes ++ FileGet.bytes ⟨dwPos, UInt32.ofNat data.length⟩) ++ data := by
    rw [List.append_assoc]
    rfl
  have headLen : ((chunkCmd data.length).bytes ++
      FileGet.bytes ⟨dwPos, UInt32.ofNat data.length⟩).length = packHeadLen + FileGet.size := by
    rw [List.length_append, NetCmd.length_bytes, FileGet.length_bytes]
  have body : (chunkFrame dwPos data small).bytes.drop (packHeadLen + FileGet.size) = data := by
    rw [head, List.drop_left' headLen]
  have word : wordAt (chunkFrame dwPos data small).bytes (packHeadLen + 4) =
      UInt32.ofNat data.length := by
    have front : ((chunkCmd data.length).bytes ++ leBytes 4 dwPos.toNat).length = packHeadLen + 4 := by
      rw [List.length_append, NetCmd.length_bytes, length_leBytes]
    have at' := wordAt_append _ (UInt32.ofNat data.length) data _ front
    rw [← at']
    simp only [chunkFrame, Frame.bytes, FileGet.bytes, List.append_assoc]
  have count : (UInt32.ofNat data.length).toNat = data.length := by
    rw [UInt32.toNat_ofNat']
    unfold bufferLen at small
    omega
  constructor
  · refine ⟨?_, fun _ => ⟨?_, ?_⟩⟩
    · rw [head, List.length_append, headLen]
      unfold bufferLen at small
      simp only [packHeadLen, FileGet.size, TaskFileRecv.bufferLen]
      omega
    · rw [head, List.length_append, headLen]
      exact Nat.le_add_right _ _
    · simp only [TaskFileRecv.ChunkFits, word, body, count, Nat.le_refl]
  · rw [stores, cmd, chunkCmd, if_pos rfl, TaskFileRecv.chunkIn, body, word, count, List.take_length]

/-- A frame that is no media carries nothing. -/
theorem stores_other {f : Frame} (other : f.cmd.dwCmd ≠ ModuleMsg.video.code)
    (fits : f.bytes.length ≤ TaskFileRecv.bufferLen) : Sound f.bytes ∧ stores f.bytes = [] := by
  have cmd : (NetCmd.ofBytes f.bytes).dwCmd ≠ ModuleMsg.video.code := by
    rwa [Frame.bytes, NetCmd.ofBytes_append]
  exact ⟨⟨fits, fun video => absurd video cmd⟩, if_neg cmd⟩

/-- What the frames queued carry. -/
def carries (frames : List Frame) : List Byte := stored (frames.map Frame.bytes)

theorem carries_concat (frames : List Frame) (f : Frame) :
    carries (frames ++ [f]) = carries frames ++ stores f.bytes := by
  rw [carries, List.map_append, TaskFileRecv.stored_append]
  simp [carries, stored]

/-- Frames that the receiver can take, none of them the end of the data. -/
structure Ongoing (frames : List Frame) : Prop where
  sound : ∀ f ∈ frames, Sound f.bytes
  goesOn : ∀ f ∈ frames, f.cmd.dwCmd ≠ ModuleMsg.dataEnd.code

theorem Ongoing.concat {frames : List Frame} (ongoing : Ongoing frames) {f : Frame}
    (sound : Sound f.bytes) (goesOn : f.cmd.dwCmd ≠ ModuleMsg.dataEnd.code) :
    Ongoing (frames ++ [f]) := by
  constructor <;> intro g member <;> rcases List.mem_append.mp member with old | new
  · exact ongoing.sound g old
  · exact List.mem_singleton.mp new ▸ sound
  · exact ongoing.goesOn g old
  · exact List.mem_singleton.mp new ▸ goesOn

/-- A login reply is taken and carries nothing. -/
theorem carries_login (info : FileInfo) :
    Sound (loginRetFrame info).bytes ∧ carries [loginRetFrame info] = [] := by
  have fits : (loginRetFrame info).bytes.length ≤ TaskFileRecv.bufferLen := by
    rw [length_loginRetFrame]
    decide
  obtain ⟨sound, nothing⟩ := stores_other (f := loginRetFrame info)
    (show ModuleMsg.loginRet.code ≠ ModuleMsg.video.code by decide) fits
  refine ⟨sound, ?_⟩
  rw [carries, List.map_singleton, stored, List.map_singleton, nothing]
  rfl

/-- Of a file read up to `pos` the rest modulo `2^32` is left, and the next chunk takes what it asks for. -/
theorem chunk_reads {content : List Byte} {pos : Nat} {t : TaskFileSend}
    (mFileLen : t.mFileLen = UInt32.ofNat content.length) (mHasReadLen : t.mHasReadLen = UInt32.ofNat pos)
    (within : pos ≤ content.length % 2 ^ 32) :
    (t.mFileLen - t.mHasReadLen).toNat = content.length % 2 ^ 32 - pos ∧
      ((⟨content, pos⟩ : FileStream).fread (chunkLen t)).length = chunkLen t := by
  have pos' : (UInt32.ofNat pos).toNat = pos := by
    rw [UInt32.toNat_ofNat']
    omega
  have all : (UInt32.ofNat content.length).toNat = content.length % 2 ^ 32 := UInt32.toNat_ofNat'
  have left : (t.mFileLen - t.mHasReadLen).toNat = content.length % 2 ^ 32 - pos := by
    rw [mFileLen, mHasReadLen, UInt32.toNat_sub_of_le, all, pos']
    rw [UInt32.le_iff_toNat_le, all, pos']
    exact within
  refine ⟨left, ?_⟩
  rw [FileStream.fread, List.length_take, List.length_drop, chunkLen, left]
  show min (min _ _) (content.length - pos) = _
  omega

/-- The file has been read up to `pos`, and so far the frames carry it. -/
structure ReadTo (content : List Byte) (pos : Nat) (t : TaskFileSend) (frames : List Frame) : Prop where
  mpFile : t.mpFile = some ⟨content, pos⟩
  within : pos ≤ content.length
  mFileLen : t.mFileLen = UInt32.ofNat content.length
  mHasReadLen : t.mHasReadLen = UInt32.ofNat pos
  noMessage : t.mMsgQueue = []
  ongoing : Ongoing frames
  carried : carries frames = content.take pos

/-- At any moment: the frames carry a part of the file, or all of it and the end of the data. -/
def Delivered (content : List Byte) (frames : List Frame) : Prop :=
  (Ongoing frames ∧ carries frames <+: content) ∨
    ∃ chunks, frames = chunks ++ [Frame.ofCmd .dataEnd 0] ∧ Ongoing chunks ∧ carries chunks = content

/-- **The frames carry the file**, in order and without gaps, as far as it has been read. -/
theorem carried_readTo {content : List Byte} (small : content.length < 2 ^ 32) :
    Carried (fun t frames => ∃ pos, ReadTo content pos t frames) (Delivered content) where
  steady := by
    rintro t t' frames same ⟨pos, r⟩
    exact ⟨pos, same.mpFile.trans r.mpFile, r.within, same.mFileLen.trans r.mFileLen,
      same.mHasReadLen.trans r.mHasReadLen, same.mMsgQueue.trans r.noMessage, r.ongoing, r.carried⟩
  weaker := by
    rintro t frames ⟨pos, r⟩
    exact .inl ⟨r.ongoing, r.carried ▸ List.take_prefix _ _⟩
  message := by
    rintro t frames val rest ⟨pos, r⟩ queue
    rw [r.noMessage] at queue
    cases queue
  chunk := by
    rintro w frames file ⟨pos, r⟩ more same
    obtain rfl : file = ⟨content, pos⟩ := Option.some.inj (same.symm.trans r.mpFile)
    have within := r.within
    have size : content.length % 2 ^ 32 = content.length := Nat.mod_eq_of_lt small
    obtain ⟨left, count⟩ := chunk_reads r.mFileLen r.mHasReadLen (size.symm ▸ within)
    obtain ⟨sound, data⟩ := stores_chunkFrame (UInt32.ofNat pos) (length_fread_le w.obj ⟨content, pos⟩)
    refine ⟨pos + chunkLen w.obj, ?_, ?_, r.mFileLen, ?_, r.noMessage,
      r.ongoing.concat sound (show ModuleMsg.video.code ≠ ModuleMsg.dataEnd.code by decide), ?_⟩
    · show some (FileStream.afterRead _ _) = _
      rw [FileStream.afterRead, count]
    · rw [chunkLen, left]
      omega
    · show w.obj.mHasReadLen + UInt32.ofNat _ = _
      rw [count, r.mHasReadLen, ← UInt32.ofNat_add]
    · rw [carries_concat, r.carried, List.take_add]
      exact congrArg _ data
  ending := by
    rintro t frames ⟨pos, r⟩ done
    refine .inr ⟨frames, rfl, r.ongoing, ?_⟩
    have within := r.within
    rw [r.mFileLen, r.mHasReadLen, UInt32.lt_iff_toNat_lt, UInt32.toNat_ofNat', UInt32.toNat_ofNat'] at done
    rw [r.carried]
    refine List.take_of_length_le ?_
    omega

/-- A task for a file that has just been opened has read nothing. -/
theorem readTo_init (filename content : List Byte) : ReadTo content 0
    (init filename (some ⟨content, 0⟩) content.length) [loginRetFrame (fileInfo (UInt32.ofNat content.length))] := by
  obtain ⟨sound, nothing⟩ := carries_login (fileInfo (UInt32.ofNat content.length))
  have only : ∀ f, f ∈ [loginRetFrame (fileInfo (UInt32.ofNat content.length))] →
      f = loginRetFrame (fileInfo (UInt32.ofNat content.length)) := fun f => List.mem_singleton.mp
  refine ⟨rfl, Nat.zero_le _, rfl, rfl, rfl, ⟨fun f member => only f member ▸ sound, fun f member => ?_⟩, nothing⟩
  rw [only f member]
  exact show ModuleMsg.loginRet.code ≠ ModuleMsg.dataEnd.code by decide

/-- Everything delivered is sound. -/
theorem Delivered.sound {content : List Byte} {frames : List Frame}
    (delivered : Delivered content frames) : ∀ m ∈ frames.map Frame.bytes, Sound m := by
  intro m member
  obtain ⟨f, isFrame, rfl⟩ := List.mem_map.mp member
  rcases delivered with ⟨ongoing, -⟩ | ⟨chunks, rfl, ongoing, -⟩
  · exact ongoing.sound f isFrame
  · rcases List.mem_append.mp isFrame with chunk | last
    · exact ongoing.sound f chunk
    · rw [List.mem_singleton.mp last]
      have fits : (Frame.ofCmd .dataEnd 0).bytes.length ≤ TaskFileRecv.bufferLen := by decide
      exact (stores_other (show ModuleMsg.dataEnd.code ≠ ModuleMsg.video.code by decide) fits).1

/-- What some of the frames carry is the front of the file. -/
theorem Delivered.stored_prefix {content : List Byte} {frames : List Frame}
    (delivered : Delivered content frames) {fs hs : List (List Byte)}
    (split : frames.map Frame.bytes = fs ++ hs) : stored fs <+: content := by
  have front : stored fs <+: carries frames := by
    rw [carries, split, TaskFileRecv.stored_append]
    exact List.prefix_append _ _
  rcases delivered with ⟨-, part⟩ | ⟨chunks, rfl, -, all⟩
  · exact front.trans part
  · have fits : (Frame.ofCmd .dataEnd 0).bytes.length ≤ TaskFileRecv.bufferLen := by decide
    have nothing := (stores_other (f := Frame.ofCmd .dataEnd 0)
      (show ModuleMsg.dataEnd.code ≠ ModuleMsg.video.code by decide) fits).2
    rwa [carries_concat, nothing, List.append_nil, all] at front

/-- In front of the end of the data is the whole file. -/
theorem Delivered.stored_of_end {content : List Byte} {frames : List Frame}
    (delivered : Delivered content frames) {fs hs : List (List Byte)} {m : List Byte}
    (split : frames.map Frame.bytes = fs ++ m :: hs)
    (ends : (NetCmd.ofBytes (m.take packHeadLen)).dwCmd = ModuleMsg.dataEnd.code) :
    stored fs = content ∧ m.length = packHeadLen := by
  have goesOn : ∀ chunks : List Frame, Ongoing chunks → m ∉ chunks.map Frame.bytes := by
    intro chunks ongoing member
    obtain ⟨f, isFrame, rfl⟩ := List.mem_map.mp member
    rw [Frame.ofBytes_head] at ends
    exact ongoing.goesOn f isFrame ends
  rcases delivered with ⟨ongoing, -⟩ | ⟨chunks, rfl, ongoing, all⟩
  · exact absurd (by rw [split]; simp) (goesOn frames ongoing)
  · rw [List.map_append, List.map_singleton] at split
    rcases List.eq_nil_or_concat hs with rfl | ⟨hs, last, rfl⟩
    · obtain ⟨rfl, same⟩ := List.append_inj' split rfl
      obtain rfl := (List.cons.inj same).1
      exact ⟨all, rfl⟩
    · have front : chunks.map Frame.bytes = fs ++ m :: hs := by
        have joined : chunks.map Frame.bytes ++ [(Frame.ofCmd .dataEnd 0).bytes] =
            (fs ++ m :: hs) ++ [last] := by
          rw [split]
          simp
        exact (List.append_inj' joined rfl).1
      exact absurd (by rw [front]; simp) (goesOn chunks ongoing)

end TaskFileSend

/-! ## The connection -/

/-- The two ends of a transfer. -/
structure Link where
  server : World TaskFileSend
  client : World TaskFileRecv

/-- A turn of the server's event loop, or of the client's. -/
inductive Side where
  | server (e : Event)
  | client (e : Event)
  deriving DecidableEq

/-- Nothing has been sent by that. -/
theorem TaskFileSend.Delivers.arrive {P : TaskFileSend → List Frame → Prop} {G : List Frame → Prop}
    {w : World TaskFileSend} (delivers : Delivers P G w) (bytes : List Byte) :
    Delivers P G (w.arrive bytes) := by
  rcases delivers with ⟨flowing, holds⟩ | ⟨stopped, ⟨rest, sent⟩, stands⟩
  · exact .inl ⟨⟨flowing.buffer, flowing.wire⟩, holds⟩
  · exact .inr ⟨stopped, ⟨rest, sent⟩, stands⟩

namespace Link

/-- A turn of one side; what it sends is there for the other to read. -/
def fire (l : Link) : Side → Option Link
  | .server e => (GreatEvent.fire l.server e).map fun w =>
    { server := w, client := l.client.arrive (w.wire.drop l.server.wire.length) }
  | .client e => (GreatEvent.fire l.client e).map fun w =>
    { server := l.server.arrive (w.wire.drop l.client.wire.length), client := w }

/-- A server task has been created for the file, and the client that asked for it waits. -/
def start (content : List Byte) (raw : TaskFileRecv.RawBuffer) (filepath : List Byte)
    (serverSends clientSends : List SendResult) : Link :=
  let server := TaskFileSend.start filepath (some ⟨content, 0⟩) content.length [] serverSends
  { server := server, client := TaskFileRecv.start raw filepath server.wire clientSends }

/-- No send of the server fails for good. -/
def NoFatal (_ : Link) (s : Side) (_ : Link) : Prop :=
  match s with
  | .server e => e.NoFatal
  | .client _ => True

instance (l : Link) (s : Side) (l' : Link) : Decidable (NoFatal l s l') :=
  match s with
  | .server e => inferInstanceAs (Decidable e.NoFatal)
  | .client _ => inferInstanceAs (Decidable True)

/-- The bytes that the client has taken from its socket. -/
def consumed (l : Link) : List Byte := l.server.wire.take (l.server.wire.length - l.client.inp.length)

/-- The client has read the header of the end of the data. -/
def EndRead (l : Link) : Prop :=
  ∃ h ∈ netFraming.headers l.consumed, (NetCmd.ofBytes h).dwCmd = ModuleMsg.dataEnd.code

/-- The server delivers, and the client receives what the server's socket has accepted. -/
structure Transfers (content : List Byte) (l : Link) : Prop where
  server : TaskFileSend.Delivers (fun t frames => ∃ pos, TaskFileSend.ReadTo content pos t frames)
    (TaskFileSend.Delivered content) l.server
  client : TaskFileRecv.Receives l.server.wire l.client

variable {content : List Byte} {l l' : Link}

theorem transfers_start (raw : TaskFileRecv.RawBuffer) (filepath : List Byte)
    {serverSends : List SendResult} (fine : .error ∉ serverSends) (clientSends : List SendResult)
    (small : content.length < 2 ^ 32) :
    Transfers content (start content raw filepath serverSends clientSends) where
  server := TaskFileSend.delivers_start (TaskFileSend.carried_readTo small)
    (cutShort_of_fine fine false _) ⟨0, TaskFileSend.readTo_init filepath content⟩
  client := TaskFileRecv.receives_start raw filepath _ clientSends

/-- **Every turn keeps the transfer**: the sender's bytes are added to what the receiver may take. -/
theorem Transfers.fire (small : content.length < 2 ^ 32) (transfers : Transfers content l) {s : Side}
    (fired : l.fire s = some l') (fine : NoFatal l s l') : Transfers content l' := by
  have carried := TaskFileSend.carried_readTo small
  cases s with
  | server e =>
    obtain ⟨w, turn, rfl⟩ := Option.map_eq_some_iff.mp fired
    obtain ⟨more, wire⟩ := TaskFileSend.fire_wire turn
    constructor
    · exact transfers.server.fire carried turn (.of_noFatal fine _)
    · have grown := transfers.client.grow more
      rw [wire] at grown
      show TaskFileRecv.Receives w.wire (l.client.arrive (w.wire.drop l.server.wire.length))
      rwa [← wire, List.drop_left, wire]
  | client e =>
    obtain ⟨w, turn, rfl⟩ := Option.map_eq_some_iff.mp fired
    obtain ⟨⟨rest, sent⟩, delivered⟩ := transfers.server.sent carried
    constructor
    · exact transfers.server.arrive _
    · refine transfers.client.fire ?_ delivered.sound sent.wire_prefix turn
      intro m member
      obtain ⟨f, -, rfl⟩ := List.mem_map.mp member
      exact f.whole

/-- **The file is transferred**: what the client has written is the front of the file, and all of it
once the end of the data has been read. -/
theorem Transfers.identity (small : content.length < 2 ^ 32) (transfers : Transfers content l) :
    l.client.obj.mwFile <+: content ∧ (l.EndRead → l.client.obj.mwFile = content) := by
  obtain ⟨⟨rest, sent⟩, delivered⟩ := transfers.server.sent (TaskFileSend.carried_readTo small)
  obtain ⟨fs, p, taken, file⟩ := transfers.client.received
  have wholes : ∀ m ∈ outgoing l.server.trace, netFraming.Whole m := by
    intro m member
    obtain ⟨f, -, rfl⟩ := List.mem_map.mp member
    exact f.whole
  obtain ⟨unsent, all⟩ := sent.wire_prefix
  have stream : fs.flatten ++ (p ++ (l.client.inp ++ unsent)) = (outgoing l.server.trace).flatten := by
    refine Eq.trans ?_ all
    rw [show l.server.core.wire = _ from taken.stream]
    simp only [List.append_assoc]
    rfl
  have file : l.client.obj.mwFile = TaskFileRecv.stored fs := file
  rw [file]
  obtain ⟨hs, split, -⟩ := Framing.prefix_of_flatten taken.wholes wholes stream
  refine ⟨delivered.stored_prefix split, ?_⟩
  rintro ⟨h, member, ends⟩
  have consumed : l.consumed = fs.flatten ++ p := by
    have length : l.server.wire.length - l.client.inp.length = (fs.flatten ++ p).length := by
      rw [taken.stream]
      simp only [List.length_append, World.core]
      omega
    rw [Link.consumed, length, taken.stream, ← List.append_assoc, List.take_left]
  rw [consumed, Framing.headers_flatten taken.wholes] at member
  rcases List.mem_append.mp member with before | last
  · -- a frame that has been taken is longer than a header
    obtain ⟨f, isFrame, rfl⟩ := List.mem_map.mp before
    obtain ⟨front, back, rfl⟩ := List.append_of_mem isFrame
    rw [List.append_assoc, List.cons_append] at split
    have short := (delivered.stored_of_end split ends).2
    have long := (taken.whole f isFrame).2
    omega
  · have long : packHeadLen ≤ p.length := by
      refine Classical.byContradiction fun short => ?_
      rw [Framing.headers_short (Nat.lt_of_not_le short)] at last
      cases last
    have within : p.length ≤ netFraming.frameLen p := by
      rcases taken.isOpen with (short | inside) | ⟨exactly, empty⟩
      · exact absurd long (Nat.not_le_of_lt short)
      · exact Nat.le_of_lt inside
      · exact Nat.le_of_eq (exactly.trans empty.symm)
    rw [Framing.headers_partial long within, List.mem_singleton] at last
    obtain ⟨m, hs, split, -, same⟩ := Framing.next_of_flatten taken.wholes wholes stream long
    refine (delivered.stored_of_end split ?_).1
    rw [last, same] at ends
    exact ends

/-- **File transfer is the identity.** Whatever the order of the two sides' turns and however the
network cuts the stream, the client's file is the front of the server's, and the whole of it once the
end-of-data header has been read. -/
theorem file_transferred (small : content.length < 2 ^ 32) {raw : TaskFileRecv.RawBuffer}
    {filepath : List Byte} {serverSends clientSends : List SendResult} (fine : .error ∉ serverSends)
    {turns : List Side}
    (run : Runs Link.fire NoFatal (start content raw filepath serverSends clientSends) turns l) :
    l.client.obj.mwFile <+: content ∧ (l.EndRead → l.client.obj.mwFile = content) :=
  (run.invariant (transfers_start raw filepath fine clientSends small)
    fun _ _ _ transfers fired allowed => transfers.fire small fired allowed).identity small

/-- A file of one byte: the client asks for it, the server sends the chunk and the end of the data,
the client takes the chunk in two reads. -/
theorem file_transferred_sample : ∃ l, Runs Link.fire NoFatal
    (start [7] ⟨List.replicate TaskFileRecv.bufferLen 0, List.length_replicate⟩ (ascii "a") [.sent 2000]
      [.sent 2000, .sent 2000])
    [.client (.read [.got 2000, .got 2000] [.sent 2000, .sent 2000]),
      .server (.read [.got 2000, .got 2000] []), .server (.write [.sent 20, .eagain, .sent 2000]),
      .client (.read [.got 10, .again] []), .server (.write [.sent 2000, .sent 2000]),
      .server (.write [.sent 2000]), .client (.read [.got 2000, .got 2000] [])] l ∧
    (l.client.obj.mwFile <+: [7] ∧ (l.EndRead → l.client.obj.mwFile = [7])) := by
  have finished : (exec Link.fire NoFatal
      (start [7] ⟨List.replicate TaskFileRecv.bufferLen 0, List.length_replicate⟩ (ascii "a")
        [.sent 2000] [.sent 2000, .sent 2000])
      [.client (.read [.got 2000, .got 2000] [.sent 2000, .sent 2000]),
        .server (.read [.got 2000, .got 2000] []), .server (.write [.sent 20, .eagain, .sent 2000]),
        .client (.read [.got 10, .again] []), .server (.write [.sent 2000, .sent 2000]),
        .server (.write [.sent 2000]), .client (.read [.got 2000, .got 2000] [])]).isSome = true := by
    decide +kernel
  obtain ⟨l, ran⟩ := Option.isSome_iff_exists.mp finished
  exact ⟨l, .of_exec ran, file_transferred (by decide) (by decide) (.of_exec ran)⟩

end Link

end GreatEvent
