import GreatEvent.Server.EventCall
import GreatEvent.Server.Reading

/-!
# What the callbacks of a file sending task can do

As for playback: one rule for each callback, listing its outcomes once. A
frame is put into the send buffer by `loadCmd` or `loadChunk`, and what
remains is one call of `tcpSendData`.
-/

namespace GreatEvent

open Lib FrameReader

namespace TaskFileSend

/-- The state with a header in the send buffer. -/
def loadCmd (w : World TaskFileSend) (msg : ModuleMsg) (index : UInt32) : World TaskFileSend :=
  { w with
    obj := { w.obj with mSendBuffer := { w.obj.mSendBuffer with
      cmd := w.obj.mSendBuffer.cmd.put (Frame.ofCmd msg index).cmd.bytes
        (Frame.ofCmd_fits msg index)
      totalLen := packHeadLen
      bSendCmd := true } }
    trace := w.trace ++ [.queued (Frame.ofCmd msg index)] }

/-- How much of the file the next chunk takes. -/
def chunkLen (t : TaskFileSend) : Nat := min (t.mFileLen - t.mHasReadLen).toNat bufferLen

theorem length_fread_le (t : TaskFileSend) (file : FileStream) :
    (file.fread (chunkLen t)).length ≤ bufferLen := by
  simp only [FileStream.fread, chunkLen, List.length_take]
  omega

/-- The frame of the next chunk. -/
def nextChunk (t : TaskFileSend) (file : FileStream) : Frame :=
  chunkFrame (UInt32.ofNat file.pos) (file.fread (chunkLen t)) (length_fread_le t file)

/-- The bytes of a chunk's frame up to the chunk itself. -/
def chunkHead (t : TaskFileSend) (file : FileStream) : List Byte :=
  (chunkCmd (file.fread (chunkLen t)).length).bytes ++
    FileGet.bytes ⟨UInt32.ofNat file.pos, UInt32.ofNat (file.fread (chunkLen t)).length⟩

theorem length_chunkHead (t : TaskFileSend) (file : FileStream) :
    (chunkHead t file).length = packHeadLen + FileGet.size := by
  rw [chunkHead, List.length_append, NetCmd.length_bytes, FileGet.length_bytes]

/-- The memory that the next chunk is read into. -/
def chunkRoom (t : TaskFileSend) : List Byte := (t.mSendBuffer.createMem (chunkLen t)).data.getD []

/-- The memory behind `data` with the next chunk read into it. -/
def chunkMem (t : TaskFileSend) (file : FileStream) : List Byte :=
  poke (poke (chunkRoom t) 0 (List.replicate (chunkLen t) 0)) 0 (file.fread (chunkLen t))

/-- The state with the next chunk's header in the send buffer and the chunk behind it. -/
def loadChunk (w : World TaskFileSend) (file : FileStream) : World TaskFileSend :=
  { w with
    obj := { w.obj with
      mSendBuffer := { w.obj.mSendBuffer with
        totalLen := packHeadLen + FileGet.size
        bSendCmd := true
        cmd := w.obj.mSendBuffer.cmd.put (chunkHead w.obj file) (by rw [length_chunkHead]; decide)
        dataLen := (file.fread (chunkLen w.obj)).length
        data := some (chunkMem w.obj file) }
      mpFile := some (file.afterRead (chunkLen w.obj))
      mHasReadLen := w.obj.mHasReadLen + UInt32.ofNat (file.fread (chunkLen w.obj)).length
      mFrameCount := w.obj.mFrameCount + 1 }
    trace := w.trace ++ [.queued (nextChunk w.obj file)] }

section
variable {Q : Int → World TaskFileSend → Prop} {E : Stop → World TaskFileSend → Prop}
  {w : World TaskFileSend}

@[simp] theorem wp_modifySend (f : TagFileSendBuffer → TagFileSendBuffer)
    {Q : Unit → World TaskFileSend → Prop} : wp (modifySend f) Q E w ↔
      Q () { w with obj := { w.obj with mSendBuffer := f w.obj.mSendBuffer } } := Iff.rfl

@[simp] theorem wp_putCmd (msg : ModuleMsg) (index : UInt32) {Q : Unit → World TaskFileSend → Prop} :
    wp (putCmd msg index) Q E w ↔ Q () (loadCmd w msg index) := Iff.rfl

theorem wp_readChunk (file : FileStream) {Q : Unit → World TaskFileSend → Prop}
    (loads : chunkLen w.obj ≤ (chunkRoom w.obj).length → Q () (loadChunk w file))
    (overflows : ¬ chunkLen w.obj ≤ (chunkRoom w.obj).length → ∀ b,
      E .fault { w with obj := { w.obj with mSendBuffer := b } }) : wp (readChunk file) Q E w := by
  simp only [readChunk, wp_bind, wp_self, wp_modifySend, wp_ite, wp_modifySelf, wp_emit, wp_throw]
  by_cases room : chunkLen w.obj ≤ (chunkRoom w.obj).length
  · have post := loads room
    rw [if_pos (by exact room)]
    simp only [loadChunk, chunkMem, chunkHead, nextChunk] at post
    unfold chunkRoom TagFileSendBuffer.createMem at post
    unfold TagFileSendBuffer.createMem
    split at post
    case isTrue new =>
      simp only [new, if_true]
      exact post
    case isFalse new =>
      simp only [new, Bool.false_eq_true, if_false]
      exact post
  · rw [if_neg (by exact room)]
    exact overflows room _

/-- What `tcpSendData` leaves alone: everything but the send buffer and the socket. -/
theorem wp_tcpSendData_frame
    (returns : ∀ ret b part sends, Q ret { w with
      obj := { w.obj with mSendBuffer := b }, wire := w.wire ++ part, sends := sends })
    (blocks : ∀ part sends, E .blocked { w with wire := w.wire ++ part, sends := sends }) :
    wp tcpSendData Q E w := by
  simp only [tcpSendData, wp_bind, wp_self]
  refine wp_sendEx _ (fun ret part left => ?_) (fun part left => blocks _ _)
  simp only [wp_ite, wp_bind, wp_self, wp_modifySend, wp_pure]
  split <;> split <;> exact returns ret _ _ _

/-- `writeBuffer`, outcome by outcome. -/
theorem wp_writeBuffer
    (resumes : w.obj.mSendBuffer.totalLen ≠ 0 → wp tcpSendData Q E w)
    (message : w.obj.mSendBuffer.totalLen = 0 → w.obj.mHasReadLen < w.obj.mFileLen →
      ∀ val rest, w.obj.mMsgQueue = val :: rest →
      wp tcpSendData Q E (loadCmd { w with obj := { w.obj with mMsgQueue := rest } } val 0))
    (silent : w.obj.mSendBuffer.totalLen = 0 → w.obj.mHasReadLen < w.obj.mFileLen →
      w.obj.mbSendingData = false → Q 0 w)
    (chunk : w.obj.mSendBuffer.totalLen = 0 → w.obj.mHasReadLen < w.obj.mFileLen →
      w.obj.mMsgQueue = [] → chunkLen w.obj ≤ (chunkRoom w.obj).length →
      ∀ file, w.obj.mpFile = some file → wp tcpSendData Q E (loadChunk w file))
    (overflow : ¬ chunkLen w.obj ≤ (chunkRoom w.obj).length → ∀ b,
      E .fault { w with obj := { w.obj with mSendBuffer := b } })
    (noFile : w.obj.mpFile = none → E .fault w)
    (ending : w.obj.mSendBuffer.totalLen = 0 → ¬ w.obj.mHasReadLen < w.obj.mFileLen →
      wp tcpSendData (fun _ => Q ownSockExit) E (loadCmd w .dataEnd 0)) :
    wp writeBuffer Q E w := by
  simp only [writeBuffer, wp_bind, wp_self]
  by_cases free : w.obj.mSendBuffer.totalLen = 0
  case neg =>
    rw [if_neg free]
    exact resumes free
  rw [if_pos free]
  by_cases more : w.obj.mHasReadLen < w.obj.mFileLen
  case neg =>
    simp only [if_neg more, pushSendCmd, wp_bind, wp_putCmd, wp_pure]
    exact ending free more
  rw [if_pos more]
  cases queue : w.obj.mMsgQueue with
  | cons val rest =>
    simp only [sendVariedCmd, wp_bind, wp_modifySelf, wp_putCmd]
    exact message free more val rest queue
  | nil =>
    cases flag : w.obj.mbSendingData with
    | false => exact silent free more flag
    | true =>
      cases file : w.obj.mpFile with
      | none => exact noFile file
      | some file' =>
        simp only [if_true, wp_bind]
        exact wp_readChunk file' (fun room => chunk free more queue room file' file) overflow

/-- What a command does to the write event: a pause leaves it alone, the others arm it. -/
def Arms (w : World TaskFileSend) (c : Control) (writing event : Bool) : Prop :=
  ((∃ v, c = .setpause v) ∧ writing = w.mWriting ∧ event = w.writeEvent) ∨
    (writing = true ∧ (w.mWriting = w.writeEvent → event = true))

/-- What `dispatch` does with a complete frame: nothing, or it recognises a command, which may arm the
write event or let data be sent. -/
theorem wp_dispatch {Q : Option Int → World TaskFileSend → Prop} (faults : E .fault w)
    (other : Q none w)
    (commandFaults : ∀ c, E .fault { w with trace := w.trace ++ [.command c] })
    (command : ∀ c sending writing event, (sending = w.obj.mbSendingData ∨ sending = true) →
      Arms w c writing event → Q none { w with
        obj := { w.obj with mbSendingData := sending }
        trace := w.trace ++ [.command c], mWriting := writing, writeEvent := event }) :
    wp dispatch Q E w := by
  simp only [dispatch, wp_bind, wp_readerBuf]
  split
  case isFalse => exact other
  simp only [wp_bind]
  refine wp_getValue _ faults fun name _ => ?_
  split
  case isTrue =>
    simp only [controlStart, wp_bind, wp_emit]
    refine wp_getValue _ (commandFaults _) fun _ _ => wp_getValue _ (commandFaults _) fun _ _ => ?_
    simp only [wp_addWriteEvent, wp_pure]
    split
    · rename_i armed
      exact command .start _ _ _ (.inl rfl) (.inr ⟨armed, fun same => same.symm.trans armed⟩)
    · exact command .start _ _ _ (.inl rfl) (.inr ⟨rfl, fun _ => rfl⟩)
  split
  case isTrue =>
    simp only [controlSetpause, wp_bind]
    refine wp_getValue _ faults fun value _ => ?_
    exact command (.setpause (atoi value)) _ _ _ (.inl rfl) (.inl ⟨⟨_, rfl⟩, rfl, rfl⟩)
  split
  case isTrue =>
    simp only [controlSend, wp_bind, wp_emit, wp_modifySelf, wp_addWriteEvent, wp_pure]
    split
    · rename_i armed
      exact command .send _ _ _ (.inr rfl) (.inr ⟨armed, fun same => same.symm.trans armed⟩)
    · exact command .send _ _ _ (.inr rfl) (.inr ⟨rfl, fun _ => rfl⟩)
  exact other

/-- What the constructor leaves alone: it queues its login reply and sends. -/
theorem wp_construct {Q : Unit → World TaskFileSend → Prop}
    (returns : ∀ b wire sends, Q () { w with
      obj := { w.obj with mSendBuffer := b }, wire := wire, sends := sends,
      trace := w.trace ++ [.queued (loginRetFrame (fileInfo w.obj.mFileLen))] })
    (blocks : ∀ b wire sends, E .blocked { w with
      obj := { w.obj with mSendBuffer := b }, wire := wire, sends := sends,
      trace := w.trace ++ [.queued (loginRetFrame (fileInfo w.obj.mFileLen))] }) :
    wp construct Q E w := by
  simp only [construct, wp_bind, wp_self, wp_modifySend, wp_emit]
  exact wp_tcpSendData_frame (fun _ b part sends => returns b (w.wire ++ part) sends)
    (fun part sends => blocks _ (w.wire ++ part) sends)

/-- A new task's constructor comes back when the results end the send of its reply. -/
theorem construct_answers (fresh : w.obj.mSendBuffer.hasSendLen = 0) :
    wp construct (fun _ _ => w.Answers) (fun _ _ => ¬ w.Answers) w := by
  simp only [construct, wp_bind, wp_self, wp_modifySend, wp_emit, tcpSendData, if_true, fresh]
  refine (wp_sendReply _).mono (fun ret t answers => ?_) fun _ _ waits => waits
  simp only [wp_ite, wp_bind, wp_self, wp_modifySend, wp_pure]
  split <;> split <;> exact answers

theorem wp_construct_fresh {Q : Unit → World TaskFileSend → Prop}
    (fresh : w.obj.mSendBuffer.hasSendLen = 0)
    (returns : ∀ b wire sends, w.Answers → Q () { w with
      obj := { w.obj with mSendBuffer := b }, wire := wire, sends := sends,
      trace := w.trace ++ [.queued (loginRetFrame (fileInfo w.obj.mFileLen))] })
    (blocks : ∀ b wire sends, ¬ w.Answers → E .blocked { w with
      obj := { w.obj with mSendBuffer := b }, wire := wire, sends := sends,
      trace := w.trace ++ [.queued (loginRetFrame (fileInfo w.obj.mFileLen))] }) :
    wp construct Q E w := by
  have frame := wp_construct (w := w) (Q := fun r t => w.Answers → Q r t)
    (E := fun e t => ¬ w.Answers → E e t) returns blocks
  exact (frame.and (construct_answers fresh)).mono (fun _ _ both => both.1 both.2)
    (fun _ _ both => both.1 both.2)

end

end TaskFileSend

end GreatEvent
