import GreatEvent.Server.EventCall
import GreatEvent.Server.Reading

/-!
# What the callbacks of a playback task can do

One rule for each callback, listing its outcomes once: which state it
reaches before it sends, or that it sends nothing. A frame is put into the
send buffer by `loadCmd` or `loadVideo`, and what remains of every outcome
is one call of `tcpSendData`. The invariants of the later modules are proved
from these rules.
-/

namespace GreatEvent

open Lib FrameReader

namespace TaskPlayback

/-- The state with a header in the send buffer. -/
def loadCmd (w : World TaskPlayback) (msg : ModuleMsg) (index : UInt32) : World TaskPlayback :=
  { w with
    obj := { w.obj with mSendBuffer := { w.obj.mSendBuffer with
      cmd := w.obj.mSendBuffer.cmd.put (Frame.ofCmd msg index).cmd.bytes
        (Frame.ofCmd_fits msg index)
      totalLen := packHeadLen
      bSendCmd := true } }
    trace := w.trace ++ [.queued (Frame.ofCmd msg index)] }

/-- The word a media frame's `dwFrameType` is left at for other streams. -/
def staleType (w : World TaskPlayback) : UInt32 := wordAt w.obj.mSendBuffer.cmd.bytes packHeadLen

/-- The state with a media frame's header in the send buffer and its packet behind it. -/
def loadVideo (w : World TaskPlayback) (p : Packet) : World TaskPlayback :=
  { w with
    obj := { w.obj with mSendBuffer := { w.obj.mSendBuffer with
      totalLen := packHeadLen + AvFrame.size
      bSendCmd := true
      cmd := w.obj.mSendBuffer.cmd.put (p.netCmd.bytes ++ (p.avFrame (staleType w)).bytes)
        (by rw [List.length_append, NetCmd.length_bytes, AvFrame.length_bytes]; decide)
      avpack := patchStartCodes p.frameType p.pkt } }
    trace := w.trace ++ [.queued (p.frame (staleType w))] }

/-- The state with one packet taken from the demuxer and counted. -/
def takePacket (w : World TaskPlayback) : World TaskPlayback :=
  { w with obj := { w.obj with
    mFrameCount := w.obj.mFrameCount + 1
    mFfmpeg := { w.obj.mFfmpeg with results := w.obj.mFfmpeg.results.tail } } }

section
variable {Q : Int → World TaskPlayback → Prop} {E : Stop → World TaskPlayback → Prop}
  {w : World TaskPlayback}

@[simp] theorem wp_modifySend (f : TagSendBuffer → TagSendBuffer)
    {Q : Unit → World TaskPlayback → Prop} : wp (modifySend f) Q E w ↔
      Q () { w with obj := { w.obj with mSendBuffer := f w.obj.mSendBuffer } } := Iff.rfl

@[simp] theorem wp_putCmd (msg : ModuleMsg) (index : UInt32) {Q : Unit → World TaskPlayback → Prop} :
    wp (putCmd msg index) Q E w ↔ Q () (loadCmd w msg index) := Iff.rfl

@[simp] theorem wp_putVideo (p : Packet) {Q : Unit → World TaskPlayback → Prop} :
    wp (putVideo p) Q E w ↔ Q () (loadVideo w p) := Iff.rfl

theorem wp_sendVariedCmd (iVal : ModuleMsg) :
    wp (sendVariedCmd iVal) Q E w ↔ wp tcpSendData Q E (loadCmd w iVal 0) := by
  simp only [sendVariedCmd, wp_bind, wp_putCmd]

/-- `pushSendCmd` on the four messages it sends at once. -/
theorem wp_pushSendCmd {iVal : ModuleMsg} (index : UInt32)
    (sent : iVal = .dataEnd ∨ iVal = .seekCmpd ∨ iVal = .sectionEnd ∨ iVal = .exeRet) :
    wp (pushSendCmd iVal index) Q E w ↔ wp tcpSendData Q E (loadCmd w iVal index) := by
  rcases sent with rfl | rfl | rfl | rfl <;> simp only [pushSendCmd, wp_bind, wp_putCmd]

/-- `writeBuffer`, outcome by outcome. -/
theorem wp_writeBuffer
    (resumes : w.obj.mSendBuffer.totalLen ≠ 0 → wp tcpSendData Q E w)
    (message : w.obj.mSendBuffer.totalLen = 0 → ∀ val rest, w.obj.mMsgQueue = val :: rest →
      wp tcpSendData Q E (loadCmd { w with obj := { w.obj with mMsgQueue := rest } } val 0))
    (silent : w.obj.mSendBuffer.totalLen = 0 → w.obj.mMsgQueue = [] →
      w.obj.mbSendingData = false → Q 0 w)
    (media : w.obj.mSendBuffer.totalLen = 0 → w.obj.mMsgQueue = [] → w.obj.mbSendingData = true →
      w.obj.mFrameCount < segFrameCount → ∀ p, w.obj.mFfmpeg.results.headD none = some p →
      wp tcpSendData Q E (loadVideo (takePacket w) p))
    (ending : w.obj.mSendBuffer.totalLen = 0 → w.obj.mMsgQueue = [] → w.obj.mbSendingData = true →
      w.obj.mFrameCount < segFrameCount → w.obj.mFfmpeg.results.headD none = none →
      wp tcpSendData (fun _ => Q 0) E (loadCmd { takePacket w with
        obj := { (takePacket w).obj with mbSendingData := false } } .dataEnd 0))
    (section' : w.obj.mSendBuffer.totalLen = 0 → w.obj.mMsgQueue = [] →
      w.obj.mbSendingData = true → ¬ w.obj.mFrameCount < segFrameCount →
      wp tcpSendData Q E (loadCmd { w with
        obj := { w.obj with mFrameCount := 0, mbSendingData := false } } .sectionEnd 0)) :
    wp writeBuffer Q E w := by
  simp only [writeBuffer, wp_bind, wp_self]
  by_cases free : w.obj.mSendBuffer.totalLen = 0
  case neg =>
    rw [if_neg free]
    exact resumes free
  rw [if_pos free]
  cases queue : w.obj.mMsgQueue with
  | cons val rest =>
    simp only [wp_bind, wp_modifySelf, wp_sendVariedCmd]
    exact message free val rest queue
  | nil =>
    cases flag : w.obj.mbSendingData with
    | false => exact silent free queue flag
    | true =>
      simp only [if_true, writeMedia, getPackageData, wp_bind, wp_self, wp_ite, wp_modifySelf, wp_pure,
        wp_pushSendCmd _ (.inr (.inr (.inl rfl)))]
      split
      case isTrue more =>
        cases next : w.obj.mFfmpeg.results.headD none with
        | some p =>
          simp only [wp_bind, wp_putVideo]
          exact media free queue flag more p next
        | none =>
          simp only [wp_bind, wp_modifySelf, wp_pure, wp_pushSendCmd _ (.inl rfl)]
          exact ending free queue flag more next
      case isFalse full => exact section' free queue flag full

/-- What a seek does before it sends: the demuxer is moved and the send buffer emptied. -/
def seeking (w : World TaskPlayback) (v : Int) : World TaskPlayback :=
  { w with
    obj := { w.obj with
      mFfmpeg := { w.obj.mFfmpeg with results := w.obj.mFfmpeg.seekTo (UInt32.ofInt v) }
      mSendBuffer := w.obj.mSendBuffer.reset }
    trace := w.trace ++ [.command (.seek v)] }

/-- The end of a seek: the message queue as `rest` decides, and sending goes on. -/
def seekDone (w : World TaskPlayback) (rest : Int) : World TaskPlayback :=
  { w with obj := { w.obj with
    mMsgQueue := if rest ≠ packHeadLen then w.obj.mMsgQueue ++ [.seekCmpd] else w.obj.mMsgQueue
    mbSendingData := true } }

/-- The memory holds a request to seek: `recvPackData` finds the command and both attributes. -/
structure RequestsSeek (pData : List Byte) : Prop where
  control : (NetCmd.ofBytes pData).dwCmd = ModuleMsg.controlPlay.code
  name : attrValue pData (ascii "name") = some (ascii "seek")
  value : (attrValue pData (ascii "value")).isSome = true

instance (pData : List Byte) : Decidable (RequestsSeek pData) :=
  decidable_of_iff ((NetCmd.ofBytes pData).dwCmd = ModuleMsg.controlPlay.code ∧
      attrValue pData (ascii "name") = some (ascii "seek") ∧ (attrValue pData (ascii "value")).isSome = true)
    ⟨fun ⟨control, name, value⟩ => ⟨control, name, value⟩,
      fun requests => ⟨requests.control, requests.name, requests.value⟩⟩

/-- The demuxer is moved, then the two replies are sent. -/
theorem wp_controlSeek {Q : Option Int → World TaskPlayback → Prop} {index : UInt32} {value : List Byte}
    (found : attrValue (buf w.obj).buff (ascii "value") = some value)
    (seek : wp tcpSendData (fun rest w' => wp tcpSendData (fun _ w'' => Q none (seekDone w'' rest)) E
      (loadCmd w' .exeRet index)) E (loadCmd (seeking w (atoi value)) .seekCmpd index)) :
    wp (do controlSeek index; return none) Q E w := by
  simp only [controlSeek, wp_bind, wp_getValue_found found]
  simp only [wp_emit, wp_modifySelf, wp_modifySend, wp_pushSendCmd _ (.inr (.inl rfl)),
    wp_pushSendCmd _ (.inr (.inr (.inr rfl)))]
  refine seek.mono (fun rest w' first => ?_) (fun _ _ stopped => stopped)
  refine first.mono (fun _ w'' done => ?_) (fun _ _ stopped => stopped)
  simp only [wp_ite, wp_modifySelf, wp_pure]
  unfold seekDone at done
  split
  case isTrue different =>
    rw [if_pos different] at done
    simp only [wp_bind, wp_modifySelf]
    exact done
  case isFalse same =>
    rw [if_neg same] at done
    exact done

theorem wp_dispatch_seek {Q : Option Int → World TaskPlayback → Prop} (requests : RequestsSeek (buf w.obj).buff)
    (seek : ∀ v, wp tcpSendData (fun rest w' => wp tcpSendData
        (fun _ w'' => Q none (seekDone w'' rest)) E (loadCmd w' .exeRet (buf w.obj).head.dwIndex)) E
      (loadCmd (seeking w v) .seekCmpd (buf w.obj).head.dwIndex)) :
    wp dispatch Q E w := by
  obtain ⟨value, found⟩ := Option.isSome_iff_exists.mp requests.value
  have notStart : ascii "seek" ≠ ascii "start" := by decide
  have notPause : ascii "seek" ≠ ascii "setpause" := by decide
  simp only [dispatch, wp_bind, wp_readerBuf]
  rw [if_pos (show (buf w.obj).head.dwCmd = ModuleMsg.controlPlay.code from requests.control)]
  rw [wp_bind, wp_getValue_found requests.name, if_neg notStart, if_neg notPause, if_pos rfl]
  exact wp_controlSeek found (seek _)

/-- What `dispatch` does with a complete frame, outcome by outcome. A lookup may fault before the
command is recognised, and in a `start` command after it. -/
theorem wp_dispatch {Q : Option Int → World TaskPlayback → Prop}
    (other : Q none w) (faults : E .fault w)
    (startFaults : E .fault { w with trace := w.trace ++ [.command .start] })
    (start : ∀ w', (w' = { w with trace := w.trace ++ [.command .start] } ∨
      w' = { w with trace := w.trace ++ [.command .start], mWriting := true, writeEvent := true }) →
      Q none w')
    (pause : ∀ v, v ≠ 0 → Q none { w with trace := w.trace ++ [.command (.setpause v)] })
    (resume : Q none { w with
      obj := { w.obj with mbSendingData := true }
      trace := w.trace ++ [.command (.setpause 0)] })
    (seek : ∀ v, RequestsSeek (buf w.obj).buff → wp tcpSendData (fun rest w' => wp tcpSendData
        (fun _ w'' => Q none (seekDone w'' rest)) E (loadCmd w' .exeRet (buf w.obj).head.dwIndex)) E
      (loadCmd (seeking w v) .seekCmpd (buf w.obj).head.dwIndex)) :
    wp dispatch Q E w := by
  simp only [dispatch, wp_bind, wp_readerBuf]
  split
  case isFalse => exact other
  case isTrue control =>
    simp only [wp_bind]
    refine wp_getValue _ faults fun name named => ?_
    split
    case isTrue =>
      simp only [controlStart, wp_bind, wp_emit]
      refine wp_getValue _ startFaults fun _ _ => wp_getValue _ startFaults fun _ _ => ?_
      simp only [wp_addWriteEvent, wp_pure]
      split
      · exact start _ (.inl rfl)
      · exact start _ (.inr rfl)
    split
    case isTrue =>
      simp only [controlSetpause, wp_bind]
      refine wp_getValue _ faults fun value _ => ?_
      simp only [wp_emit, wp_ite]
      split
      case isTrue zero =>
        rw [zero]
        exact resume
      case isFalse nonzero => exact pause _ nonzero
    split
    case isTrue isSeek =>
      cases found : attrValue (buf w.obj).buff (ascii "value") with
      | none =>
        simp only [controlSeek, wp_bind]
        refine wp_getValue _ faults fun value found' => ?_
        cases found.symm.trans found'
      | some value => exact wp_controlSeek found (seek _ ⟨control, isSeek ▸ named, by rw [found]; rfl⟩)
    exact other

end

end TaskPlayback

end GreatEvent
