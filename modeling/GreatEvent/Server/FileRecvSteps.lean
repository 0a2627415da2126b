import GreatEvent.Server.EventCall
import GreatEvent.Server.Reading

/-!
# What the callbacks of a file receiving task can do

Only reading does anything: a chunk goes to the file, a login reply is
answered, every other frame is dropped.
-/

namespace GreatEvent

open Lib FrameReader

namespace TaskFileRecv

/-- What a complete frame in `buff` appends to the file: `nLength` bytes from behind the `FILE_GET`. -/
def chunkIn (buff : List Byte) : List Byte :=
  (buff.drop (packHeadLen + FileGet.size)).take (wordAt buff (packHeadLen + 4)).toNat

/-- The length in the `FILE_GET` stays inside the buffer. -/
def ChunkFits (buff : List Byte) : Prop :=
  (wordAt buff (packHeadLen + 4)).toNat ≤ (buff.drop (packHeadLen + FileGet.size)).length

/-- What a whole frame adds to the file. -/
def stores (f : List Byte) : List Byte :=
  if (NetCmd.ofBytes f).dwCmd = ModuleMsg.video.code then chunkIn f else []

/-- What a sequence of frames makes of the file. -/
def stored (fs : List (List Byte)) : List Byte := (fs.map stores).flatten

theorem stored_append (fs gs : List (List Byte)) : stored (fs ++ gs) = stored fs ++ stored gs := by
  simp [stored]

/-- A frame that the receiver has room for, whose `FILE_GET` stays inside it. -/
structure Sound (f : List Byte) : Prop where
  fits : f.length ≤ bufferLen
  chunk : (NetCmd.ofBytes f).dwCmd = ModuleMsg.video.code →
    packHeadLen + FileGet.size ≤ f.length ∧ ChunkFits f

/-- A chunk is the same with other bytes behind the frame. -/
theorem Sound.chunkIn_append {f : List Byte} (sound : Sound f)
    (video : (NetCmd.ofBytes f).dwCmd = ModuleMsg.video.code) (stale : List Byte) :
    ChunkFits (f ++ stale) ∧ chunkIn (f ++ stale) = chunkIn f := by
  obtain ⟨long, fits⟩ := sound.chunk video
  have word : wordAt (f ++ stale) (packHeadLen + 4) = wordAt f (packHeadLen + 4) :=
    wordAt_append_left long stale
  have body : (f ++ stale).drop (packHeadLen + FileGet.size) =
      f.drop (packHeadLen + FileGet.size) ++ stale := List.drop_append_of_le_length long
  unfold ChunkFits at fits ⊢
  unfold chunkIn
  rw [word, body, List.length_append]
  exact ⟨by omega, List.take_append_of_le_length fits⟩

section
variable {E : Stop → World TaskFileRecv → Prop} {w : World TaskFileRecv}

/-- What `sendCmd` leaves alone: everything but the socket. -/
theorem wp_sendCmd (dwCmd : ModuleMsg) (dwIndex : UInt32) (lpData : List Byte)
    {Q : Int → World TaskFileRecv → Prop}
    (returns : ∀ ret part sends, Q ret { w with wire := w.wire ++ part, sends := sends })
    (blocks : ∀ part sends, E .blocked { w with wire := w.wire ++ part, sends := sends }) :
    wp (sendCmd dwCmd dwIndex lpData) Q E w := by
  simp only [sendCmd, wp_bind]
  refine wp_sendEx _ (fun iRet part left => ?_) (fun part left => blocks part left)
  simp only [wp_ite, wp_pure]
  split
  · exact returns iRet part left
  · split
    · exact returns 0 part left
    · refine wp_sendEx _ (fun ret more left' => ?_) (fun more left' => ?_)
      · simp only [List.append_assoc]
        exact returns ret (part ++ more) left'
      · simp only [List.append_assoc]
        exact blocks (part ++ more) left'

/-- What `dispatch` does with a complete frame, outcome by outcome. -/
theorem wp_dispatch {Q : Option Int → World TaskFileRecv → Prop}
    (other : (buf w.obj).head.dwCmd ≠ ModuleMsg.video.code → Q none w)
    (stores : (buf w.obj).head.dwCmd = ModuleMsg.video.code → ChunkFits (buf w.obj).buff →
      Q none { w with obj := { w.obj with mwFile := w.obj.mwFile ++ chunkIn (buf w.obj).buff } })
    (faults : (buf w.obj).head.dwCmd = ModuleMsg.video.code → ¬ ChunkFits (buf w.obj).buff →
      E .fault w)
    (starts : (buf w.obj).head.dwCmd ≠ ModuleMsg.video.code → ∀ total part sends, Q none { w with
      obj := { w.obj with mTotalLen := total }, wire := w.wire ++ part, sends := sends })
    (startBlocks : (buf w.obj).head.dwCmd ≠ ModuleMsg.video.code → ∀ total part sends,
      E .blocked { w with
        obj := { w.obj with mTotalLen := total }, wire := w.wire ++ part, sends := sends }) :
    wp dispatch Q E w := by
  simp only [dispatch, wp_bind, wp_readerBuf]
  split
  case isTrue video =>
    simp only [storeChunk, wp_bind, wp_readerBuf]
    split
    case isTrue fits =>
      simp only [wp_modifySelf, wp_pure]
      exact stores video fits
    case isFalse past =>
      simp only [wp_throw]
      exact faults video past
  case isFalse notVideo =>
    split
    case isTrue login =>
      simp only [startTransfer, wp_bind, wp_readerBuf, wp_modifySelf]
      refine wp_sendCmd _ _ _ (fun ret part sends => ?_) (fun part sends => ?_)
      · simp only [wp_pure]
        exact starts notVideo _ part sends
      · exact startBlocks notVideo _ part sends
    case isFalse => exact other notVideo

end

end TaskFileRecv

end GreatEvent
