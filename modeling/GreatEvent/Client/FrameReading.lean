import GreatEvent.Client.NetDataClient

/-!
# Where `RecvData` stands in its stream

`RecvCmd` takes a whole message of any kind. `RecvData` takes the payload of
`MODULE_MSG_VIDEO` only, and for a video message without payload the `Recv`
of nothing fails: after such a frame, or any other frame with a payload, the
next call does not start at a header. `Readable` is what is left.
-/

namespace GreatEvent

open Lib

namespace NetDataClient

section
variable {f : Frame} (rest : List Byte)

/-- The header of the frame the stream starts with is received. -/
theorem recvHead_bytes (f : Frame) (cuts : List Nat) :
    ∃ cuts', recvHead cuts (f.bytes ++ rest) =
      (⟨true, f.cmd.bytes, f.body ++ rest, cuts'⟩,
        if f.cmd.dwFlag = netFlag then some f.cmd else none) := by
  have head : f.bytes ++ rest = f.cmd.bytes ++ (f.body ++ rest) := List.append_assoc ..
  have long : packHeadLen ≤ (f.bytes ++ rest).length := by
    rw [head, List.length_append, NetCmd.length_bytes]
    exact Nat.le_add_right _ _
  obtain ⟨cuts', all⟩ := tcpRecv_all cuts _ _ (show 0 < packHeadLen by decide) long
  refine ⟨cuts', ?_⟩
  rw [recvHead, all, head, List.take_left' f.cmd.length_bytes, List.drop_left' f.cmd.length_bytes]
  simp only [NetCmd.ofBytes_bytes, if_true]

theorem recvHead_frame (cuts : List Nat) (flag : f.cmd.dwFlag = netFlag) :
    ∃ cuts', recvHead cuts (f.bytes ++ rest) =
      (⟨true, f.cmd.bytes, f.body ++ rest, cuts'⟩, some f.cmd) := by
  obtain ⟨cuts', head⟩ := recvHead_bytes rest f cuts
  exact ⟨cuts', by rw [head, if_pos flag]⟩

/-- The payload of the frame is received, if it has one. -/
theorem recv_body (cuts : List Nat) (some : f.body ≠ []) :
    ∃ cuts', tcpRecv cuts f.cmd.dwLength.toNat (f.body ++ rest) = ⟨true, f.body, rest, cuts'⟩ := by
  have long : f.cmd.dwLength.toNat ≤ (f.body ++ rest).length := by
    rw [← f.body_len, List.length_append]
    exact Nat.le_add_right _ _
  have pos : 0 < f.cmd.dwLength.toNat := by
    rw [← f.body_len]
    exact List.length_pos_iff.mpr some
  obtain ⟨cuts', all⟩ := tcpRecv_all cuts _ _ pos long
  refine ⟨cuts', ?_⟩
  rw [all, List.take_left' f.body_len, List.drop_left' f.body_len]

end

/-- What `Work` can be sent: the right flag, not the end of the data, and a payload that fits. -/
structure WellFormed (f : Frame) : Prop where
  flag : f.cmd.dwFlag = netFlag
  goesOn : f.cmd.dwCmd ≠ ModuleMsg.dataEnd.code
  fits : f.cmd.dwLength.toNat ≤ workBufferLen

theorem WellFormed.body_fits {f : Frame} (wellFormed : WellFormed f) :
    f.body.length ≤ workBufferLen := by
  rw [f.body_len]
  exact wellFormed.fits

/-- What `RecvData` writes to the file lies in its buffer. -/
def CopyInside (b : WorkBuffer) : Prop :=
  (wordAt b.bytes 0 = 1 ∨ wordAt b.bytes 0 = 2) →
    0 ≤ asInt (wordAt b.bytes 4) ∧ AvFrame.size + asInt (wordAt b.bytes 4) ≤ workBufferLen

instance (b : WorkBuffer) : Decidable (CopyInside b) := inferInstanceAs (Decidable (_ → _))

/-- The frames that `RecvData` takes whole, with `b` in its buffer at the first of them: video with a
payload whose `AV_FRAME` stays inside the buffer, anything else without a payload. -/
def Readable (b : WorkBuffer) : (frames : List Frame) → (∀ f ∈ frames, WellFormed f) → Prop
  | [], _ => True
  | f :: fs, wellFormed =>
    let later : ∀ g ∈ fs, WellFormed g := fun g member => wellFormed g (List.mem_cons_of_mem _ member)
    if f.cmd.dwCmd = ModuleMsg.video.code then
      let filled := b.store f.body (wellFormed f List.mem_cons_self).body_fits
      f.body ≠ [] ∧ CopyInside filled ∧ Readable filled fs later
    else f.body = [] ∧ Readable b fs later

/-- Call after call returns TRUE and takes exactly its frame. Each frame comes with the cuts of its
call. -/
def Aligned : NetDataClient → List (Frame × List Nat) → Prop
  | _, [] => True
  | c, (f, cuts) :: rest =>
    ∃ c', c.recvData cuts = some (true, c') ∧ c.inp = f.bytes ++ c'.inp ∧ Aligned c' rest

section
variable {c : NetDataClient} {f : Frame} (rest : List Byte)

/-- `RecvData` on a video frame with a payload. -/
theorem recvData_video (cuts : List Nat) (arrives : c.inp = f.bytes ++ rest) (wellFormed : WellFormed f)
    (video : f.cmd.dwCmd = ModuleMsg.video.code) (some : f.body ≠ []) :
    c.recvData cuts = (storeVideo { c with
      inp := rest, lpData := c.lpData.store f.body wellFormed.body_fits }).map fun c => (true, c) := by
  obtain ⟨cuts', head⟩ := recvHead_frame rest cuts wellFormed.flag
  obtain ⟨cuts'', body⟩ := recv_body rest cuts' some
  rw [recvData, arrives, head]
  simp only [dif_pos wellFormed.fits, if_pos video, body, if_true]

/-- `RecvData` on a video frame without one. -/
theorem recvData_video_nil (cuts : List Nat) (arrives : c.inp = f.bytes ++ rest)
    (wellFormed : WellFormed f) (video : f.cmd.dwCmd = ModuleMsg.video.code) (none' : f.body = []) :
    ∃ c', c.recvData cuts = some (false, c') := by
  obtain ⟨cuts', head⟩ := recvHead_frame rest cuts wellFormed.flag
  have length : f.cmd.dwLength.toNat = 0 := by
    rw [← f.body_len, none']
    rfl
  rw [recvData, arrives, head]
  simp only [if_pos video, length, tcpRecv_nothing, Bool.false_eq_true, if_false]
  exact ⟨_, rfl⟩

/-- `RecvData` on anything else takes the header. -/
theorem recvData_other (cuts : List Nat) (arrives : c.inp = f.bytes ++ rest) (wellFormed : WellFormed f)
    (other : f.cmd.dwCmd ≠ ModuleMsg.video.code) :
    c.recvData cuts = some (true, { c with inp := f.body ++ rest }) := by
  obtain ⟨cuts', head⟩ := recvHead_frame rest cuts wellFormed.flag
  rw [recvData, arrives, head]
  simp only [dif_pos wellFormed.fits, if_neg other, wellFormed.goesOn, ne_eq, not_false_eq_true,
    decide_true]

/-- The copy to the file is the only thing that can go wrong with a video frame. -/
theorem storeVideo_inside (inside : CopyInside c.lpData) :
    ∃ file, c.storeVideo = some { c with mwFile := file } := by
  unfold storeVideo
  dsimp only
  split
  · rename_i copied
    rw [if_pos (inside copied)]
    exact ⟨_, rfl⟩
  · exact ⟨c.mwFile, rfl⟩

theorem storeVideo_outside (outside : ¬ CopyInside c.lpData) : c.storeVideo = none := by
  obtain ⟨copied, past⟩ := Classical.not_imp.mp outside
  unfold storeVideo
  dsimp only
  rw [if_pos copied, if_neg past]

end

/-- **When the reader stays aligned**: just for readable frames, however the stream is cut. -/
theorem aligned_iff {frames : List (Frame × List Nat)} {c : NetDataClient} {tail : List Byte}
    (wellFormed : ∀ f ∈ frames.map Prod.fst, WellFormed f)
    (arrives : c.inp = Frame.stream (frames.map Prod.fst) ++ tail) :
    Aligned c frames ↔ Readable c.lpData (frames.map Prod.fst) wellFormed := by
  induction frames generalizing c with
  | nil => exact Iff.rfl
  | cons first frames ih =>
    obtain ⟨f, cuts⟩ := first
    have isWell : WellFormed f := wellFormed f List.mem_cons_self
    have arrives : c.inp = f.bytes ++ (Frame.stream (frames.map Prod.fst) ++ tail) := by
      rw [arrives, List.map_cons, Frame.stream_cons, List.append_assoc]
    show _ ↔ Readable c.lpData (f :: frames.map Prod.fst) wellFormed
    rw [Aligned, Readable]
    dsimp only
    by_cases video : f.cmd.dwCmd = ModuleMsg.video.code
    · rw [if_pos video]
      by_cases some : f.body = []
      · obtain ⟨c', failed⟩ := recvData_video_nil _ cuts arrives isWell video some
        rw [failed]
        constructor
        · rintro ⟨_, same, -⟩
          cases same
        · exact fun readable => absurd some readable.1
      · rw [recvData_video _ cuts arrives isWell video some]
        by_cases inside : CopyInside (c.lpData.store f.body isWell.body_fits)
        · obtain ⟨file, stored⟩ := storeVideo_inside (c := { c with
            inp := Frame.stream (frames.map Prod.fst) ++ tail
            lpData := c.lpData.store f.body isWell.body_fits }) inside
          rw [stored, Option.map_some]
          constructor
          · rintro ⟨_, same, -, aligned⟩
            cases same
            exact ⟨some, inside, (ih _ rfl).mp aligned⟩
          · rintro ⟨-, -, readable⟩
            exact ⟨_, rfl, arrives, (ih _ rfl).mpr readable⟩
        · rw [storeVideo_outside inside]
          constructor
          · rintro ⟨_, same, -⟩
            cases same
          · exact fun readable => absurd readable.2.1 inside
    · rw [if_neg video, recvData_other _ cuts arrives isWell video]
      constructor
      · rintro ⟨_, same, taken, aligned⟩
        cases same
        have none' : f.body = [] :=
          List.self_eq_append_left.mp (List.append_cancel_left (arrives.symm.trans taken))
        refine ⟨none', (ih (c := { c with inp := f.body ++ _ }) _ ?_).mp aligned⟩
        rw [none']
        rfl
      · rintro ⟨none', readable⟩
        refine ⟨_, rfl, ?_, (ih (c := { c with inp := f.body ++ _ }) _ ?_).mpr readable⟩
        · rw [none']
          exact arrives
        · rw [none']
          rfl

/-- The reader stays aligned whatever well-formed frames come. -/
def AlwaysAligned : Prop :=
  ∀ (c : NetDataClient) (frames : List (Frame × List Nat)), (∀ f ∈ frames.map Prod.fst, WellFormed f) →
    c.inp = Frame.stream (frames.map Prod.fst) → Aligned c frames

/-- A video frame of one byte. -/
def sampleVideo : Frame :=
  ⟨⟨netFlag, ModuleMsg.video.code, 0, 17⟩, (⟨1, 1, 0, 0⟩ : AvFrame).bytes ++ [0x67], rfl⟩

/-- A video message without payload. -/
def emptyVideo : Frame := Frame.ofCmd .video 0

/-- A reply to a request, with its text. -/
def textReply : Frame := ⟨⟨netFlag, ModuleMsg.exeRet.code, 1, 3⟩, ascii "ok" ++ [0], rfl⟩

/-- **The reader does not stay aligned**: the text of a reply is left in front of the next frame, and a
video message without payload ends the reading. -/
theorem reader_misaligned : ¬ AlwaysAligned ∧
    ¬ Aligned (fresh textReply.bytes) [(textReply, [])] ∧
    ¬ Aligned (fresh emptyVideo.bytes) [(emptyVideo, [])] := by
  have reply : WellFormed textReply := ⟨rfl, by decide, by decide⟩
  have video : WellFormed emptyVideo := ⟨rfl, by decide, by decide⟩
  have text : ¬ Aligned (fresh textReply.bytes) [(textReply, [])] := by
    rintro ⟨c, taken, all, -⟩
    rw [recvData_other (c := fresh textReply.bytes) [] [] (List.append_nil _).symm reply
      (by decide)] at taken
    cases taken
    exact absurd (congrArg List.length all) (by decide)
  refine ⟨fun always => text (always _ _ ?_ ?_), text, ?_⟩
  · intro f member
    rw [List.mem_singleton.mp member]
    exact reply
  · exact (List.append_nil _).symm
  · rintro ⟨c, taken, -, -⟩
    obtain ⟨c', failed⟩ := recvData_video_nil (c := fresh emptyVideo.bytes) [] []
      (List.append_nil _).symm video rfl rfl
    rw [failed] at taken
    cases taken

/-- A media frame that comes in three pieces, and a heartbeat. -/
def sampleFrames : List (Frame × List Nat) := [(sampleVideo, [4, 11, 2]), (Frame.ofCmd .ping 0, [])]

theorem sampleFrames_wellFormed : ∀ f ∈ sampleFrames.map Prod.fst, WellFormed f := by
  intro f member
  rcases List.mem_cons.mp member with rfl | last
  · exact ⟨rfl, by decide, by decide⟩
  · rw [List.mem_singleton.mp last]
    exact ⟨rfl, by decide, by decide⟩

theorem aligned_iff_sample :
    Aligned (fresh (Frame.stream (sampleFrames.map Prod.fst))) sampleFrames := by
  refine (aligned_iff sampleFrames_wellFormed (List.append_nil _).symm).mpr ⟨by decide, ?_, rfl, trivial⟩
  decide +kernel

end NetDataClient

end GreatEvent
