import GreatEvent.Server.FileRecvSteps
import GreatEvent.Server.StreamCut

/-!
# What a file receiving task makes of its stream

The receiver takes whole frames off the stream and appends each media frame's
chunk to the file (`Receives`). It asks of its peer only that the frames fit
its buffer and that a chunk stays inside its frame (`Sound`), and takes any
part of the stream at a time.
-/

namespace GreatEvent

open Lib FrameReader

namespace TaskFileRecv

/-- `all` is the frames taken, the part `p` of the next and what has not been read. -/
structure Taken (all : List Byte) (fs : List (List Byte)) (p inp : List Byte) : Prop where
  stream : all = fs.flatten ++ (p ++ inp)
  whole : ∀ f ∈ fs, netFraming.Whole f ∧ packHeadLen < f.length
  isOpen : Open p

theorem Taken.wholes {all p inp : List Byte} {fs : List (List Byte)} (taken : Taken all fs p inp) :
    ∀ f ∈ fs, netFraming.Whole f :=
  fun f member => (taken.whole f member).1

/-- More has been sent. -/
theorem Taken.grow {all p inp : List Byte} {fs : List (List Byte)} (taken : Taken all fs p inp)
    (more : List Byte) : Taken (all ++ more) fs p (inp ++ more) := by
  refine ⟨?_, taken.whole, taken.isOpen⟩
  rw [taken.stream]
  simp only [List.append_assoc]

/-- The frame in progress has been completed. -/
theorem Taken.complete {all p bytes rest : List Byte} {fs : List (List Byte)} (taken : Taken all fs p (bytes ++ rest))
    (isWhole : netFraming.Whole (p ++ bytes)) (long : packHeadLen < (p ++ bytes).length) :
    Taken all (fs ++ [p ++ bytes]) [] rest := by
  refine ⟨?_, ?_, .inl Framing.unfinished_nil⟩
  · rw [taken.stream]
    simp
  · intro f member
    rcases List.mem_append.mp member with old | new
    · exact taken.whole f old
    · rw [List.mem_singleton.mp new]
      exact ⟨isWhole, long⟩

/-- The receiver in the middle of its stream. -/
structure Receiving (all : List Byte) (fs : List (List Byte)) (p : List Byte)
    (c : Core TaskFileRecv) : Prop where
  taken : Taken all fs p c.inp
  file : c.obj.mwFile = stored fs
  holds : ∃ mem, c.obj.mRecvBuffer.Holds mem p ∧ mem.length = bufferLen

/-- The receiver at any moment. -/
def Received (all : List Byte) (c : Core TaskFileRecv) : Prop :=
  ∃ fs p, Taken all fs p c.inp ∧ c.obj.mwFile = stored fs

theorem Receiving.received {all p : List Byte} {fs : List (List Byte)} {c : Core TaskFileRecv}
    (receiving : Receiving all fs p c) : Received all c :=
  ⟨fs, p, receiving.taken, receiving.file⟩

section
variable {all p : List Byte} {fs messages : List (List Byte)} {w : World TaskFileRecv}

theorem stored_concat_other {f : List Byte} (other : (NetCmd.ofBytes f).dwCmd ≠ ModuleMsg.video.code) :
    stored (fs ++ [f]) = stored fs := by
  rw [stored_append]
  simp [stored, stores, other]

theorem stored_concat_video {f : List Byte} (video : (NetCmd.ofBytes f).dwCmd = ModuleMsg.video.code) :
    stored (fs ++ [f]) = stored fs ++ chunkIn f := by
  rw [stored_append]
  simp [stored, stores, video]

/-- **A complete frame goes to the file**, and the reader starts again. -/
theorem dispatch_receives {f pad : List Byte} (taken : Taken all (fs ++ [f]) [] w.inp)
    (file : w.obj.mwFile = stored fs) (head : (w.obj.mRecvBuffer.buff : List Byte) = f ++ pad)
    (length : w.obj.mRecvBuffer.buff.length = bufferLen) (long : packHeadLen < f.length) (isSound : Sound f) :
    wp dispatch (Finishes fun _ t => ∃ fs p, Receiving all fs p t.core) (fun _ t => Received all t.core) w := by
  have code : w.obj.mRecvBuffer.head = NetCmd.ofBytes f := by
    rw [RecvBuffer.head, head]
    exact NetCmd.ofBytes_append_left (Nat.le_of_lt long) _
  have resets : ∀ t : World TaskFileRecv, t.inp = w.inp → t.obj.mwFile = stored (fs ++ [f]) →
      t.obj.mRecvBuffer.buff.length = bufferLen → ∃ fs p, Receiving all fs p t.resetReader.core := by
    intro t inp file length
    refine ⟨fs ++ [f], [], ?_, file, t.obj.mRecvBuffer.buff, ?_, length⟩
    · show Taken all _ _ t.inp
      exact inp ▸ taken
    · exact holds_reset (τ := TaskFileRecv) t.obj.mRecvBuffer
  have silent : w.obj.mRecvBuffer.head.dwCmd ≠ ModuleMsg.video.code → w.obj.mwFile = stored (fs ++ [f]) := by
    intro other
    rw [code] at other
    rw [stored_concat_other other, file]
  apply wp_dispatch
  · intro other ret _
    exact resets _ rfl (silent other) length
  · intro (video : w.obj.mRecvBuffer.head.dwCmd = ModuleMsg.video.code) _ ret _
    rw [code] at video
    obtain ⟨-, same⟩ := isSound.chunkIn_append video pad
    refine resets _ rfl ?_ length
    show w.obj.mwFile ++ chunkIn w.obj.mRecvBuffer.buff = _
    rw [head, same, file, stored_concat_video video]
  · intro (video : w.obj.mRecvBuffer.head.dwCmd = ModuleMsg.video.code) past
    rw [code] at video
    have fits := (isSound.chunkIn_append video pad).1
    rw [← head] at fits
    exact absurd fits past
  · intro other total part sends ret _
    exact resets _ rfl (silent other) length
  · intro other total part sends
    exact ⟨fs ++ [f], [], taken, silent other⟩

/-- **A read takes the stream further**, if the stream is a part of sound messages. -/
theorem readBuffer_receives (whole : ∀ m ∈ messages, netFraming.Whole m)
    (sound : ∀ m ∈ messages, Sound m) (sent : all <+: messages.flatten)
    (receiving : Receiving all fs p w.core) :
    wp readBuffer (fun _ t => ∃ fs p, Receiving all fs p t.core) (fun _ t => Received all t.core) w := by
  obtain ⟨mem, holds, sized⟩ := receiving.holds
  obtain ⟨unsent, sent⟩ := sent
  have taken := receiving.taken
  have file : w.obj.mwFile = stored fs := receiving.file
  refine wp_readBuffer_stream holds sized ?_ ?_ ?_
  · intro ret b bytes rest recvs obs come holds _ _
    refine ⟨fs, p ++ bytes, ⟨?_, taken.whole, holds.isOpen⟩, file, mem, holds, sized⟩
    show all = fs.flatten ++ (p ++ bytes ++ rest)
    rw [List.append_assoc, ← come]
    exact taken.stream
  · intro b bytes rest recvs obs come isWhole long fits holds _
    rw [show w.core.inp = bytes ++ rest from come] at taken
    have next := taken.complete isWhole long
    have isSound : Sound (p ++ bytes) := by
      obtain ⟨hs, same, -⟩ := Framing.prefix_of_flatten next.wholes whole
        (by rw [← sent, next.stream, List.append_assoc])
      exact sound _ (by rw [same]; simp)
    have head : (b.buff : List Byte) = (p ++ bytes) ++ mem.drop (p ++ bytes).length := holds
    have length : b.buff.length = bufferLen := by
      rw [head, List.length_append, List.length_drop, ← sized]
      omega
    exact dispatch_receives (w := w.read b rest recvs (obs ++ [.frame (p ++ bytes)])) next file head length long
      isSound
  · intro b bytes rest recvs obs come exceeds _ _ _
    -- the header in question is that of a message, which fits
    have stream : fs.flatten ++ ((p ++ bytes) ++ (rest ++ unsent)) = messages.flatten := by
      rw [← sent, taken.stream, show w.core.inp = bytes ++ rest from come]
      simp
    obtain ⟨m, hs, same, length, -⟩ := Framing.next_of_flatten taken.wholes whole stream exceeds.1
    have fits := (sound m (by rw [same]; simp)).fits
    have too := exceeds.2
    rw [length] at too
    exact absurd fits (Nat.not_le_of_lt too)

/-- The receiver between callbacks, or stopped inside one. -/
def Receives (all : List Byte) (w : World TaskFileRecv) : Prop :=
  (∃ fs p, Receiving all fs p w.core) ∨ (¬ w.Live ∧ Received all w.core)

theorem Receives.received (receives : Receives all w) : Received all w.core := by
  rcases receives with ⟨fs, p, receiving⟩ | ⟨-, received⟩
  · exact receiving.received
  · exact received

/-- A turn takes the stream further. -/
theorem Receives.fire {w' : World TaskFileRecv} {e : Event}
    (whole : ∀ m ∈ messages, netFraming.Whole m) (sound : ∀ m ∈ messages, Sound m)
    (sent : all <+: messages.flatten) (receives : Receives all w) (fired : fire w e = some w') :
    Receives all w' := by
  obtain ⟨fs, p, receiving⟩ := receives.resolve_right fun stopped => stopped.1 (live_of_fire fired)
  have turn := fire_rule fired (Q := fun c => ∃ fs p, Receiving all fs p c) (H := Received all) ?_ ?_
  · rcases turn with receiving | ⟨halted, received⟩
    · exact .inl receiving
    · exact .inr ⟨World.not_live_of_halted halted, received⟩
  · rintro c by' ⟨fs, p, taken, file, holds⟩
    exact ⟨fs, p, taken, file, holds⟩
  · intro d same _ _ _
    rw [← same] at receiving
    cases e with
    | read recvs sends => exact readBuffer_receives whole sound sent receiving
    | write sends => exact ⟨fs, p, receiving⟩
    | timer => exact ⟨fs, p, receiving⟩
    | readTimeout => exact ⟨fs, p, receiving⟩
    | writeTimeout => exact ⟨fs, p, receiving⟩

/-- More arrives. -/
theorem Receives.grow (receives : Receives all w) (more : List Byte) :
    Receives (all ++ more) { w with inp := w.inp ++ more } := by
  rcases receives with ⟨fs, p, receiving⟩ | ⟨stopped, fs, p, taken, file⟩
  · exact .inl ⟨fs, p, receiving.taken.grow more, receiving.file, receiving.holds⟩
  · exact .inr ⟨stopped, fs, p, taken.grow more, file⟩

end

/-- A new task, its login request sent; `inp` has arrived already. -/
def start (raw : RawBuffer) (filepath inp : List Byte) (sends : List SendResult) :
    World TaskFileRecv :=
  after (construct filepath) { accepted (init raw) inp with sends := sends }

theorem receives_start (raw : RawBuffer) (filepath inp : List Byte) (sends : List SendResult) :
    Receives inp (start raw filepath inp sends) := by
  have new : ∀ c : Core TaskFileRecv, c.obj = init raw → c.inp = inp →
      Receiving inp [] [] c := by
    rintro c obj rfl
    refine ⟨⟨rfl, nofun, .inl Framing.unfinished_nil⟩, by rw [obj]; rfl, raw.1, ?_, raw.2⟩
    rw [obj]
    exact .head rfl rfl rfl (by decide)
  refine after_of_wp ?_
  simp only [construct, wp_bind]
  refine wp_sendCmd _ _ _ (fun ret part sends => ?_) (fun part sends => ?_)
  · exact .inl ⟨[], [], new _ rfl rfl⟩
  · exact .inr ⟨fun live => Option.some_ne_none _ live.2, (new _ rfl rfl).received⟩

end TaskFileRecv

end GreatEvent
