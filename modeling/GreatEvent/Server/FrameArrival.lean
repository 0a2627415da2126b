import GreatEvent.Server.StreamCut

/-!
# A frame on its way to a reader

`Arriving` follows one frame from the moment it is the next input: the reader
has `p` of it and the rest is what comes next. However the `recv` calls cut
it, a call of `readBuffer` either takes some of it and leaves it arriving, or
takes the rest and hands it to `dispatch`, with what was in the buffer before
it still behind it.
-/

namespace GreatEvent

open Lib FrameReader

/-- The reader has taken a part of `f`; the rest of it and then `rest` are the input. -/
def Arriving (f rest mem : List Byte) (b : RecvBuffer) (inp : List Byte) : Prop :=
  ∃ p q, b.Holds mem p ∧ p ++ q = f ∧ inp = q ++ rest

theorem Windows.reading {obs : List Obs} (windows : Windows obs) : AllReading obs := by
  intro o member
  obtain ⟨⟨_, _, _, rfl⟩, -⟩ := windows o member
  rfl

section
variable {f rest mem p q : List Byte} {b : RecvBuffer} {inp : List Byte}

/-- Between two frames the next one is arriving. -/
theorem arriving_next (holds : b.Holds mem []) : Arriving f rest mem b (f ++ rest) :=
  ⟨[], f, holds, rfl, rfl⟩

/-- A reader in the middle of its stream does not hold a whole frame with a body. -/
theorem open_not_whole (isOpen : Open p) (whole : netFraming.Whole f) (long : packHeadLen < f.length) :
    ¬ f <+: p := by
  rintro ⟨more, rfl⟩
  rcases isOpen with unfinished | ⟨header, -⟩
  · exact unfinished.not_whole_append whole rfl
  · rw [List.length_append] at header
    omega

/-- While a frame is arriving there is more of it to come. -/
theorem Arriving.more (arriving : Arriving f rest mem b inp) (whole : netFraming.Whole f)
    (long : packHeadLen < f.length) : rest.length < inp.length := by
  obtain ⟨p, q, holds, rfl, rfl⟩ := arriving
  have some : q ≠ [] := by
    rintro rfl
    apply open_not_whole holds.isOpen whole long
    exact ⟨[], by simp⟩
  have := List.length_pos_iff.mpr some
  rw [List.length_append]
  omega

end

section
variable {τ : Type} [FrameReader τ] {dispatch : Act τ (Option Int)} {Q : Int → World τ → Prop}
  {E : Stop → World τ → Prop} {w : World τ} {f rest mem : List Byte}

/-- **One call of `readBuffer` while a frame is arriving.** -/
theorem wp_readBuffer_arriving (arriving : Arriving f rest mem (buf w.obj) w.inp)
    (sized : mem.length = size τ) (whole : netFraming.Whole f) (long : packHeadLen < f.length)
    (fits : f.length ≤ size τ)
    (quiet : ∀ ret b inp recvs obs, Arriving f rest mem b inp → AllReading obs →
      Q ret (w.read b inp recvs obs))
    (complete : ∀ b recvs obs, b.buff = f ++ mem.drop f.length → AllReading obs →
      wp dispatch (Finishes Q) E (w.read b rest recvs obs)) :
    wp (readBuffer dispatch) Q E w := by
  obtain ⟨p, q, holds, parts, input⟩ := arriving
  have stream : p ++ w.inp = f ++ rest := by rw [input, ← List.append_assoc, parts]
  apply wp_readBuffer_stream holds sized
  · intro ret b bytes rest' recvs obs come held windows _
    have inside : p ++ bytes <+: f := by
      have same : (p ++ bytes) ++ rest' = f ++ rest := by rw [List.append_assoc, ← come, stream]
      rcases List.append_eq_append_iff.mp same with ⟨more, whole', -⟩ | ⟨more, past, -⟩
      · exact ⟨more, whole'.symm⟩
      · exact absurd ⟨more, past.symm⟩ (open_not_whole held.isOpen whole long)
    obtain ⟨more, whole'⟩ := inside
    apply quiet ret b rest' recvs obs _ windows.reading
    refine ⟨p ++ bytes, more, held, whole', ?_⟩
    have same : (p ++ bytes) ++ rest' = (p ++ bytes) ++ (more ++ rest) := by
      rw [List.append_assoc, ← come, stream, ← whole', List.append_assoc]
    exact List.append_cancel_left same
  · intro b bytes rest' recvs obs come whole' _ _ stored windows
    have same : (p ++ bytes) ++ rest' = f ++ rest := by rw [List.append_assoc, ← come, stream]
    obtain ⟨isFrame, isRest⟩ := whole'.eq_of_append whole same
    rw [isFrame] at stored ⊢
    rw [isRest]
    apply complete b recvs _ stored
    apply windows.reading.append
    intro o member
    rw [List.mem_singleton.mp member]
    rfl
  · intro b bytes rest' recvs obs come exceeds _ _ _
    have same : (p ++ bytes) ++ rest' = f ++ rest := by rw [List.append_assoc, ← come, stream]
    have announced : netFraming.frameLen (p ++ bytes) = f.length := by
      rw [← Framing.frameLen_append exceeds.1 rest', same, whole.frameLen_append]
    have := exceeds.2
    omega

end

end GreatEvent
