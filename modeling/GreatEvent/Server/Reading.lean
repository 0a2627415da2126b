import GreatEvent.Server.RecvBuffer

/-!
# What one call of `readBuffer` does

Rules for the reader, whatever class it belongs to. `wp_recvPackData` and
`wp_readBuffer_head` run its two phases; `wp_readBuffer` says what no call
ever touches: everything but the receive buffer, the input and the trace is
as before when `dispatch` starts, and when it does not start, at the end.
`wp_readBuffer_done` says when it starts, and what memory it finds.
-/

namespace GreatEvent

open Lib FrameReader

variable {τ : Type} [FrameReader τ]

theorem wp_lookup (pName : List Byte) {Q : Lookup → World τ → Prop}
    {E : Stop → World τ → Prop} {w : World τ} (faults : E .fault w)
    (returns : ∀ l, protoGetValueByName (buf w.obj).buff pName = some l → Q l w) :
    wp (lookup pName) Q E w := by
  simp only [lookup, wp_bind, wp_readerBuf]
  split
  case h_1 found => exact returns _ found
  case h_2 => exact faults

theorem wp_getValue (pName : List Byte)
    {Q : List Byte → World τ → Prop} {E : Stop → World τ → Prop} {w : World τ}
    (faults : E .fault w) (returns : ∀ v, attrValue (buf w.obj).buff pName = some v → Q v w) :
    wp (getValue pName) Q E w := by
  simp only [getValue, wp_bind]
  exact wp_lookup pName faults fun l found => returns _ (by rw [attrValue, found, Option.map_some])

/-- An attribute that is there is returned. -/
theorem wp_getValue_found {pName v : List Byte} {Q : List Byte → World τ → Prop}
    {E : Stop → World τ → Prop} {w : World τ} (found : attrValue (buf w.obj).buff pName = some v) :
    wp (getValue pName) Q E w ↔ Q v w := by
  obtain ⟨l, result, stored⟩ := Option.map_eq_some_iff.mp found
  simp only [getValue, lookup, wp_bind, wp_readerBuf, result, wp_pure, stored]

/-- The state after reader operations: the buffer, the input and the results left are new, some
observations have been added. -/
def World.read (w : World τ) (b : RecvBuffer) (rest : List Byte) (recvs : List RecvResult)
    (obs : List Obs) : World τ :=
  { w with obj := setBuf b w.obj, inp := rest, recvs := recvs, trace := w.trace ++ obs }

theorem World.read_read (w : World τ) (b b' : RecvBuffer) (rest rest' : List Byte)
    (recvs recvs' : List RecvResult) (obs obs' : List Obs) :
    (w.read b rest recvs obs).read b' rest' recvs' obs' = w.read b' rest' recvs' (obs ++ obs') := by
  simp only [World.read, setBuf_setBuf, List.append_assoc]

@[simp] theorem World.buf_read (w : World τ) (b : RecvBuffer) (rest : List Byte)
    (recvs : List RecvResult) (obs : List Obs) : buf (w.read b rest recvs obs).obj = b :=
  buf_setBuf b w.obj

/-- `mRecvBuffer.reset()` at the end of `recvPackData`. -/
def World.resetReader (w : World τ) : World τ :=
  { w with obj := setBuf (reset τ (buf w.obj)) w.obj }

/-- The end of `recvPackData` after `dispatch`: its early return, or the reset and the positive
count of the last `recv`. -/
def Finishes (Q : Int → World τ → Prop) : Option Int → World τ → Prop
  | some r, w => Q r w
  | none, w => ∀ ret, 0 < ret → Q ret w.resetReader

/-- Only the reading side has been observed. -/
def AllReading (obs : List Obs) : Prop := ∀ o ∈ obs, o.isReading = true

theorem AllReading.window (size : Nat) (off len : Int) : AllReading [.window size off len] := by
  intro o member
  rw [List.mem_singleton.mp member]
  rfl

theorem AllReading.append {obs obs' : List Obs} (first : AllReading obs)
    (second : AllReading obs') : AllReading (obs ++ obs') := by
  intro o member
  rcases List.mem_append.mp member with old | new
  · exact first o old
  · exact second o new

/-- Reading queues no frame. -/
theorem queuedIn_reading {obs : List Obs} (reading : AllReading obs) : queuedIn obs = [] := by
  apply List.filterMap_eq_nil_iff.mpr
  intro o member
  have isReading := reading o member
  cases o <;> first | rfl | cases isReading

/-- Reading recognises no command. -/
theorem commandsIn_reading {obs : List Obs} (reading : AllReading obs) : commandsIn obs = [] := by
  apply List.filterMap_eq_nil_iff.mpr
  intro o member
  have isReading := reading o member
  cases o <;> first | rfl | cases isReading

section
variable {dispatch : Act τ (Option Int)} {Q : Int → World τ → Prop} {E : Stop → World τ → Prop}

/-- `recvPackData`, by what its `recv` returned. -/
theorem wp_recvPackData {w : World τ} {o l ret : Int} {buff : List Byte}
    (offset : o = packHeadLen + (buf w.obj).hasRecvLen)
    (length : l = (buf w.obj).totalLen - (buf w.obj).hasRecvLen)
    (result : recvCount l w.inp.length (w.recvs.headD .again) = ret)
    (stored : buff = poke (buf w.obj).buff o.toNat (w.inp.take ret.toNat))
    (returns : (ret ≤ 0 ∨ (buf w.obj).hasRecvLen + ret ≠ (buf w.obj).totalLen) →
      ¬ (0 < ret ∧ (size τ : Int) < o + ret) →
      Q ret (w.read { buf w.obj with
          buff := buff
          hasRecvLen := if 0 < ret then (buf w.obj).hasRecvLen + ret else (buf w.obj).hasRecvLen }
        (w.inp.drop ret.toNat) w.recvs.tail [.window (size τ) o l]))
    (faults : 0 < ret → (size τ : Int) < o + ret →
      E .fault (w.read (buf w.obj) (w.inp.drop ret.toNat) w.recvs.tail [.window (size τ) o l]))
    (completes : 0 < ret → (buf w.obj).hasRecvLen + ret = (buf w.obj).totalLen →
      o + ret ≤ size τ →
      wp dispatch (Finishes Q) E (w.read { buf w.obj with
          buff := buff
          hasRecvLen := (buf w.obj).totalLen }
        (w.inp.drop ret.toNat) w.recvs.tail [.window (size τ) o l,
          .frame (buff.take (packHeadLen + (buf w.obj).totalLen.toNat))])) :
    wp (recvPackData dispatch) Q E w := by
  subst offset length stored
  simp only [recvPackData, wp_bind, wp_readerBuf]
  refine wp_recv _ _ _ result (fun inside => ?_) (fun pos past => ?_)
  · simp only [wp_modifyBuf, World.received, wp_ite, wp_bind, wp_readerBuf, buf_setBuf, setBuf_setBuf,
      wp_pure, wp_emit]
    by_cases pos : 0 < ret
    · rw [if_pos pos]
      by_cases whole : (buf w.obj).hasRecvLen + ret = (buf w.obj).totalLen
      · rw [if_pos whole]
        have done := completes pos whole (by omega)
        simp only [World.read] at done
        rw [← whole] at done ⊢
        rw [List.append_assoc]
        refine done.mono (fun r w' post => ?_) (fun _ _ stopped => stopped)
        cases r with
        | some r => exact post
        | none => exact post ret pos
      · have quiet := returns (.inr whole) inside
        rw [if_pos pos] at quiet
        rw [if_neg whole]
        exact quiet
    · have quiet := returns (.inl (by omega)) inside
      rw [if_neg pos] at quiet
      rw [if_neg pos]
      exact quiet
  · have fault := faults pos past
    simpa only [World.received, World.read, setBuf_buf] using fault

/-- The header branch of `readBuffer`, by what its `recv` returned. -/
theorem wp_readBuffer_head {w : World τ} {o l ret : Int} {buff : List Byte}
    (head : (buf w.obj).bProcHead = true)
    (offset : o = (buf w.obj).hasRecvLen)
    (length : l = packHeadLen - (buf w.obj).hasRecvLen)
    (result : recvCount l w.inp.length (w.recvs.headD .again) = ret)
    (stored : buff = poke (buf w.obj).buff o.toNat (w.inp.take ret.toNat))
    (returns : (ret ≤ 0 ∨ o + ret ≠ packHeadLen) → ¬ (0 < ret ∧ (size τ : Int) < o + ret) →
      Q ret (w.read { buf w.obj with
          buff := buff
          hasRecvLen := if 0 < ret then o + ret else o }
        (w.inp.drop ret.toNat) w.recvs.tail [.window (size τ) o l]))
    (faults : 0 < ret → (size τ : Int) < o + ret →
      E .fault (w.read (buf w.obj) (w.inp.drop ret.toNat) w.recvs.tail [.window (size τ) o l]))
    (turns : 0 < ret → o + ret = packHeadLen → o + ret ≤ size τ →
      wp (recvPackData dispatch) Q E (w.read ⟨buff, false, 0, asInt (NetCmd.ofBytes buff).dwLength⟩
        (w.inp.drop ret.toNat) w.recvs.tail [.window (size τ) o l])) :
    wp (readBuffer dispatch) Q E w := by
  subst offset length stored
  simp only [readBuffer, wp_bind, wp_readerBuf, head, if_true]
  refine wp_recv _ _ _ result (fun inside => ?_) (fun pos past => ?_)
  · simp only [wp_modifyBuf, World.received, wp_ite, wp_bind, wp_readerBuf, buf_setBuf, setBuf_setBuf,
      wp_pure]
    by_cases pos : 0 < ret
    · rw [if_pos pos]
      by_cases whole : (buf w.obj).hasRecvLen + ret = packHeadLen
      · rw [if_pos whole]
        exact turns pos whole (by omega)
      · have quiet := returns (.inr whole) inside
        rw [if_pos pos] at quiet
        rw [if_neg whole]
        exact quiet
    · have quiet := returns (.inl (by omega)) inside
      rw [if_neg pos] at quiet
      rw [if_neg pos]
      exact quiet
  · have fault := faults pos past
    simpa only [World.received, World.read, setBuf_buf] using fault

theorem readBuffer_body {w : World τ} (body : (buf w.obj).bProcHead = false) :
    wp (readBuffer dispatch) Q E w ↔ wp (recvPackData dispatch) Q E w := by
  simp only [readBuffer, wp_bind, wp_readerBuf, body, Bool.false_eq_true, if_false]

private theorem wp_recvPackData_quiet {w : World τ}
    (returns : ∀ ret b rest recvs obs, rest <:+ w.inp → AllReading obs →
      Q ret (w.read b rest recvs obs))
    (faults : ∀ b rest recvs obs, rest <:+ w.inp → AllReading obs → E .fault (w.read b rest recvs obs))
    (completes : ∀ b rest recvs obs, rest <:+ w.inp → AllReading obs →
      wp dispatch (Finishes Q) E (w.read b rest recvs obs)) :
    wp (recvPackData dispatch) Q E w := by
  refine wp_recvPackData rfl rfl rfl rfl ?_ ?_ ?_
  · intro _ _
    exact returns _ _ _ _ _ (List.drop_suffix _ _) (AllReading.window _ _ _)
  · intro _ _
    exact faults _ _ _ _ (List.drop_suffix _ _) (AllReading.window _ _ _)
  · intro _ _ _
    refine completes _ _ _ _ (List.drop_suffix _ _) ?_
    intro o member
    simp only [List.mem_cons, List.not_mem_nil, or_false] at member
    rcases member with rfl | rfl <;> rfl

/-- **What `readBuffer` leaves alone.** Until `dispatch` starts only the reader moves. -/
theorem wp_readBuffer {w : World τ}
    (returns : ∀ ret b rest recvs obs, rest <:+ w.inp → AllReading obs →
      Q ret (w.read b rest recvs obs))
    (faults : ∀ b rest recvs obs, rest <:+ w.inp → AllReading obs → E .fault (w.read b rest recvs obs))
    (completes : ∀ b rest recvs obs, rest <:+ w.inp → AllReading obs →
      wp dispatch (Finishes Q) E (w.read b rest recvs obs)) :
    wp (readBuffer dispatch) Q E w := by
  cases head : (buf w.obj).bProcHead with
  | true =>
    refine wp_readBuffer_head head rfl rfl rfl rfl ?_ ?_ ?_
    · intro _ _
      exact returns _ _ _ _ _ (List.drop_suffix _ _) (AllReading.window _ _ _)
    · intro _ _
      exact faults _ _ _ _ (List.drop_suffix _ _) (AllReading.window _ _ _)
    · intro _ _ _
      refine wp_recvPackData_quiet ?_ ?_ ?_
      · intro ret b rest recvs obs suffix reading
        rw [World.read_read]
        exact returns _ _ _ _ _ (suffix.trans (List.drop_suffix _ _))
          ((AllReading.window _ _ _).append reading)
      · intro b rest recvs obs suffix reading
        rw [World.read_read]
        exact faults _ _ _ _ (suffix.trans (List.drop_suffix _ _))
          ((AllReading.window _ _ _).append reading)
      · intro b rest recvs obs suffix reading
        rw [World.read_read]
        exact completes _ _ _ _ (suffix.trans (List.drop_suffix _ _))
          ((AllReading.window _ _ _).append reading)
  | false => exact (readBuffer_body head).mpr (wp_recvPackData_quiet returns faults completes)

end

/-! ## Whether a read completes a frame -/

/-- The `recv` of `recvPackData` brings the rest of the frame. -/
def BodyDone (size : Nat) (b : RecvBuffer) (inp : List Byte) (recvs : List RecvResult) : Prop :=
  let ret := recvCount (b.totalLen - b.hasRecvLen) inp.length (recvs.headD .again)
  0 < ret ∧ b.hasRecvLen + ret = b.totalLen ∧ packHeadLen + b.totalLen ≤ size

/-- The `recv` calls of a `readBuffer` bring the rest of the frame. -/
def FrameDone (size : Nat) (b : RecvBuffer) (inp : List Byte) (recvs : List RecvResult) : Prop :=
  if b.bProcHead then
    let ret := recvCount (packHeadLen - b.hasRecvLen) inp.length (recvs.headD .again)
    let buff := poke b.buff b.hasRecvLen.toNat (inp.take ret.toNat)
    0 < ret ∧ b.hasRecvLen + ret = packHeadLen ∧
      BodyDone size ⟨buff, false, 0, asInt (NetCmd.ofBytes buff).dwLength⟩ (inp.drop ret.toNat) recvs.tail
  else BodyDone size b inp recvs

instance (size : Nat) (b : RecvBuffer) (inp : List Byte) (recvs : List RecvResult) :
    Decidable (BodyDone size b inp recvs) :=
  inferInstanceAs (Decidable (_ ∧ _ ∧ _))

instance (size : Nat) (b : RecvBuffer) (inp : List Byte) (recvs : List RecvResult) :
    Decidable (FrameDone size b inp recvs) :=
  inferInstanceAs (Decidable (if b.bProcHead then _ ∧ _ ∧ BodyDone size _ _ _ else BodyDone size b inp recvs))

/-- The reader's memory when the `recv` of `recvPackData` has returned. -/
def bodyMemory (b : RecvBuffer) (inp : List Byte) (recvs : List RecvResult) : List Byte :=
  let ret := recvCount (b.totalLen - b.hasRecvLen) inp.length (recvs.headD .again)
  poke b.buff (packHeadLen + b.hasRecvLen).toNat (inp.take ret.toNat)

/-- The reader's memory when the `recv` calls of a `readBuffer` that completes a frame have returned. -/
def frameMemory (b : RecvBuffer) (inp : List Byte) (recvs : List RecvResult) : List Byte :=
  if b.bProcHead then
    let ret := recvCount (packHeadLen - b.hasRecvLen) inp.length (recvs.headD .again)
    let buff := poke b.buff b.hasRecvLen.toNat (inp.take ret.toNat)
    bodyMemory ⟨buff, false, 0, asInt (NetCmd.ofBytes buff).dwLength⟩ (inp.drop ret.toNat) recvs.tail
  else bodyMemory b inp recvs

/-- Nothing but windows has been observed. -/
def AllWindows (obs : List Obs) : Prop := ∀ o ∈ obs, ∃ size off len, o = .window size off len

theorem AllWindows.single (size : Nat) (off len : Int) : AllWindows [.window size off len] := by
  intro o member
  exact ⟨size, off, len, List.mem_singleton.mp member⟩

theorem AllWindows.append {obs obs' : List Obs} (first : AllWindows obs) (second : AllWindows obs') :
    AllWindows (obs ++ obs') := by
  intro o member
  rcases List.mem_append.mp member with old | new
  · exact first o old
  · exact second o new

section
variable {dispatch : Act τ (Option Int)} {Q : Int → World τ → Prop} {E : Stop → World τ → Prop} {w : World τ}

theorem wp_recvPackData_done
    (quiet : ¬ BodyDone (size τ) (buf w.obj) w.inp w.recvs → ∀ ret b rest recvs obs, AllWindows obs →
      Q ret (w.read b rest recvs obs) ∧ E .fault (w.read b rest recvs obs))
    (complete : BodyDone (size τ) (buf w.obj) w.inp w.recvs → ∀ b rest recvs obs f,
      b.buff = bodyMemory (buf w.obj) w.inp w.recvs → AllWindows obs →
      wp dispatch (Finishes Q) E (w.read b rest recvs (obs ++ [.frame f]))) :
    wp (recvPackData dispatch) Q E w := by
  apply wp_recvPackData rfl rfl rfl rfl
  · intro short inside
    refine (quiet ?_ _ _ _ _ _ (.single _ _ _)).1
    rintro ⟨pos, whole, -⟩
    rcases short with none | short
    · omega
    · exact short whole
  · intro pos past
    refine (quiet ?_ 0 _ _ _ _ (.single _ _ _)).2
    rintro ⟨-, whole, fits⟩
    omega
  · intro pos whole fits
    exact complete ⟨pos, whole, by omega⟩ _ _ _ [_] _ rfl (.single _ _ _)

/-- **A `readBuffer` completes a frame just when its `recv` calls bring the rest of it.** -/
theorem wp_readBuffer_done
    (quiet : ¬ FrameDone (size τ) (buf w.obj) w.inp w.recvs → ∀ ret b rest recvs obs, AllWindows obs →
      Q ret (w.read b rest recvs obs) ∧ E .fault (w.read b rest recvs obs))
    (complete : FrameDone (size τ) (buf w.obj) w.inp w.recvs → ∀ b rest recvs obs f,
      b.buff = frameMemory (buf w.obj) w.inp w.recvs → AllWindows obs →
      wp dispatch (Finishes Q) E (w.read b rest recvs (obs ++ [.frame f]))) :
    wp (readBuffer dispatch) Q E w := by
  cases head : (buf w.obj).bProcHead with
  | false =>
    have same : FrameDone (size τ) (buf w.obj) w.inp w.recvs ↔ BodyDone (size τ) (buf w.obj) w.inp w.recvs := by
      rw [FrameDone, if_neg (by rw [head]; decide)]
    have memory : frameMemory (buf w.obj) w.inp w.recvs = bodyMemory (buf w.obj) w.inp w.recvs := by
      rw [frameMemory, if_neg (by rw [head]; decide)]
    rw [readBuffer_body head]
    rw [same, memory] at complete
    exact wp_recvPackData_done (fun open' => quiet fun done => open' (same.mp done)) complete
  | true =>
    have room := head_le_size (τ := τ)
    unfold FrameDone at quiet complete
    unfold frameMemory at complete
    rw [if_pos head] at quiet complete
    rw [if_pos head] at complete
    apply wp_readBuffer_head head rfl rfl rfl rfl
    · intro short _
      refine (quiet ?_ _ _ _ _ _ (.single _ _ _)).1
      rintro ⟨pos, whole, -⟩
      rcases short with none | short
      · omega
      · exact short whole
    · intro pos past
      refine (quiet ?_ 0 _ _ _ _ (.single _ _ _)).2
      rintro ⟨-, whole, -⟩
      omega
    · intro pos whole _
      apply wp_recvPackData_done
      · intro open' ret b rest recvs obs windows
        rw [World.buf_read] at open'
        rw [World.read_read]
        exact quiet (fun done => open' done.2.2) ret b rest recvs _ ((AllWindows.single _ _ _).append windows)
      · intro done b rest recvs obs f memory windows
        rw [World.buf_read] at done memory
        rw [World.read_read, ← List.append_assoc]
        exact complete ⟨pos, whole, done⟩ b rest recvs _ f memory ((AllWindows.single _ _ _).append windows)

end

end GreatEvent
