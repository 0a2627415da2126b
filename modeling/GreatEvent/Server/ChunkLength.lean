import GreatEvent.Server.FrameArrival

/-!
# What a chunk's length takes from the receive buffer

`TaskFileRecv::recvPackData` appends to its file as many bytes as the second
word of the payload says, from behind the `FILE_GET`; neither that length nor
`dwLength` itself is compared with anything. `StoresOwn` is about the calls
of `readBuffer` that take one frame, however the kernel cuts it: they stay
inside the buffer, and what the frame adds to the file is the front of what
stands behind its `FILE_GET`. It is just when the frame fits the buffer and,
if it is a chunk that is dispatched at all, its length stays inside it
(`storesOwn_iff`).
-/

namespace GreatEvent

open Lib FrameReader

/-- The inner length of the payload: its second word. -/
def innerLength (body : List Byte) : Int := asInt (wordAt body 4)

/-- It stands in the payload, and so many bytes follow from offset `off` on. -/
structure LengthFits (off : Nat) (body : List Byte) : Prop where
  own : 8 ≤ body.length
  nonneg : 0 ≤ innerLength body
  inside : (innerLength body).toNat ≤ body.length - off

instance (off : Nat) (body : List Byte) : Decidable (LengthFits off body) :=
  decidable_of_iff
    (8 ≤ body.length ∧ 0 ≤ innerLength body ∧ (innerLength body).toNat ≤ body.length - off)
    ⟨fun h => ⟨h.1, h.2.1, h.2.2⟩, fun h => ⟨h.own, h.nonneg, h.inside⟩⟩

/-- The bytes it announces. -/
def innerBytes (off : Nat) (body : List Byte) : List Byte :=
  (body.drop off).take (innerLength body).toNat

theorem innerBytes_prefix (off : Nat) (body : List Byte) : innerBytes off body <+: body.drop off :=
  List.take_prefix _ _

section
variable {body stale : List Byte} {off : Nat}

/-- The length is that of any buffer the frame stands in. -/
theorem LengthFits.word (fits : LengthFits off body) (stale : List Byte) :
    wordAt (body ++ stale) 4 = wordAt body 4 := wordAt_append_left fits.own stale

/-- So are the bytes copied. -/
theorem LengthFits.copied (fits : LengthFits off body) (stale : List Byte) :
    ((body ++ stale).drop off).take (innerLength body).toNat = innerBytes off body := by
  have inside := fits.inside
  by_cases long : off ≤ body.length
  · rw [List.drop_append_of_le_length long, List.take_append_of_le_length]
    · rfl
    · rwa [List.length_drop]
  · have zero : (innerLength body).toNat = 0 := by omega
    rw [innerBytes, zero]
    simp

/-- A copy that is the front of the payload's own bytes is no longer than these. -/
theorem length_le_of_own {out : List Byte} (own : out <+: body.drop off) :
    out.length ≤ body.length - off := by
  have short := own.length_le
  rwa [List.length_drop] at short

/-- A word is at least what its most significant byte says. -/
theorem le_wordAt {bs : List Byte} {b : Byte} (top : bs[off + 3]? = some b) :
    b.toNat * 2 ^ 24 ≤ (wordAt bs off).toNat := by
  rw [← List.getElem?_drop] at top
  unfold wordAt
  match split : bs.drop off with
  | x :: y :: z :: d :: rest =>
    rw [split] at top
    obtain rfl : d = b := Option.some.inj top
    have low := x.toNat_lt
    have second := y.toNat_lt
    have third := z.toNat_lt
    have high := d.toNat_lt
    simp only [List.take_succ_cons, List.take_zero, leValue, UInt32.toNat_ofNat']
    omega
  | [] | [_] | [_, _] | [_, _, _] =>
    rw [split] at top
    cases top

/-- Behind a payload that ends before its second word the bytes 255 make that a large one. -/
theorem wordAt_filled {n : Nat} (short : body.length < 8) (room : 8 ≤ body.length + n) :
    2 ^ 31 ≤ (wordAt (body ++ List.replicate n 255) 4).toNat := by
  have top : (body ++ List.replicate n (255 : Byte))[4 + 3]? = some 255 := by
    rw [List.getElem?_append_right (by omega), List.getElem?_replicate, if_pos (by omega)]
  have large := le_wordAt top
  have value : (255 : Byte).toNat = 255 := rfl
  rw [value] at large
  omega

/-- With the sign bit set it is negative. -/
theorem asInt_neg {v : UInt32} (high : 2 ^ 31 ≤ v.toNat) : asInt v < 0 := by
  have bound := v.toNat_lt
  rw [asInt, if_neg (by omega)]
  omega

theorem asInt_nonneg {v : UInt32} (low : v.toNat < 2 ^ 31) : 0 ≤ asInt v := by
  rw [asInt, if_pos low]
  exact Int.natCast_nonneg _

theorem toNat_of_asInt_nonneg {v : UInt32} (nonneg : 0 ≤ asInt v) : (asInt v).toNat = v.toNat := by
  have bound := v.toNat_lt
  unfold asInt at nonneg ⊢
  split at nonneg
  · rw [if_pos (by assumption)]
    rfl
  · omega

/-- A length that is the payload's own and no longer than what is there fits. -/
theorem lengthFits_of_le (own : 8 ≤ body.length) (nonneg : 0 ≤ innerLength body)
    (inside : (wordAt body 4).toNat ≤ body.length - off) : LengthFits off body where
  own := own
  nonneg := nonneg
  inside := by rwa [innerLength, toNat_of_asInt_nonneg nonneg]

/-- Behind the header of a frame its payload is read. -/
theorem drop_frame (f : Frame) (stale : List Byte) (off : Nat) :
    (f.bytes ++ stale).drop (packHeadLen + off) = (f.body ++ stale).drop off := by
  rw [← List.drop_drop, Frame.bytes, List.append_assoc, List.drop_left' f.cmd.length_bytes]

theorem wordAt_frame (f : Frame) (stale : List Byte) (off : Nat) :
    wordAt (f.bytes ++ stale) (packHeadLen + off) = wordAt (f.body ++ stale) off := by
  rw [wordAt, drop_frame, ← wordAt]

end

/-! ## `TaskFileRecv::recvPackData` -/

namespace TaskFileRecv

/-- The reader stands between two frames and no callback is inside. -/
structure Between (w : World TaskFileRecv) : Prop where
  inHead : (buf w.obj).bProcHead = true
  nothing : (buf w.obj).hasRecvLen = 0
  sized : (buf w.obj).buff.length = bufferLen
  outside : w.halted = none

/-- Nothing of `rest`, which comes behind the frame, has been read. -/
def Within (rest : List Byte) (_ : World TaskFileRecv) (_ : Event) (w' : World TaskFileRecv) : Prop :=
  rest.length ≤ w'.inp.length

/-- The callbacks that read the frame stay inside the buffer, and when it has been read they have added
to the file the front of what stands behind its `FILE_GET`, whatever was in the buffer before. -/
def StoresOwn (f : Frame) : Prop :=
  ∃ out, out <+: f.body.drop FileGet.size ∧ ∀ (w w' : World TaskFileRecv) (rest : List Byte) (es : List Event),
    Between w → w.inp = f.bytes ++ rest → Runs fire (Within rest) w es w' →
      w'.halted ≠ some .fault ∧
      w'.obj.mwFile = if rest.length < w'.inp.length then w.obj.mwFile else w.obj.mwFile ++ out

/-- The frame fits the buffer, and if it is a chunk with a payload its length fits. -/
structure ChunkLengthFits (f : Frame) : Prop where
  room : f.bytes.length ≤ bufferLen
  chunk : f.cmd.dwCmd = ModuleMsg.video.code → f.body ≠ [] → LengthFits FileGet.size f.body

section
variable {f : Frame} {w : World TaskFileRecv} {rest old : List Byte}

instance (buff : List Byte) : Decidable (ChunkFits buff) := inferInstanceAs (Decidable (_ ≤ _))

theorem wp_dispatch_video {Q : Option Int → World TaskFileRecv → Prop}
    {E : Stop → World TaskFileRecv → Prop}
    (video : (buf w.obj).head.dwCmd = ModuleMsg.video.code) :
    wp dispatch Q E w ↔ if ChunkFits (buf w.obj).buff then
      Q none { w with obj := { w.obj with mwFile := w.obj.mwFile ++ chunkIn (buf w.obj).buff } }
      else E .fault w := by
  simp only [dispatch, wp_bind, wp_readerBuf, if_pos video, storeChunk]
  split
  case isTrue fits => exact (iff_of_eq (if_pos fits)).symm
  case isFalse past => exact (iff_of_eq (if_neg past)).symm

theorem chunk_frame (f : Frame) (stale : List Byte) :
    chunkIn (f.bytes ++ stale) =
      ((f.body ++ stale).drop FileGet.size).take (wordAt (f.body ++ stale) 4).toNat := by
  rw [chunkIn, drop_frame, wordAt_frame]

theorem chunkFits_frame (f : Frame) (stale : List Byte) : ChunkFits (f.bytes ++ stale) ↔
    (wordAt (f.body ++ stale) 4).toNat ≤ ((f.body ++ stale).drop FileGet.size).length := by
  rw [ChunkFits, drop_frame, wordAt_frame]

theorem dwCmd_of_stands {stale : List Byte} (stands : (buf w.obj).buff = f.bytes ++ stale) :
    (buf w.obj).head.dwCmd = f.cmd.dwCmd := by
  rw [RecvBuffer.head, stands, Frame.bytes, List.append_assoc, NetCmd.ofBytes_append]

/-- What the frame adds to the file. -/
def ownChunk (f : Frame) : List Byte :=
  if f.cmd.dwCmd = ModuleMsg.video.code then innerBytes FileGet.size f.body else []

theorem ownChunk_prefix (f : Frame) : ownChunk f <+: f.body.drop FileGet.size := by
  unfold ownChunk
  split
  · exact innerBytes_prefix _ _
  · exact List.nil_prefix

theorem ownChunk_empty (none : f.body = []) : ownChunk f = [] := by
  have own := ownChunk_prefix f
  rw [none, List.drop_nil] at own
  exact List.prefix_nil.mp own

/-- A complete frame whose length fits adds its own bytes. -/
theorem dispatch_own {stale : List Byte} (fits : ChunkLengthFits f) (filled : f.body ≠ [])
    (stands : (buf w.obj).buff = f.bytes ++ stale) :
    wp dispatch (fun _ t => t.obj.mwFile = w.obj.mwFile ++ ownChunk f ∧ t.halted = w.halted)
      (fun stop t => stop = .blocked ∧ t.obj.mwFile = w.obj.mwFile ++ ownChunk f) w := by
  have head := dwCmd_of_stands stands
  by_cases video : f.cmd.dwCmd = ModuleMsg.video.code
  · have inner := fits.chunk video filled
    have length := toNat_of_asInt_nonneg inner.nonneg
    have inside : ChunkFits (buf w.obj).buff := by
      rw [stands, chunkFits_frame, inner.word, ← length, List.length_drop, List.length_append]
      have own := inner.inside
      unfold innerLength at own
      omega
    rw [wp_dispatch_video (head.trans video), if_pos inside, stands, chunk_frame, inner.word, ← length,
      ← innerLength, inner.copied stale, ownChunk, if_pos video]
    exact ⟨rfl, rfl⟩
  · have other : (buf w.obj).head.dwCmd ≠ ModuleMsg.video.code := by rwa [head]
    rw [ownChunk, if_neg video, List.append_nil]
    apply wp_dispatch
    · exact fun _ => ⟨rfl, rfl⟩
    · exact fun video => absurd video other
    · exact fun video => absurd video other
    · exact fun _ _ _ _ => ⟨rfl, rfl⟩
    · exact fun _ _ _ _ => ⟨rfl, rfl⟩

/-- The frame is being read, or has been and has added its bytes. -/
inductive Stage (f : Frame) (rest old : List Byte) (c : Core TaskFileRecv) : Prop
  | reading (mem : List Byte) (sized : mem.length = bufferLen)
      (arriving : Arriving f.bytes rest mem (buf c.obj) c.inp) (file : c.obj.mwFile = old)
  | done (mem : List Byte) (sized : mem.length = bufferLen) (holds : (buf c.obj).Holds mem [])
      (inp : c.inp = rest) (file : c.obj.mwFile = old ++ ownChunk f)

/-- The file is as it was until the frame has been read. -/
theorem Stage.file {c : Core TaskFileRecv} (stage : Stage f rest old c) :
    c.obj.mwFile = if rest.length < c.inp.length then old else old ++ ownChunk f := by
  cases stage with
  | reading mem sized arriving file =>
    by_cases filled : f.body = []
    · rw [file, ownChunk_empty filled, List.append_nil, ite_self]
    · have long : packHeadLen < f.bytes.length := by
        rw [Frame.bytes, List.length_append, f.cmd.length_bytes]
        exact Nat.lt_add_of_pos_right (List.length_pos_iff.mpr filled)
      rw [if_pos (arriving.more f.whole long), file]
  | done mem sized holds inp file => rw [if_neg (by rw [inp]; exact Nat.lt_irrefl _), file]

theorem dispatch_moves (w : World TaskFileRecv) :
    wp dispatch (fun r t => r = none ∧ Aside w t) (fun _ => Aside w) w :=
  ReadsFrames.dispatch_aside w

/-- A read that finds no frame it could complete within `q` completes none. -/
theorem readBuffer_short {mem p q : List Byte} (holds : (buf w.obj).Holds mem p) (sized : mem.length = bufferLen)
    (input : w.inp = q ++ rest) (short : ∀ g, g <+: p ++ q →
      ¬ (netFraming.Whole g ∧ packHeadLen < g.length) ∧ ¬ Oversized bufferLen g) :
    wp readBuffer (fun _ t => rest.length ≤ t.inp.length →
        (∃ front more, q = front ++ more ∧ t.inp = more ++ rest ∧ (buf t.obj).Holds mem (p ++ front)) ∧
          t.obj.mwFile = w.obj.mwFile ∧ t.halted = w.halted)
      (fun _ t => ¬ rest.length ≤ t.inp.length) w := by
  -- what has been read without touching `rest` is a front of `q`
  have front : ∀ bytes rest', w.inp = bytes ++ rest' → rest.length ≤ rest'.length →
      ∃ more, q = bytes ++ more ∧ rest' = more ++ rest := by
    intro bytes rest' come within
    rcases List.append_eq_append_iff.mp (input.symm.trans come) with ⟨more, past, same⟩ | ⟨more, inside, same⟩
    · have none : more = [] := by
        have length := congrArg List.length same
        rw [List.length_append] at length
        exact List.eq_nil_of_length_eq_zero (by omega)
      subst none
      exact ⟨[], by simpa using past.symm, by simpa using same.symm⟩
    · exact ⟨more, inside, same⟩
  have inside : ∀ {bytes more : List Byte}, q = bytes ++ more → p ++ bytes <+: p ++ q := by
    rintro bytes more rfl
    exact ⟨more, List.append_assoc ..⟩
  refine wp_readBuffer_stream holds sized ?_ ?_ ?_
  · intro ret b bytes rest' recvs obs come held _ _ within
    obtain ⟨more, split, left⟩ := front bytes rest' come within
    exact ⟨⟨bytes, more, split, left, held⟩, rfl, rfl⟩
  · intro b bytes rest' recvs obs come isWhole long _ _ _
    have past : ¬ rest.length ≤ rest'.length := by
      intro within
      obtain ⟨more, split, -⟩ := front bytes rest' come within
      exact (short _ (inside split)).1 ⟨isWhole, long⟩
    refine (dispatch_moves _).mono ?_ (fun _ t still => (show t.inp = rest' from still.inp) ▸ past)
    rintro r t ⟨rfl, still⟩ ret - within
    have left : t.inp = rest' := still.inp
    exact absurd (left ▸ within : rest.length ≤ rest'.length) past
  · intro b bytes rest' recvs obs come exceeds _ _ _
    have past : ¬ rest.length ≤ rest'.length := by
      intro within
      obtain ⟨more, split, -⟩ := front bytes rest' come within
      exact (short _ (inside split)).2 exceeds
    exact ⟨fun _ within => absurd within past, past⟩

theorem Stage.same {c d : Core TaskFileRecv} (stage : Stage f rest old c) (obj : d.obj = c.obj)
    (inp : d.inp = c.inp) : Stage f rest old d := by
  cases stage with
  | reading mem sized arriving file =>
    rw [← obj, ← inp] at arriving
    exact .reading mem sized arriving (obj ▸ file)
  | done mem sized holds left file =>
    rw [← obj] at holds
    exact .done mem sized holds (inp.trans left) (obj ▸ file)

/-- **A read of the frame.** -/
theorem readBuffer_stage (fits : ChunkLengthFits f) (stage : Stage f rest old w.core) :
    wp readBuffer (fun _ t => rest.length ≤ t.inp.length → Stage f rest old t.core ∧ t.halted = w.halted)
      (fun stop t => rest.length ≤ t.inp.length → stop = .blocked ∧ t.inp = rest ∧
        t.obj.mwFile = old ++ ownChunk f) w := by
  cases stage with
  | reading mem sized arriving file =>
    have file : w.obj.mwFile = old := file
    by_cases filled : f.body = []
    · obtain ⟨p, q, holds, whole, input⟩ := arriving
      have length : f.bytes.length = packHeadLen := by
        rw [Frame.bytes, filled, List.append_nil, f.cmd.length_bytes]
      refine (readBuffer_short holds sized input ?_).mono ?_ (fun _ _ past within => absurd within past)
      · rw [whole]
        intro g front
        have short := front.length_le
        refine ⟨fun long => by omega, fun beyond => ?_⟩
        have same : g = f.bytes := front.eq_of_length (by have := beyond.1; omega)
        have announced := beyond.2
        rw [same, ← f.whole.2, length] at announced
        exact absurd announced (by decide)
      · rintro ret t next within
        obtain ⟨⟨front, more, rfl, left, held⟩, same, running⟩ := next within
        refine ⟨.reading mem sized ⟨p ++ front, more, held, ?_, left⟩ (same.trans file), running⟩
        rw [← whole, List.append_assoc]
    · have long : packHeadLen < f.bytes.length := by
        rw [Frame.bytes, List.length_append, f.cmd.length_bytes]
        exact Nat.lt_add_of_pos_right (List.length_pos_iff.mpr filled)
      refine wp_readBuffer_arriving arriving sized f.whole long fits.room ?_ ?_
      · intro ret b inp recvs obs arriving _ _
        exact ⟨.reading mem sized arriving file, rfl⟩
      · intro b recvs obs stands _
        refine ((dispatch_own (w := w.read b rest recvs obs) fits filled stands).and
          (dispatch_moves (w.read b rest recvs obs))).mono ?_ ?_
        · rintro r t ⟨⟨stored, running⟩, rfl, still⟩ ret - -
          have same : buf t.obj = b := still.reader
          have length : (buf t.obj).buff.length = bufferLen := by
            have room := fits.room
            rw [same, stands, List.length_append, List.length_drop]
            omega
          refine ⟨.done (buf t.obj).buff length (holds_reset (τ := TaskFileRecv) (buf t.obj)) still.inp ?_, running⟩
          exact stored.trans (congrArg (· ++ ownChunk f) file)
        · rintro stop t ⟨⟨blocked, stored⟩, still⟩ -
          exact ⟨blocked, still.inp, stored.trans (congrArg (· ++ ownChunk f) file)⟩
  | done mem sized holds inp file =>
    refine (readBuffer_short (q := []) holds sized inp ?_).mono ?_ (fun _ _ past within => absurd within past)
    · intro g front
      obtain rfl : g = [] := List.prefix_nil.mp front
      exact ⟨fun long => absurd long.2 (by decide), fun beyond => absurd beyond.1 (by decide)⟩
    · rintro ret t next within
      obtain ⟨⟨front, more, none, left, held⟩, same, running⟩ := next within
      obtain ⟨rfl, rfl⟩ := List.append_eq_nil_iff.mp none.symm
      exact ⟨.done mem sized held left (same.trans file), running⟩

/-- The stage between callbacks; or the task waits for ever in a send, the frame having been read. -/
def Reached (f : Frame) (rest old : List Byte) (w : World TaskFileRecv) : Prop :=
  (w.halted = none ∧ Stage f rest old w.core) ∨
    (w.halted = some .blocked ∧ w.inp = rest ∧ w.obj.mwFile = old ++ ownChunk f)

/-- **A turn of the loop over the frame.** -/
theorem fire_reached {w' : World TaskFileRecv} {e : Event} (fits : ChunkLengthFits f)
    (reached : Reached f rest old w) (fired : fire w e = some w') (within : Within rest w e w') :
    Reached f rest old w' := by
  have running := (live_of_fire fired).2
  obtain ⟨-, stage⟩ := reached.resolve_right fun stopped => by
    rw [running] at stopped
    cases stopped.1
  have still : ∀ t : World TaskFileRecv, t.halted = none → t.obj = w.obj → t.inp = w.inp → Reached f rest old t :=
    fun _ running' obj inp => .inl ⟨running', stage.same obj inp⟩
  cases e with
  | read recvs sends =>
    refine fire_read fired (P := fun t => rest.length ≤ t.inp.length → Reached f rest old t) ?_ within
    refine (readBuffer_stage (w := w.reading recvs sends) fits stage).mono (fun ret t next within => ?_)
      (fun s t stopped within => ?_)
    · rw [World.afterRead_inp] at within
      obtain ⟨next, same⟩ := next within
      refine .inl ⟨?_, next.same (t.afterRead_obj ret) (t.afterRead_inp ret)⟩
      rw [World.afterRead_halted, same]
      exact running
    · obtain ⟨rfl, left, stored⟩ := stopped within
      exact .inr ⟨rfl, left, stored⟩
  | readTimeout =>
    apply fire_readTimeout fired
    exact still _ (World.armRead_halted _ ▸ running) (World.armRead_obj _) (World.armRead_inp _)
  | write sends =>
    apply fire_write fired
    exact still _ running rfl rfl
  | writeTimeout =>
    apply fire_writeTimeout fired
    exact still _ running rfl rfl
  | timer =>
    apply fire_timer fired
    exact still _ running rfl rfl

end

theorem length_filled {bs : List Byte} {n : Nat} (short : bs.length ≤ n) :
    (bs ++ List.replicate (n - bs.length) (255 : Byte)).length = n := by
  rw [List.length_append, List.length_replicate]
  omega

/-- The memory behind the frame holds the bytes 255. -/
def filled (f : Frame) (room : f.bytes.length ≤ bufferLen) : RawBuffer :=
  ⟨f.bytes ++ List.replicate (bufferLen - f.bytes.length) 255, length_filled room⟩

/-- With these a length that is not the frame's own does not fit. -/
theorem own_of_filled {f : Frame} (room : f.bytes.length ≤ bufferLen)
    (fits : ChunkFits (filled f room).1) : 8 ≤ f.body.length := by
  refine Nat.le_of_not_lt fun short => ?_
  have split : f.bytes.length = 16 + f.body.length := by
    rw [f.length_bytes, f.body_len, packHeadLen]
  have size : bufferLen = 1050076 := rfl
  have large := wordAt_filled short (n := bufferLen - f.bytes.length) (by omega)
  have bound := (chunkFits_frame f _).mp fits
  rw [List.length_drop, List.length_append, List.length_replicate] at bound
  omega

section
variable {f : Frame} {w' : World TaskFileRecv}

/-- The header and the rest of the frame arrive in one callback. -/
def atOnce (f : Frame) : Event := .read [.got packHeadLen, .got f.body.length] []

theorem between_accepted (raw : RawBuffer) (inp : List Byte) : Between (accepted (init raw) inp) :=
  ⟨rfl, rfl, raw.2, rfl⟩

/-- A frame that is longer than the buffer is stored past it. -/
theorem fire_oversized {raw : RawBuffer} (long : bufferLen < f.bytes.length)
    (fired : fire (accepted (init raw) f.bytes) (atOnce f) = some w') : w'.halted = some .fault := by
  have split : f.bytes.length = packHeadLen + f.body.length := by
    rw [Frame.bytes, List.length_append, f.cmd.length_bytes]
  have size : bufferLen = 1050076 := rfl
  have head : packHeadLen = 16 := rfl
  have bound := f.cmd.dwLength.toNat_lt
  rw [← f.body_len] at bound
  refine fire_read fired (P := fun t => t.halted = some .fault) ?_
  refine wp_readBuffer_header rfl rfl (show f.bytes = f.bytes ++ [] from (List.append_nil _).symm) rfl
    (Nat.le_refl _) ?_
  have room : recvRoom (asInt f.cmd.dwLength) (f.body ++ []).length = f.body.length := by
    rw [List.append_nil, recvRoom, asInt, ← f.body_len]
    split <;> split <;> omega
  have some' : asInt f.cmd.dwLength ≠ 0 := by
    rw [asInt, ← f.body_len]
    split <;> omega
  have count : recvCount (asInt f.cmd.dwLength - 0) (f.body ++ []).length (.got f.body.length) =
      f.body.length := by
    rw [Int.sub_zero, recvCount, if_neg some', room, Nat.min_self, if_neg (by omega)]
  refine wp_recvPackData rfl rfl count rfl ?_ (fun _ _ => rfl) ?_
  · intro _ inside
    refine absurd ⟨by omega, ?_⟩ inside
    show (bufferLen : Int) < packHeadLen + 0 + f.body.length
    omega
  · intro _ _ fits
    have fits : (packHeadLen : Int) + 0 + f.body.length ≤ bufferLen := fits
    omega

/-- A chunk with a payload is copied, or stops the task when its length leaves the buffer. -/
theorem fire_chunk {raw : RawBuffer} (room : f.bytes.length ≤ bufferLen) (some' : f.body ≠ [])
    (video : f.cmd.dwCmd = ModuleMsg.video.code)
    (fired : fire (accepted (init raw) f.bytes) (atOnce f) = some w') :
    if ChunkFits (f.bytes ++ raw.1.drop f.bytes.length) then
      w'.inp = [] ∧ w'.obj.mwFile = chunkIn (f.bytes ++ raw.1.drop f.bytes.length)
    else w'.halted = some .fault := by
  have split : f.bytes.length = packHeadLen + f.body.length := by
    rw [Frame.bytes, List.length_append, f.cmd.length_bytes]
  have size : bufferLen = 1050076 := rfl
  have total : asInt f.cmd.dwLength = f.body.length := by
    rw [asInt, ← f.body_len, if_pos (by omega)]
  refine fire_read fired (P := fun t => if ChunkFits (f.bytes ++ raw.1.drop f.bytes.length) then
    t.inp = [] ∧ t.obj.mwFile = chunkIn (f.bytes ++ raw.1.drop f.bytes.length)
    else t.halted = some .fault) ?_
  refine wp_readBuffer_header rfl rfl (show f.bytes = f.bytes ++ [] from (List.append_nil _).symm) rfl
    (Nat.le_refl _) ?_
  rw [total]
  refine wp_recvPackData_last (p := f.cmd.bytes) (q := f.body) (holds_header ?_) rfl raw.2
    f.whole some' rfl rfl (Nat.le_refl _) fun b recvs obs _ stands => ?_
  · exact room.trans raw.2.ge
  · have stands : b.buff = f.bytes ++ raw.1.drop f.bytes.length := stands
    refine (wp_dispatch_video (dwCmd_of_stands stands |>.trans video)).mpr ?_
    show if ChunkFits b.buff then _ else _
    rw [stands]
    split
    case isTrue fits =>
      intro ret _
      rw [World.afterRead_inp, World.afterRead_obj]
      exact ⟨rfl, congrArg ([] ++ chunkIn ·) stands⟩
    case isFalse => rfl

end

/-- **When a frame stores its own bytes.** -/
theorem storesOwn_iff (f : Frame) : StoresOwn f ↔ ChunkLengthFits f := by
  have turn : ∀ raw : RawBuffer, ∃ w', fire (accepted (init raw) f.bytes) (atOnce f) = some w' :=
    fun raw => ⟨_, if_pos ⟨rfl, rfl⟩⟩
  constructor
  · rintro ⟨out, own, stored⟩
    have ran : ∀ {raw : RawBuffer} {w' : World TaskFileRecv},
        fire (accepted (init raw) f.bytes) (atOnce f) = some w' → w'.halted ≠ some .fault ∧
          w'.obj.mwFile = if 0 < w'.inp.length then [] else out := fun fired =>
      stored _ _ [] _ (between_accepted _ _) (List.append_nil _).symm (.single fired (Nat.zero_le _))
    have room : f.bytes.length ≤ bufferLen := by
      refine Nat.le_of_not_lt fun long => ?_
      obtain ⟨w', fired⟩ := turn ⟨List.replicate bufferLen 0, List.length_replicate⟩
      exact (ran fired).1 (fire_oversized long fired)
    refine ⟨room, fun video some' => ?_⟩
    obtain ⟨w', fired⟩ := turn (filled f room)
    obtain ⟨running, file⟩ := ran fired
    have chunk := fire_chunk room some' video fired
    have memory : f.bytes ++ (filled f room).1.drop f.bytes.length = (filled f room).1 := by
      rw [filled, List.drop_left]
    rw [memory] at chunk
    split at chunk
    case isTrue fits =>
      have long : 8 ≤ f.body.length := own_of_filled room fits
      rw [chunk.1, chunk.2] at file
      have copied : chunkIn (filled f room).1 = out := file
      have bound := (chunkFits_frame f _).mp fits
      rw [wordAt_append_left long] at bound
      have length : (wordAt f.body 4).toNat = out.length := by
        rw [← copied, filled, chunk_frame, List.length_take, wordAt_append_left long,
          Nat.min_eq_left bound]
      have short := length_le_of_own own
      refine lengthFits_of_le long (asInt_nonneg ?_) (by rwa [length])
      have size : bufferLen = 1050076 := rfl
      have split : f.bytes.length = 16 + f.body.length := by
        rw [f.length_bytes, f.body_len, packHeadLen]
      omega
    case isFalse => exact absurd chunk running
  · intro fits
    refine ⟨ownChunk f, ownChunk_prefix f, fun w w' rest es between arrives run => ?_⟩
    have reached : Reached f rest w.obj.mwFile w' := by
      refine run.invariant (P := Reached f rest w.obj.mwFile) (.inl ⟨between.outside, ?_⟩)
        fun _ _ _ reached fired within => fire_reached fits reached fired within
      refine .reading (buf w.obj).buff between.sized ?_ rfl
      rw [World.core, arrives]
      exact arriving_next (.head rfl between.inHead between.nothing (by decide))
    rcases reached with ⟨running, stage⟩ | ⟨blocked, left, file⟩
    · rw [running]
      exact ⟨(fun absurd => by cases absurd), stage.file⟩
    · rw [blocked, left, if_neg (Nat.lt_irrefl _)]
      exact ⟨(fun absurd => by cases absurd), file⟩

end TaskFileRecv

end GreatEvent
