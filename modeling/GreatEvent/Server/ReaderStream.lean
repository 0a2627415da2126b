import GreatEvent.Server.Reading

/-!
# What a reader makes of its stream

`RecvBuffer.Holds` is the reader in the middle of a frame: it has taken `p`,
which lies at the start of its buffer, and knows how much is still to come.
`wp_readBuffer_stream` follows one call from there: it takes some bytes and
still holds an unfinished frame, or it hands a whole frame to `dispatch`, or
the header it has met announces more than the buffer can take. The last case
is the only one in which a window is wrong.
-/

namespace GreatEvent

open Lib FrameReader

/-- The reader has taken `p` of a frame. `mem` was in the buffer before the frame began. -/
inductive RecvBuffer.Holds (mem p : List Byte) (b : RecvBuffer) : Prop where
  | head (stored : b.buff = p ++ mem.drop p.length) (inHead : b.bProcHead = true)
      (taken : b.hasRecvLen = p.length) (short : p.length < packHeadLen)
  /-- a body of length 0 stays open -/
  | body (stored : b.buff = p ++ mem.drop p.length) (inBody : b.bProcHead = false)
      (taken : b.hasRecvLen = p.length - packHeadLen) (long : packHeadLen ≤ p.length)
      (total : b.totalLen = netFraming.frameLen p - packHeadLen)
      (fits : netFraming.frameLen p ≤ mem.length)
      (isOpen : p.length < netFraming.frameLen p ∨ p.length = packHeadLen)

/-- The header at the start of `p` announces an empty body. -/
def AnnouncesNothing (p : List Byte) : Prop :=
  packHeadLen ≤ p.length ∧ netFraming.frameLen p = packHeadLen

/-- The header at the start of `p` announces a frame longer than `size`. -/
def Oversized (size : Nat) (p : List Byte) : Prop :=
  packHeadLen ≤ p.length ∧ size < netFraming.frameLen p

/-- Nothing but windows inside their buffer has been observed. -/
def Windows (obs : List Obs) : Prop :=
  ∀ o ∈ obs, (∃ size off len, o = .window size off len) ∧ o.windowOk = true

theorem Windows.single {size : Nat} {off len : Int} (low : 0 ≤ off) (pos : 0 ≤ len)
    (high : off + len ≤ size) : Windows [.window size off len] := by
  intro o member
  obtain rfl := List.mem_singleton.mp member
  exact ⟨⟨size, off, len, rfl⟩, by simp [Obs.windowOk, low, pos, high]⟩

theorem Windows.append {obs obs' : List Obs} (first : Windows obs) (second : Windows obs') :
    Windows (obs ++ obs') := by
  intro o member
  rcases List.mem_append.mp member with old | new
  · exact first o old
  · exact second o new

/-- The length of a frame, as its header announces it. -/
theorem frameLen_eq (p : List Byte) :
    netFraming.frameLen p = packHeadLen + (NetCmd.ofBytes p).dwLength.toNat := by
  show packHeadLen + (NetCmd.ofBytes (p.take packHeadLen)).dwLength.toNat = _
  rw [NetCmd.ofBytes_take (Nat.le_refl _)]

/-- Storing where the frame ends so far continues it. -/
theorem poke_frame (mem p bytes : List Byte) :
    poke (p ++ mem.drop p.length) p.length bytes =
      (p ++ bytes) ++ mem.drop (p ++ bytes).length := by
  have rest : (p ++ mem.drop p.length).drop (p.length + bytes.length) =
      mem.drop (p.length + bytes.length) := by
    rw [← List.drop_drop, List.drop_left, List.drop_drop]
  rw [poke, List.take_left, rest, List.length_append]

/-- The reader that has taken the header of a frame it has room for. -/
theorem holds_header {f : Frame} {mem : List Byte} (fits : f.bytes.length ≤ mem.length) :
    RecvBuffer.Holds mem f.cmd.bytes
      ⟨f.cmd.bytes ++ mem.drop packHeadLen, false, 0, f.body.length⟩ := by
  have long := f.cmd.length_bytes
  have length : f.bytes.length = packHeadLen + f.body.length := by
    rw [Frame.bytes, List.length_append, long]
  have frameLen : netFraming.frameLen f.cmd.bytes = packHeadLen + f.body.length := by
    rw [frameLen_eq, f.body_len, ← List.append_nil f.cmd.bytes, NetCmd.ofBytes_append]
  refine .body ?_ rfl ?_ (Nat.le_of_eq long.symm) ?_ ?_ (.inr long)
  · rw [long]
  · rw [long]
    rfl
  · rw [frameLen]
    show (f.body.length : Int) = _
    omega
  · rwa [frameLen, ← length]

section
variable {τ : Type} [FrameReader τ] {dispatch : Act τ (Option Int)} {Q : Int → World τ → Prop}
  {E : Stop → World τ → Prop} {w : World τ} {mem p : List Byte}

/-- The part of the input that a `recv` took. -/
theorem recv_splits (inp : List Byte) {len ret : Int} {r : RecvResult}
    (result : recvCount len inp.length r = ret) :
    inp = inp.take ret.toNat ++ inp.drop ret.toNat ∧ (inp.take ret.toNat).length = ret.toNat := by
  refine ⟨(List.take_append_drop ..).symm, ?_⟩
  have := (recvCount_le len inp.length r).1
  rw [List.length_take, result] at *
  omega

/-- A `recv` that returns 0 has met the end of the stream, or was asked for nothing. -/
theorem recv_zero {len : Int} {avail : Nat} {recvs : List RecvResult}
    (zero : recvCount len avail (recvs.headD .again) = 0) : .closed ∈ recvs ∨ len = 0 := by
  refine (recvCount_eq_zero zero).imp (fun closed => ?_) id
  cases recvs with
  | nil => cases closed
  | cons r rs => exact closed ▸ List.mem_cons_self

/-- `recvPackData` in the body of a frame that fits. -/
theorem wp_recvPackData_stream (holds : (buf w.obj).Holds mem p)
    (inBody : (buf w.obj).bProcHead = false) (sized : mem.length = size τ)
    (quiet : ∀ ret b bytes rest recvs obs, w.inp = bytes ++ rest → b.Holds mem (p ++ bytes) →
      Windows obs → (ret = 0 → .closed ∈ w.recvs ∨ AnnouncesNothing (p ++ bytes)) →
      Q ret (w.read b rest recvs obs))
    (complete : ∀ b bytes rest recvs obs, w.inp = bytes ++ rest → netFraming.Whole (p ++ bytes) →
      packHeadLen < (p ++ bytes).length → (p ++ bytes).length ≤ mem.length →
      b.buff = (p ++ bytes) ++ mem.drop (p ++ bytes).length → Windows obs →
      wp dispatch (Finishes Q) E (w.read b rest recvs (obs ++ [.frame (p ++ bytes)]))) :
    wp (recvPackData dispatch) Q E w := by
  cases holds with
  | head _ inHead =>
    rw [inHead] at inBody
    cases inBody
  | body stored _ taken long total fits isOpen =>
    have frame : p.length ≤ netFraming.frameLen p := by
      rcases isOpen with short | header
      · omega
      · rw [header, frameLen_eq]
        omega
    have window : Windows [.window (size τ) p.length (netFraming.frameLen p - p.length)] :=
      .single (by omega) (by omega) (by omega)
    generalize result : recvCount (netFraming.frameLen p - p.length : Int) w.inp.length
      (w.recvs.headD .again) = ret
    obtain ⟨split, count⟩ := recv_splits w.inp result
    have bounded := (recvCount_le (netFraming.frameLen p - p.length : Int) w.inp.length
      (w.recvs.headD .again)).2 (by omega)
    rw [result] at bounded
    have stored' : poke (buf w.obj).buff (p.length : Int).toNat (w.inp.take ret.toNat) =
        (p ++ w.inp.take ret.toNat) ++ mem.drop (p ++ w.inp.take ret.toNat).length := by
      rw [stored]
      exact poke_frame mem p _
    have sameLen : netFraming.frameLen (p ++ w.inp.take ret.toNat) = netFraming.frameLen p :=
      Framing.frameLen_append long _
    refine wp_recvPackData (o := p.length) (l := netFraming.frameLen p - p.length) (by omega)
      (by omega) result stored'.symm (fun open' _ => ?_) (fun _ past => ?_) (fun pos whole _ => ?_)
    · refine quiet ret _ _ _ _ _ split (.body rfl inBody ?_ ?_ ?_ ?_ ?_) window fun zero => ?_
      · dsimp only
        split <;> simp only [List.length_append, count] <;> omega
      · simp only [List.length_append]
        omega
      · rw [sameLen]
        exact total
      · rw [sameLen]
        exact fits
      · simp only [sameLen, List.length_append, count]
        omega
      · refine (recv_zero (result.trans zero)).imp id fun nothing => ⟨?_, ?_⟩
        · simp only [List.length_append]
          omega
        · rw [sameLen]
          omega
    · omega
    · have length : (p ++ w.inp.take ret.toNat).length = netFraming.frameLen p := by
        simp only [List.length_append, count]
        omega
      have taken' : ((p ++ w.inp.take ret.toNat) ++ mem.drop (p ++ w.inp.take ret.toNat).length).take
          (packHeadLen + (buf w.obj).totalLen.toNat) = p ++ w.inp.take ret.toNat := by
        refine List.take_left' ?_
        omega
      rw [taken']
      refine complete _ _ _ _ [.window (size τ) p.length (netFraming.frameLen p - p.length)] split
        ⟨?_, ?_⟩ ?_ ?_ rfl window
      · show packHeadLen ≤ _
        omega
      · rw [sameLen, length]
      · omega
      · omega

/-- `readBuffer` when its first `recv` takes the whole header of the frame. -/
theorem wp_readBuffer_header {f : Frame} {rest : List Byte} {n : Nat} {recvs : List RecvResult}
    (inHead : (buf w.obj).bProcHead = true) (nothing : (buf w.obj).hasRecvLen = 0)
    (arrived : w.inp = f.bytes ++ rest) (result : w.recvs = .got n :: recvs) (all : packHeadLen ≤ n)
    (turns : wp (recvPackData dispatch) Q E (w.read
      ⟨f.cmd.bytes ++ (buf w.obj).buff.drop packHeadLen, false, 0, asInt f.cmd.dwLength⟩
      (f.body ++ rest) recvs [.window (size τ) 0 packHeadLen])) :
    wp (readBuffer dispatch) Q E w := by
  have long := f.cmd.length_bytes
  have room := head_le_size (τ := τ)
  have split : w.inp = f.cmd.bytes ++ (f.body ++ rest) := by
    rw [arrived, Frame.bytes, List.append_assoc]
  have count : recvCount (packHeadLen : Int) w.inp.length (w.recvs.headD .again) = packHeadLen := by
    have room : recvRoom (packHeadLen : Int) w.inp.length = packHeadLen := by
      rw [recvRoom, if_neg (by omega), split, List.length_append]
      omega
    rw [result, List.headD_cons, recvCount, room, if_neg (by decide), Nat.min_eq_right all, if_neg (by decide)]
  have header : w.inp.take (packHeadLen : Int).toNat = f.cmd.bytes := by
    rw [split]
    exact List.take_left' long
  have stored : f.cmd.bytes ++ (buf w.obj).buff.drop packHeadLen =
      poke (buf w.obj).buff (0 : Int).toNat (w.inp.take (packHeadLen : Int).toNat) := by
    rw [header]
    exact (congrArg (f.cmd.bytes ++ (buf w.obj).buff.drop ·) long).symm.trans (poke_zero _ _).symm
  refine wp_readBuffer_head inHead nothing.symm (by rw [nothing, Int.sub_zero]) count stored ?_ ?_ ?_
  · intro short _
    rcases short with none | short
    · exact absurd none (by decide)
    · exact absurd rfl short
  · intro _ past
    omega
  · intro _ _ _
    rw [NetCmd.ofBytes_append]
    have left : w.inp.drop (packHeadLen : Int).toNat = f.body ++ rest := by
      rw [split]
      exact List.drop_left' long
    rw [left, result]
    exact turns

/-- `recvPackData` when its `recv` takes the rest `q` of the frame. -/
theorem wp_recvPackData_last {q rest : List Byte} {n : Nat} (holds : (buf w.obj).Holds mem p)
    (inBody : (buf w.obj).bProcHead = false) (sized : mem.length = size τ)
    (whole : netFraming.Whole (p ++ q)) (more : q ≠ []) (arrived : w.inp = q ++ rest)
    (result : w.recvs.headD .again = .got n) (all : q.length ≤ n)
    (complete : ∀ b recvs obs, AllReading obs → b.buff = (p ++ q) ++ mem.drop (p ++ q).length →
      wp dispatch (Finishes Q) E (w.read b rest recvs obs)) :
    wp (recvPackData dispatch) Q E w := by
  have pos : 0 < q.length := List.length_pos_iff.mpr more
  cases holds with
  | head _ inHead =>
    rw [inHead] at inBody
    cases inBody
  | body stored _ taken long total fits isOpen =>
    have length : p.length + q.length = netFraming.frameLen p := by
      rw [← List.length_append, whole.2, Framing.frameLen_append long]
    have count : recvCount (q.length : Int) w.inp.length (w.recvs.headD .again) = q.length := by
      have room : recvRoom (q.length : Int) w.inp.length = q.length := by
        rw [recvRoom, if_neg (by omega), arrived, List.length_append]
        omega
      rw [result, recvCount, room, if_neg (by omega), Nat.min_eq_right all, if_neg (by omega)]
    refine wp_recvPackData (o := p.length) (l := q.length) (by omega) (by omega) count rfl ?_ ?_ ?_
    · rintro (stays | differs) _ <;> omega
    · intro _ past
      omega
    · intro _ _ _
      simp only [Int.toNat_natCast, arrived, List.take_left, List.drop_left]
      refine complete _ _ _ (fun o member => ?_) ?_
      · rcases List.mem_cons.mp member with rfl | last
        · rfl
        · rw [List.mem_singleton.mp last]
          rfl
      · rw [stored]
        exact poke_frame mem p q

/-- `recvPackData` right after a header that announces more than the buffer can take. -/
theorem wp_recvPackData_oversized (stored : (buf w.obj).buff = p ++ mem.drop p.length)
    (taken : (buf w.obj).hasRecvLen = 0)
    (total : (buf w.obj).totalLen = asInt (NetCmd.ofBytes (buf w.obj).buff).dwLength)
    (header : p.length = packHeadLen) (oversized : size τ < netFraming.frameLen p)
    (violates : ∀ b bytes rest recvs obs, w.inp = bytes ++ rest → AllReading obs →
      framesIn obs = [] → (∃ o ∈ obs, o.windowOk = false) →
      (∀ ret, Q ret (w.read b rest recvs obs)) ∧ E .fault (w.read b rest recvs obs)) :
    wp (recvPackData dispatch) Q E w := by
  have length : (NetCmd.ofBytes (buf w.obj).buff).dwLength.toNat + packHeadLen =
      netFraming.frameLen p := by
    rw [stored, ← NetCmd.ofBytes_take (Nat.le_refl packHeadLen), List.take_left' header, frameLen_eq,
      Nat.add_comm]
  have small := size_lt (τ := τ)
  have bound := (NetCmd.ofBytes (buf w.obj).buff).dwLength.toNat_lt
  have bad : asInt (NetCmd.ofBytes (buf w.obj).buff).dwLength < 0 ∨
      (size τ : Int) < packHeadLen + asInt (NetCmd.ofBytes (buf w.obj).buff).dwLength := by
    unfold asInt
    split <;> omega
  rw [← total] at bad
  generalize result : recvCount ((buf w.obj).totalLen - (buf w.obj).hasRecvLen) w.inp.length
    (w.recvs.headD .again) = ret
  obtain ⟨split, -⟩ := recv_splits w.inp result
  have broken : ∃ o ∈ [Obs.window (size τ) (packHeadLen + (buf w.obj).hasRecvLen)
      ((buf w.obj).totalLen - (buf w.obj).hasRecvLen)], o.windowOk = false := by
    refine ⟨_, List.mem_singleton.mpr rfl, ?_⟩
    simp only [Obs.windowOk, taken, Bool.and_eq_false_iff, decide_eq_false_iff_not]
    omega
  have window := AllReading.window (size τ) (packHeadLen + (buf w.obj).hasRecvLen)
    ((buf w.obj).totalLen - (buf w.obj).hasRecvLen)
  refine wp_recvPackData rfl rfl result rfl ?_ ?_ ?_
  · intro _ _
    exact (violates _ _ _ _ _ split window rfl broken).1 ret
  · intro _ _
    exact (violates _ _ _ _ _ split window rfl broken).2
  · -- a body that long would not have fitted
    intro pos whole fits
    omega

/-- `recvPackData` right after a header. -/
theorem wp_recvPackData_turned (stored : (buf w.obj).buff = p ++ mem.drop p.length)
    (inBody : (buf w.obj).bProcHead = false) (taken : (buf w.obj).hasRecvLen = 0)
    (total : (buf w.obj).totalLen = asInt (NetCmd.ofBytes (buf w.obj).buff).dwLength)
    (header : p.length = packHeadLen) (sized : mem.length = size τ)
    (quiet : ∀ ret b bytes rest recvs obs, w.inp = bytes ++ rest → b.Holds mem (p ++ bytes) →
      Windows obs → (ret = 0 → .closed ∈ w.recvs ∨ AnnouncesNothing (p ++ bytes)) →
      Q ret (w.read b rest recvs obs))
    (complete : ∀ b bytes rest recvs obs, w.inp = bytes ++ rest → netFraming.Whole (p ++ bytes) →
      packHeadLen < (p ++ bytes).length → (p ++ bytes).length ≤ mem.length →
      b.buff = (p ++ bytes) ++ mem.drop (p ++ bytes).length → Windows obs →
      wp dispatch (Finishes Q) E (w.read b rest recvs (obs ++ [.frame (p ++ bytes)])))
    (oversized : ∀ b bytes rest recvs obs, w.inp = bytes ++ rest → Oversized (size τ) (p ++ bytes) →
      AllReading obs → framesIn obs = [] → (∃ o ∈ obs, o.windowOk = false) →
      (∀ ret, Q ret (w.read b rest recvs obs)) ∧ E .fault (w.read b rest recvs obs)) :
    wp (recvPackData dispatch) Q E w := by
  by_cases exceeds : size τ < netFraming.frameLen p
  · refine wp_recvPackData_oversized stored taken total header exceeds ?_
    intro b bytes rest recvs obs come reading none broken
    refine oversized b bytes rest recvs obs come ⟨?_, ?_⟩ reading none broken
    · rw [List.length_append]
      omega
    · rwa [Framing.frameLen_append (Nat.le_of_eq header.symm)]
  · have announced : (buf w.obj).totalLen = netFraming.frameLen p - packHeadLen := by
      rw [total, stored, ← NetCmd.ofBytes_take (Nat.le_refl packHeadLen), List.take_left' header, frameLen_eq]
      have small := size_lt (τ := τ)
      rw [frameLen_eq] at exceeds
      unfold asInt
      split <;> omega
    refine wp_recvPackData_stream ?_ inBody sized quiet complete
    exact .body stored inBody (by omega) (Nat.le_of_eq header.symm) announced (by omega) (.inr header)

/-- **One call of `readBuffer` in the stream.** -/
theorem wp_readBuffer_stream (holds : (buf w.obj).Holds mem p) (sized : mem.length = size τ)
    (quiet : ∀ ret b bytes rest recvs obs, w.inp = bytes ++ rest → b.Holds mem (p ++ bytes) →
      Windows obs → (ret = 0 → .closed ∈ w.recvs ∨ AnnouncesNothing (p ++ bytes)) →
      Q ret (w.read b rest recvs obs))
    (complete : ∀ b bytes rest recvs obs, w.inp = bytes ++ rest → netFraming.Whole (p ++ bytes) →
      packHeadLen < (p ++ bytes).length → (p ++ bytes).length ≤ mem.length →
      b.buff = (p ++ bytes) ++ mem.drop (p ++ bytes).length → Windows obs →
      wp dispatch (Finishes Q) E (w.read b rest recvs (obs ++ [.frame (p ++ bytes)])))
    (oversized : ∀ b bytes rest recvs obs, w.inp = bytes ++ rest → Oversized (size τ) (p ++ bytes) →
      AllReading obs → framesIn obs = [] → (∃ o ∈ obs, o.windowOk = false) →
      (∀ ret, Q ret (w.read b rest recvs obs)) ∧ E .fault (w.read b rest recvs obs)) :
    wp (readBuffer dispatch) Q E w := by
  cases phase : (buf w.obj).bProcHead with
  | false => exact (readBuffer_body phase).mpr (wp_recvPackData_stream holds phase sized quiet complete)
  | true =>
    cases holds with
    | body _ inBody =>
      rw [phase] at inBody
      cases inBody
    | head stored _ taken short =>
      have room := head_le_size (τ := τ)
      have window : Windows [.window (size τ) p.length (packHeadLen - p.length)] :=
        .single (by omega) (by omega) (by omega)
      generalize result : recvCount (packHeadLen - p.length : Int) w.inp.length
        (w.recvs.headD .again) = ret
      obtain ⟨split, count⟩ := recv_splits w.inp result
      have bounded := (recvCount_le (packHeadLen - p.length : Int) w.inp.length
        (w.recvs.headD .again)).2 (by omega)
      rw [result] at bounded
      have stored' : poke (buf w.obj).buff (p.length : Int).toNat (w.inp.take ret.toNat) =
          (p ++ w.inp.take ret.toNat) ++ mem.drop (p ++ w.inp.take ret.toNat).length := by
        rw [stored]
        exact poke_frame mem p _
      refine wp_readBuffer_head (o := p.length) (l := packHeadLen - p.length) phase taken.symm
        (by rw [taken]) result stored'.symm (fun open' _ => ?_) (fun _ past => ?_)
        (fun pos whole _ => ?_)
      · refine quiet ret _ _ _ _ _ split (.head rfl phase ?_ ?_) window fun zero => ?_
        · dsimp only
          split <;> simp only [List.length_append, count] <;> omega
        · simp only [List.length_append, count]
          omega
        · refine (recv_zero (result.trans zero)).imp id fun nothing => ?_
          omega
      · omega
      · have header : (p ++ w.inp.take ret.toNat).length = packHeadLen := by
          simp only [List.length_append, count]
          omega
        have sameInp : ∀ {bytes rest : List Byte}, w.inp.drop ret.toNat = bytes ++ rest →
            w.inp = (w.inp.take ret.toNat ++ bytes) ++ rest := by
          intro bytes rest come
          rw [List.append_assoc, ← come]
          exact split
        refine wp_recvPackData_turned (p := p ++ w.inp.take ret.toNat) ?_ (by rw [World.buf_read])
          (by rw [World.buf_read]) (by rw [World.buf_read]) header sized ?_ ?_ ?_
        · rw [World.buf_read]
        · intro ret' b bytes rest recvs obs come held windows zero
          rw [World.read_read]
          rw [List.append_assoc] at held
          refine quiet ret' b _ rest recvs _ (sameInp come) held (window.append windows) fun isZero => ?_
          rw [← List.append_assoc]
          exact (zero isZero).imp List.mem_of_mem_tail id
        · intro b bytes rest recvs obs come whole long fits stored windows
          rw [World.read_read, ← List.append_assoc]
          have joined := List.append_assoc p (w.inp.take ret.toNat) bytes
          rw [joined] at whole long fits stored ⊢
          exact complete b _ rest recvs _ (sameInp come) whole long fits stored (window.append windows)
        · intro b bytes rest recvs obs come exceeds reading none broken
          rw [World.read_read]
          obtain ⟨o, member, wrong⟩ := broken
          rw [List.append_assoc] at exceeds
          exact oversized b _ rest recvs _ (sameInp come) exceeds ((AllReading.window _ _ _).append reading)
            none ⟨o, List.mem_append_right _ member, wrong⟩

end

end GreatEvent
