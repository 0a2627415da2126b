import GreatEvent.Lib.CString
import GreatEvent.Server.EventCall
import GreatEvent.Video.PackHead

/-!
# `TaskVideoRecv`: video that is pushed to the server

`readBuffer` tells header and body apart by `mTotalLen - mRecvDataLen`: with
nothing of a body left it receives a header. Both go through the same 1500
bytes. A body is collected in a `BufferCache` and, when it is complete,
written to the file behind a start code. `Parsed` is the reader in the middle
of its stream; every call keeps it (`readBuffer_parses`), so the frames it
has taken are those of `packFraming`, whatever the stream is and however it
is cut.
-/

namespace GreatEvent

open Lib

/-- `BufferCache`; its `evbuffer` is a byte queue. -/
structure BufferCache where
  mBuffer : List Byte

namespace BufferCache

/-- `append(buffer, len)` -/
def append (c : BufferCache) (buffer : List Byte) (len : Int) : BufferCache :=
  let len := if len ≤ 0 then (cstr buffer).length else len.toNat
  ⟨c.mBuffer ++ buffer.take len⟩

def getSize (c : BufferCache) : Nat := c.mBuffer.length

def getBuffer (c : BufferCache) : List Byte := c.mBuffer

def erase (c : BufferCache) (len : Nat) : BufferCache := ⟨c.mBuffer.drop len⟩

def reset (c : BufferCache) : BufferCache := c.erase c.getSize

@[simp] theorem reset_mBuffer (c : BufferCache) : c.reset.mBuffer = [] := List.drop_length

end BufferCache

/-- `TaskVideoRecv`; `mwFile` is what has been written to the file. -/
structure TaskVideoRecv where
  mReadBuff : List Byte
  mInBuffer : BufferCache
  mwFile : List Byte
  mRecvDataLen : Int
  mRecvHeadLen : Int
  mTotalLen : Int

namespace TaskVideoRecv

/-- `sizeof(mReadBuff)` -/
def readBuffLen : Nat := 1500

/-- `tag` of `readBuffer` -/
def tag : List Byte := [0, 0, 0, 1]

/-- `readBuffer`, what it does with some bytes of a body in `mReadBuff`. -/
def takeBody (ret : Int) (t : TaskVideoRecv) : TaskVideoRecv :=
  let t := { t with
    mRecvDataLen := t.mRecvDataLen + ret
    mInBuffer := t.mInBuffer.append t.mReadBuff ret }
  if t.mRecvDataLen = t.mTotalLen then
    { t with
      mwFile := t.mwFile ++ tag ++ t.mInBuffer.getBuffer.take t.mInBuffer.getSize
      mRecvDataLen := 0
      mTotalLen := 0
      mInBuffer := t.mInBuffer.reset }
  else t

/-- What it does with some bytes of a header. -/
def takeHead (ret : Int) (t : TaskVideoRecv) : TaskVideoRecv :=
  let t := { t with mRecvHeadLen := t.mRecvHeadLen + ret }
  if t.mRecvHeadLen = (PackHead.size : Int) then
    { t with mTotalLen := asInt (packLen t.mReadBuff), mRecvHeadLen := 0 }
  else t

/-- `readBuffer` -/
def readBuffer : Act TaskVideoRecv Int := do
  let t ← self
  let leftLent := t.mTotalLen - t.mRecvDataLen
  if 0 < leftLent then
    let (ret, bytes) ← recv readBuffLen 0 (if leftLent < maxMtu then leftLent else maxMtu)
    modifySelf fun t => { t with mReadBuff := poke t.mReadBuff 0 bytes }
    if 0 < ret then modifySelf (takeBody ret)
    return ret
  else
    let (ret, bytes) ← recv readBuffLen t.mRecvHeadLen (PackHead.size - t.mRecvHeadLen)
    modifySelf fun t => { t with mReadBuff := poke t.mReadBuff t.mRecvHeadLen.toNat bytes }
    if 0 < ret then modifySelf (takeHead ret)
    return ret

/-- The memory of `mReadBuff` in a new object; `memset(mReadBuff, 1500, 0)` leaves it as it is. -/
def RawBuffer : Type := { bytes : List Byte // bytes.length = readBuffLen }

/-- A new object. -/
def init (raw : RawBuffer) : TaskVideoRecv where
  mReadBuff := raw.1
  mInBuffer := ⟨[]⟩
  mwFile := []
  mRecvDataLen := 0
  mRecvHeadLen := 0
  mTotalLen := 0

/-- So many calls of `readBuffer`. -/
def reads : Nat → World TaskVideoRecv → World TaskVideoRecv
  | 0, w => w
  | n + 1, w => reads n (after readBuffer w)

/-! ## The stream -/

/-- What a frame adds to the file: a start code and its body, if it has one. -/
def stores (f : List Byte) : List Byte :=
  if f.length = PackHead.size then [] else tag ++ f.drop PackHead.size

/-- The reader is ready for a header. -/
structure Ready (t : TaskVideoRecv) : Prop where
  body : t.mTotalLen - t.mRecvDataLen ≤ 0
  head : t.mRecvHeadLen = 0

/-- The reader has taken `p` of a frame. -/
inductive Holds (p : List Byte) (t : TaskVideoRecv) : Prop where
  | head (short : p.length < PackHead.size) (stored : t.mReadBuff.take p.length = p)
      (taken : t.mRecvHeadLen = p.length) (noBody : t.mTotalLen ≤ 0) (data : t.mRecvDataLen = 0)
      (empty : t.mInBuffer.mBuffer = [])
  | body (long : PackHead.size ≤ p.length) (isOpen : p.length < packFraming.frameLen p)
      (total : t.mTotalLen = packFraming.frameLen p - PackHead.size)
      (taken : t.mRecvDataLen = p.length - PackHead.size) (head : t.mRecvHeadLen = 0)
      (queued : t.mInBuffer.mBuffer = p.drop PackHead.size)

/-- The reader has taken the frames `fs` and `p` of another one. -/
structure Parsed (fs : List (List Byte)) (p : List Byte) (t : TaskVideoRecv) : Prop where
  whole : ∀ f ∈ fs, packFraming.Whole f
  file : t.mwFile = fs.flatMap stores
  sized : t.mReadBuff.length = readBuffLen
  holds : Holds p t

theorem Holds.unfinished {p : List Byte} {t : TaskVideoRecv} (holds : Holds p t) :
    packFraming.Unfinished p := by
  cases holds with
  | head short => exact .inl short
  | body _ isOpen => exact .inr isOpen

/-- With nothing taken of a frame it is ready for the next. -/
theorem Holds.ready {t : TaskVideoRecv} (holds : Holds [] t) : t.Ready := by
  cases holds with
  | head _ _ taken noBody data => exact ⟨by omega, taken⟩
  | body long => cases long

theorem parsed_init (raw : RawBuffer) : Parsed [] [] (init raw) where
  whole := nofun
  file := rfl
  sized := raw.2
  holds := .head (by decide) rfl rfl (Int.le_refl _) rfl rfl

section
variable {fs : List (List Byte)} {p bytes : List Byte} {t : TaskVideoRecv}

/-- The length of a frame, as its header announces it. -/
theorem frameLen_head (p : List Byte) :
    packFraming.frameLen p = PackHead.size + (asInt (packLen p)).toNat := by
  show PackHead.size + (asInt (packLen (p.take PackHead.size))).toNat = _
  rw [packLen_take (Nat.le_refl _)]

/-- The reader with some bytes received at an offset of `mReadBuff`. -/
def received (offset : Nat) (bytes : List Byte) (t : TaskVideoRecv) : TaskVideoRecv :=
  { t with mReadBuff := poke t.mReadBuff offset bytes }

/-- Some bytes of a header. -/
theorem takeHead_parses (parsed : Parsed fs p t)
    (stored : t.mReadBuff.take p.length = p) (taken : t.mRecvHeadLen = p.length)
    (noBody : t.mTotalLen ≤ 0) (data : t.mRecvDataLen = 0) (empty : t.mInBuffer.mBuffer = [])
    (within : p.length + bytes.length ≤ PackHead.size) :
    ∃ fs' p', Parsed fs' p' (takeHead bytes.length (t.received p.length bytes)) ∧
      fs'.flatten ++ p' = fs.flatten ++ (p ++ bytes) := by
  have size : PackHead.size = 12 := rfl
  have room : readBuffLen = 1500 := rfl
  have sized := parsed.sized
  have front : (t.received p.length bytes).mReadBuff.take (p ++ bytes).length = p ++ bytes := by
    rw [List.length_append, received, take_poke (by omega), stored]
  have sized' : (t.received p.length bytes).mReadBuff.length = readBuffLen := by
    rw [received, length_poke (by omega), sized]
  unfold takeHead
  dsimp only
  split
  case isTrue complete =>
    have count : t.mRecvHeadLen + bytes.length = PackHead.size := complete
    have length : (p ++ bytes).length = PackHead.size := by
      rw [List.length_append]
      omega
    have len : packLen (t.received p.length bytes).mReadBuff = packLen (p ++ bytes) := by
      rw [← packLen_take (Nat.le_of_eq length.symm), front]
    have frameLen := frameLen_head (p ++ bytes)
    by_cases nothing : asInt (packLen (p ++ bytes)) ≤ 0
    · -- a header that announces nothing is a frame of its own
      refine ⟨fs ++ [p ++ bytes], [], ⟨?_, ?_, sized', ?_⟩, by simp⟩
      · intro f member
        rcases List.mem_append.mp member with old | new
        · exact parsed.whole f old
        · rw [List.mem_singleton.mp new]
          exact ⟨Nat.le_of_eq length.symm, by omega⟩
      · show t.mwFile = _
        rw [parsed.file, List.flatMap_append, List.flatMap_singleton, stores, if_pos length,
          List.append_nil]
      · refine .head (by decide) rfl rfl ?_ data empty
        show asInt (packLen (t.received p.length bytes).mReadBuff) ≤ 0
        rwa [len]
    · refine ⟨fs, p ++ bytes, ⟨parsed.whole, parsed.file, sized', ?_⟩, rfl⟩
      refine .body (Nat.le_of_eq length.symm) (by omega) ?_ ?_ rfl ?_
      · show asInt (packLen (t.received p.length bytes).mReadBuff) = _
        rw [len]
        omega
      · show t.mRecvDataLen = _
        omega
      · show t.mInBuffer.mBuffer = _
        rw [empty, List.drop_eq_nil_of_le (Nat.le_of_eq length)]
  case isFalse more =>
    have count : ¬ t.mRecvHeadLen + bytes.length = PackHead.size := more
    refine ⟨fs, p ++ bytes, ⟨parsed.whole, parsed.file, sized', ?_⟩, rfl⟩
    refine .head ?_ front ?_ noBody data empty
    · rw [List.length_append]
      omega
    · show t.mRecvHeadLen + bytes.length = _
      rw [List.length_append]
      omega

/-- Some bytes of a body. -/
theorem takeBody_parses (parsed : Parsed fs p t) (long : PackHead.size ≤ p.length)
    (total : t.mTotalLen = packFraming.frameLen p - PackHead.size)
    (taken : t.mRecvDataLen = p.length - PackHead.size) (head : t.mRecvHeadLen = 0)
    (queued : t.mInBuffer.mBuffer = p.drop PackHead.size) (some' : bytes ≠ [])
    (within : p.length + bytes.length ≤ packFraming.frameLen p) (fits : bytes.length ≤ readBuffLen) :
    ∃ fs' p', Parsed fs' p' (takeBody bytes.length (t.received 0 bytes)) ∧
      fs'.flatten ++ p' = fs.flatten ++ (p ++ bytes) := by
  have size : PackHead.size = 12 := rfl
  have sized := parsed.sized
  have bytesPos := List.length_pos_iff.mpr some'
  have sized' : (t.received 0 bytes).mReadBuff.length = readBuffLen := by
    rw [received, length_poke (by omega), sized]
  have appended : ((t.received 0 bytes).mInBuffer.append (t.received 0 bytes).mReadBuff
      bytes.length).mBuffer = (p ++ bytes).drop PackHead.size := by
    show t.mInBuffer.mBuffer ++ (poke t.mReadBuff 0 bytes).take _ = _
    rw [if_neg (by omega), Int.toNat_natCast, poke_zero, List.take_left, queued,
      List.drop_append_of_le_length long]
  have frameLen : packFraming.frameLen (p ++ bytes) = packFraming.frameLen p :=
    Framing.frameLen_append long _
  have length : (p ++ bytes).length = p.length + bytes.length := List.length_append
  unfold takeBody
  dsimp only
  split
  case isTrue complete =>
    have count : t.mRecvDataLen + bytes.length = t.mTotalLen := complete
    refine ⟨fs ++ [p ++ bytes], [], ⟨?_, ?_, sized', ?_⟩, by simp⟩
    · intro f member
      rcases List.mem_append.mp member with old | new
      · exact parsed.whole f old
      · rw [List.mem_singleton.mp new]
        exact ⟨by rw [length]; exact Nat.le_trans long (Nat.le_add_right _ _), by omega⟩
    · show t.mwFile ++ tag ++ (BufferCache.mBuffer _).take (BufferCache.mBuffer _).length = _
      rw [List.take_length, appended, parsed.file, List.flatMap_append, List.flatMap_singleton, stores,
        if_neg (by omega), List.append_assoc]
    · exact .head (by decide) rfl head (Int.le_refl _) rfl (BufferCache.reset_mBuffer _)
  case isFalse more =>
    have count : ¬ t.mRecvDataLen + bytes.length = t.mTotalLen := more
    refine ⟨fs, p ++ bytes, ⟨parsed.whole, parsed.file, sized', ?_⟩, rfl⟩
    refine .body ?_ ?_ ?_ ?_ head appended
    · omega
    · omega
    · show t.mTotalLen = _
      rw [frameLen, total]
    · show t.mRecvDataLen + bytes.length = _
      omega

/-- What a call of `readBuffer` does with what it receives. -/
structure Reads (w w' : World TaskVideoRecv) (fs : List (List Byte)) (p : List Byte) (ret : Nat) :
    Prop where
  parsed : ∃ fs' p', Parsed fs' p' w'.obj ∧ fs'.flatten ++ p' = fs.flatten ++ (p ++ w.inp.take ret)
  inp : w'.inp = w.inp.drop ret
  recvs : w'.recvs = w.recvs.tail

/-- A `recv` that brings something and asked for no more than there is room for. -/
theorem recvCount_got {len : Int} {avail n : Nat} (some' : 0 < len) (arrived : 0 < avail) :
    0 < recvCount len avail (.got (n + 1)) ∧ recvCount len avail (.got (n + 1)) ≤ n + 1 := by
  have room : 0 < recvRoom len avail := by
    unfold recvRoom
    split <;> omega
  rw [recvCount, if_neg (by omega), if_neg (by omega)]
  omega

/-- A call that receives nothing. -/
theorem Reads.nothing {w : World TaskVideoRecv} (parsed : Parsed fs p w.obj) {ret : Int} (none' : ¬ 0 < ret)
    (off : Nat) (size : Nat) (at' len : Int) :
    Reads w { w.received size at' len ret with
      obj := { w.obj with mReadBuff := poke w.obj.mReadBuff off (w.inp.take ret.toNat) } } fs p ret.toNat := by
  have empty : w.inp.take ret.toNat = [] := by rw [show ret.toNat = 0 by omega, List.take_zero]
  refine ⟨⟨fs, p, ?_, by rw [empty, List.append_nil]⟩, rfl, rfl⟩
  rw [empty, poke_nil]
  exact parsed

/-- A call that asks `recv` for so many bytes reads on with what it returns. -/
def Asks (w : World TaskVideoRecv) (fs : List (List Byte)) (p : List Byte) (len : Int) : Prop :=
  ∀ ret : Int, ret ≤ len → ret ≤ w.inp.length → recvCount len w.inp.length (w.recvs.headD .again) = ret →
    wp readBuffer (fun _ w' => Reads w w' fs p ret.toNat) (fun _ _ => False) w

/-- In a header the rest of the header is asked for. -/
theorem asks_head {w : World TaskVideoRecv} (parsed : Parsed fs p w.obj)
    (stored : w.obj.mReadBuff.take p.length = p) (taken : w.obj.mRecvHeadLen = p.length)
    (noBody : w.obj.mTotalLen ≤ 0) (data : w.obj.mRecvDataLen = 0) (empty : w.obj.mInBuffer.mBuffer = []) :
    Asks w fs p (PackHead.size - p.length) := by
  intro ret within arrived result
  have size : PackHead.size = 12 := rfl
  have room : readBuffLen = 1500 := rfl
  unfold readBuffer
  simp only [wp_bind, wp_self, wp_ite]
  rw [if_neg (by omega), taken]
  refine wp_recv _ _ _ result (fun _ => ?_) (fun pos past => absurd past (by omega))
  simp only [wp_modifySelf, wp_pure]
  split
  case isTrue some' =>
    have count : ((w.inp.take ret.toNat).length : Int) = ret := by
      rw [List.length_take]
      omega
    obtain ⟨fs', p', parsed', same⟩ := takeHead_parses parsed stored taken noBody data empty
      (show p.length + (w.inp.take ret.toNat).length ≤ PackHead.size by omega)
    rw [count] at parsed'
    refine ⟨⟨fs', p', ?_, same⟩, rfl, rfl⟩
    show Parsed fs' p' (takeHead ret (w.obj.received w.obj.mRecvHeadLen.toNat (w.inp.take ret.toNat)))
    rwa [taken]
  case isFalse none' => exact .nothing parsed none' _ _ _ _

/-- In a body the rest of it is asked for, but no more than a packet. -/
theorem asks_body {w : World TaskVideoRecv} (parsed : Parsed fs p w.obj) (long : PackHead.size ≤ p.length)
    (isOpen : p.length < packFraming.frameLen p)
    (total : w.obj.mTotalLen = packFraming.frameLen p - PackHead.size)
    (taken : w.obj.mRecvDataLen = p.length - PackHead.size) (head : w.obj.mRecvHeadLen = 0)
    (queued : w.obj.mInBuffer.mBuffer = p.drop PackHead.size) :
    Asks w fs p (if w.obj.mTotalLen - w.obj.mRecvDataLen < maxMtu then w.obj.mTotalLen - w.obj.mRecvDataLen
      else maxMtu) := by
  intro ret within arrived result
  have size : PackHead.size = 12 := rfl
  have mtu : maxMtu = 1312 := rfl
  have room : readBuffLen = 1500 := rfl
  have most : ret ≤ w.obj.mTotalLen - w.obj.mRecvDataLen ∧ ret ≤ maxMtu := by
    split at within <;> omega
  unfold readBuffer
  simp only [wp_bind, wp_self, wp_ite]
  rw [if_pos (by omega)]
  refine wp_recv _ _ _ result (fun _ => ?_) (fun pos past => absurd past (by omega))
  simp only [wp_modifySelf, wp_pure]
  split
  case isTrue some' =>
    have count : ((w.inp.take ret.toNat).length : Int) = ret := by
      rw [List.length_take]
      omega
    have filled : w.inp.take ret.toNat ≠ [] := by
      intro none'
      rw [none'] at count
      exact absurd some' (by rw [← count]; decide)
    obtain ⟨fs', p', parsed', same⟩ := takeBody_parses parsed long total taken head queued filled
      (by omega) (by omega)
    rw [count] at parsed'
    exact ⟨⟨fs', p', parsed', same⟩, rfl, rfl⟩
  case isFalse none' => exact .nothing parsed none' _ _ _ _

/-- **A call of `readBuffer` reads on in the stream**; it receives something if something has arrived. -/
theorem readBuffer_parses {w : World TaskVideoRecv} (parsed : Parsed fs p w.obj) :
    ∃ ret : Nat, wp readBuffer (fun _ w' => Reads w w' fs p ret) (fun _ _ => False) w ∧
      (∀ n, w.recvs.head? = some (.got (n + 1)) → w.inp ≠ [] → 0 < ret ∧ ret ≤ n + 1) := by
  have asked : ∃ len : Int, 0 < len ∧ Asks w fs p len := by
    cases parsed.holds with
    | head short stored taken noBody data empty =>
      exact ⟨_, by omega, asks_head parsed stored taken noBody data empty⟩
    | body long isOpen total taken head queued =>
      refine ⟨_, ?_, asks_body parsed long isOpen total taken head queued⟩
      have mtu : maxMtu = 1312 := rfl
      split <;> omega
  obtain ⟨len, pos, runs⟩ := asked
  have bound := recvCount_le len w.inp.length (w.recvs.headD .again)
  refine ⟨(recvCount len w.inp.length (w.recvs.headD .again)).toNat, runs _ (bound.2 (by omega)) bound.1 rfl, ?_⟩
  intro n first some'
  have got : w.recvs.headD .again = .got (n + 1) := by
    rw [List.headD_eq_head?_getD, first]
    rfl
  have arrived := recvCount_got pos (List.length_pos_iff.mpr some') (n := n)
  rw [got]
  omega

/-- The call of `readBuffer` from there. -/
theorem after_reads {w : World TaskVideoRecv} (parsed : Parsed fs p w.obj) :
    ∃ ret : Nat, Reads w (after readBuffer w) fs p ret ∧
      (∀ n, w.recvs.head? = some (.got (n + 1)) → w.inp ≠ [] → 0 < ret ∧ ret ≤ n + 1) := by
  obtain ⟨ret, runs, progress⟩ := readBuffer_parses parsed
  exact ⟨ret, after_of_wp (runs.mono (fun _ _ reads => reads) (fun _ _ stopped => stopped.elim)),
    progress⟩

/-- **Call after call reads on in the stream.** -/
theorem reads_parses {w : World TaskVideoRecv} (parsed : Parsed fs p w.obj) (n : Nat) :
    ∃ fs' p', Parsed fs' p' (reads n w).obj ∧
      fs'.flatten ++ p' ++ (reads n w).inp = fs.flatten ++ p ++ w.inp := by
  induction n generalizing w fs p with
  | zero => exact ⟨fs, p, parsed, rfl⟩
  | succ n ih =>
    obtain ⟨ret, step, -⟩ := after_reads parsed
    obtain ⟨fs', p', parsed', same⟩ := step.parsed
    obtain ⟨fs'', p'', parsed'', same'⟩ := ih parsed'
    refine ⟨fs'', p'', parsed'', ?_⟩
    rw [reads, same', same, step.inp]
    simp only [List.append_assoc, List.take_append_drop]

/-- **Everything that has been sent is read** if every `recv` brings something. -/
theorem reads_all {w : World TaskVideoRecv} (parsed : Parsed fs p w.obj) {n : Nat}
    (delivers : ∀ r ∈ w.recvs, ∃ k, r = .got (k + 1)) (calls : n ≤ w.recvs.length)
    (enough : w.inp.length ≤ n) : (reads n w).inp = [] := by
  induction n generalizing w fs p with
  | zero => exact List.eq_nil_of_length_eq_zero (Nat.le_zero.mp enough)
  | succ n ih =>
    obtain ⟨ret, step, progress⟩ := after_reads parsed
    obtain ⟨fs', p', parsed', -⟩ := step.parsed
    cases first : w.recvs with
    | nil =>
      rw [first] at calls
      cases calls
    | cons r recvs =>
      rw [first] at delivers calls
      have tail : (after readBuffer w).recvs = recvs := by rw [step.recvs, first, List.tail_cons]
      refine ih parsed' (by rw [tail]; exact fun r' member => delivers r' (List.mem_cons_of_mem _ member))
        (by rw [tail]; exact Nat.le_of_succ_le_succ calls) ?_
      rw [step.inp, List.length_drop]
      by_cases none' : w.inp = []
      · rw [none', List.length_nil]
        omega
      · obtain ⟨k, rfl⟩ := delivers r List.mem_cons_self
        have pos := progress k (by rw [first]; rfl) none'
        omega

/-- With a byte at a time so many calls read so many bytes. -/
theorem reads_each {w : World TaskVideoRecv} (parsed : Parsed fs p w.obj) {n : Nat}
    (each : w.recvs = List.replicate n (.got 1)) (arrived : n ≤ w.inp.length) :
    (reads n w).inp = w.inp.drop n := by
  induction n generalizing w fs p with
  | zero => rfl
  | succ n ih =>
    obtain ⟨ret, step, progress⟩ := after_reads parsed
    obtain ⟨fs', p', parsed', -⟩ := step.parsed
    have filled : w.inp ≠ [] := List.length_pos_iff.mp (by omega)
    have one := progress 0 (by rw [each]; rfl) filled
    obtain rfl : ret = 1 := by omega
    have length : (w.inp.drop 1).length = w.inp.length - 1 := List.length_drop
    rw [reads, ih parsed' (by rw [step.recvs, each]; rfl) (by rw [step.inp]; omega), step.inp,
      List.drop_drop, Nat.add_comm]

end

/-- A new receiver in front of a stream. -/
def receiver (raw : RawBuffer) (stream : List Byte) (recvs : List RecvResult) : World TaskVideoRecv :=
  { accepted (init raw) stream with recvs := recvs }

/-- **Between two messages** of its stream the reader is ready for a header, and what it has written are
the messages before. -/
theorem reads_messages {messages : List (List Byte)} (whole : ∀ m ∈ messages, packFraming.Whole m)
    (raw : RawBuffer) (recvs : List RecvResult) (n k : Nat)
    (left : (reads n (receiver raw messages.flatten recvs)).inp = (messages.drop k).flatten) :
    (reads n (receiver raw messages.flatten recvs)).obj.mwFile = (messages.take k).flatMap stores ∧
      Ready (reads n (receiver raw messages.flatten recvs)).obj := by
  obtain ⟨fs, p, parsed, same⟩ := reads_parses (w := receiver raw messages.flatten recvs)
    (parsed_init raw) n
  have split : fs.flatten ++ p = (messages.take k).flatten ++ [] := by
    rw [left] at same
    refine List.append_cancel_right (same.trans ?_)
    show messages.flatten = _
    rw [List.append_nil, ← List.flatten_append, List.take_append_drop]
  obtain ⟨rfl, rfl⟩ := Framing.split_unique parsed.whole
    (fun m member => whole m (List.mem_of_mem_take member)) parsed.holds.unfinished
    Framing.unfinished_nil split
  exact ⟨parsed.file, parsed.holds.ready⟩

/-- Behind a header without its body the reader is not ready: what comes next it takes for the body. -/
theorem reads_header {messages : List (List Byte)} (whole : ∀ m ∈ messages, packFraming.Whole m)
    {h : List Byte} (long : PackHead.size ≤ h.length) (isOpen : h.length < packFraming.frameLen h)
    (raw : RawBuffer) (rest : List Byte) :
    ∃ recvs n, (reads n (receiver raw (messages.flatten ++ h ++ rest) recvs)).inp = rest ∧
      ¬ Ready (reads n (receiver raw (messages.flatten ++ h ++ rest) recvs)).obj := by
  let n := (messages.flatten ++ h).length
  let w := receiver raw (messages.flatten ++ h ++ rest) (List.replicate n (.got 1))
  have left : (reads n w).inp = rest := by
    have arrived : n ≤ (messages.flatten ++ h ++ rest).length := by
      rw [List.length_append]
      omega
    exact (reads_each (w := w) (parsed_init raw) rfl arrived).trans List.drop_left
  obtain ⟨fs, p, parsed, same⟩ := reads_parses (w := w) (parsed_init raw) n
  have split : fs.flatten ++ p = messages.flatten ++ h := by
    rw [left] at same
    exact List.append_cancel_right same
  obtain ⟨-, rfl⟩ := Framing.split_unique parsed.whole whole parsed.holds.unfinished (.inr isOpen) split
  refine ⟨_, n, left, fun ready => ?_⟩
  have none' : (reads n w).obj.mTotalLen - (reads n w).obj.mRecvDataLen ≤ 0 := ready.body
  cases parsed.holds with
  | head short => omega
  | body _ _ total taken => omega

end TaskVideoRecv

end GreatEvent
