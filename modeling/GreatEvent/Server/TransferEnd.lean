import GreatEvent.Server.FileSendStream
import GreatEvent.Server.SendLoop

/-!
# When a transfer ends

`writeBuffer` counts what `fread` returns against the size that `stat` has
reported. Every call reads on, or sends what the last one has read, as long
as there is something to read; when the readable data ends before the
reported size, it sends empty chunks for ever.
-/

namespace GreatEvent

open Lib FrameReader

namespace TaskFileSend

open TagFileSendBuffer

/-- What one call of `writeBuffer` meets: how much of the readable data `fread` can give by now, and
the results of `send`. -/
structure WriteCall where
  seen : Nat
  sends : List SendResult

/-- The task when the call starts. -/
def serve (data : List Byte) (w : World TaskFileSend) (c : WriteCall) : World TaskFileSend :=
  { w with
    obj := { w.obj with mpFile := w.obj.mpFile.map fun f => { f with content := data.take c.seen } }
    sends := c.sends }

/-- The sends of the call succeed, and `fread` gives something until the readable data ends. -/
structure WriteCall.Fine (data : List Byte) (w : World TaskFileSend) (c : WriteCall) : Prop where
  sends : Accepts (due w.obj) c.sends
  reads : ∀ f, w.obj.mpFile = some f → f.pos < data.length → f.pos < c.seen

/-- Calls that meet this, one after another, until one returns `OWN_SOCK_EXIT`. -/
def Served (data : List Byte) : List WriteCall → World TaskFileSend → Prop
  | [], _ => True
  | c :: cs, w => c.Fine data w ∧
      wp writeBuffer (fun ret t => ret = ownSockExit ∨ Served data cs t) (fun _ _ => True) (serve data w c)

/-- One of the calls returns `OWN_SOCK_EXIT`. -/
def ReachesEnd (data : List Byte) : List WriteCall → World TaskFileSend → Prop
  | [], _ => False
  | c :: cs, w =>
      wp writeBuffer (fun ret t => ret = ownSockExit ∨ ReachesEnd data cs t) (fun _ _ => False) (serve data w c)

/-- Between two calls, `pos` bytes having been read of the `len` that `mFileLen` stands for. -/
structure Going (len pos : Nat) (t : TaskFileSend) : Prop where
  file : ∃ content, t.mpFile = some ⟨content, pos⟩
  within : pos ≤ len
  mFileLen : t.mFileLen.toNat = len
  mHasReadLen : t.mHasReadLen.toNat = pos
  noMessage : t.mMsgQueue = []
  sending : t.mbSendingData = true
  buffer : Free t.mSendBuffer ∨ (Waits t.mSendBuffer ∧ t.mSendBuffer.bSendCmd = false)
  roomy : ∀ mem, t.mSendBuffer.data = some mem → min (len - pos) bufferLen ≤ mem.length

/-- The calls that are needed at most before the last one. -/
def ahead (len pos : Nat) (t : TaskFileSend) : Nat :=
  2 * (len - pos) + if t.mSendBuffer.totalLen = 0 then 0 else 1

section
variable {len pos : Nat} {data : List Byte} {w : World TaskFileSend} {c : WriteCall}

theorem Going.chunkLen_eq {t : TaskFileSend} (going : Going len pos t) : chunkLen t = min (len - pos) bufferLen := by
  have within := going.within
  rw [chunkLen, UInt32.toNat_sub_of_le, going.mFileLen, going.mHasReadLen]
  rw [UInt32.le_iff_toNat_le, going.mFileLen, going.mHasReadLen]
  exact within

/-- The memory for a chunk is there. -/
theorem Going.room {t : TaskFileSend} (going : Going len pos t) : chunkLen t ≤ (chunkRoom t).length := by
  unfold chunkRoom createMem
  cases mem : t.mSendBuffer.data with
  | none => simp
  | some m =>
    have roomy := going.roomy m mem
    rw [← going.chunkLen_eq] at roomy
    simpa [mem] using roomy

theorem Going.serve (going : Going len pos w.obj) (data : List Byte) (c : WriteCall) :
    Going len pos (serve data w c).obj ∧ (TaskFileSend.serve data w c).obj.mpFile = some ⟨data.take c.seen, pos⟩ := by
  obtain ⟨content, file⟩ := going.file
  have served : (TaskFileSend.serve data w c).obj.mpFile = some ⟨data.take c.seen, pos⟩ := by
    simp only [TaskFileSend.serve, file, Option.map_some]
  exact ⟨⟨⟨_, served⟩, going.within, going.mFileLen, going.mHasReadLen, going.noMessage, going.sending,
    going.buffer, going.roomy⟩, served⟩

/-- An accepted send turns the buffer. -/
theorem wp_tcpSendData_accepts {d : World TaskFileSend} {Q : Int → World TaskFileSend → Prop}
    {E : Stop → World TaskFileSend → Prop} (waits : Waits d.obj.mSendBuffer)
    (accepts : Accepts d.obj.mSendBuffer.totalLen d.sends)
    (sent : ∀ wire left, Q d.obj.mSendBuffer.totalLen { d with
      obj := { d.obj with mSendBuffer := d.obj.mSendBuffer.turned }, wire := wire, sends := left }) :
    wp tcpSendData Q E d := by
  have length := waits.length_next
  refine wp_tcpSendData_next waits (wp_sendEx_accepts _ (by rwa [length]) fun left => ?_)
  exact ⟨rfl, .inl ⟨by rw [length], by rw [length]; exact sent _ left⟩⟩

/-- Reading a chunk does not change the memory's size. -/
theorem length_chunkMem {t : TaskFileSend} {file : FileStream} (room : chunkLen t ≤ (chunkRoom t).length) :
    (chunkMem t file).length = (chunkRoom t).length := by
  have read : (file.fread (chunkLen t)).length ≤ chunkLen t := by
    rw [FileStream.fread, List.length_take]
    omega
  have cleared : (poke (chunkRoom t) 0 (List.replicate (chunkLen t) 0)).length = (chunkRoom t).length :=
    length_poke (by rw [List.length_replicate]; omega)
  rw [chunkMem, length_poke (by omega), cleared]

/-- A chunk has been sent: the buffer is empty. -/
theorem Going.flushed {t : TaskFileSend} (going : Going len pos t) (chunk : t.mSendBuffer.bSendCmd = false) :
    Going len pos { t with mSendBuffer := t.mSendBuffer.turned } ∧ t.mSendBuffer.turned.totalLen = 0 := by
  have reset : t.mSendBuffer.turned = t.mSendBuffer.reset := by
    rw [turned, if_neg (by rw [chunk]; exact Bool.false_ne_true)]
  refine ⟨⟨going.file, going.within, going.mFileLen, going.mHasReadLen, going.noMessage, going.sending,
    .inl ?_, fun mem eq => going.roomy mem ((turned_data _).symm.trans eq)⟩, by rw [reset]; rfl⟩
  rw [reset]
  exact ⟨rfl, rfl, rfl⟩

/-- A chunk has been read and its header sent. -/
theorem Going.chunk {d : World TaskFileSend} {content : List Byte} (going : Going len pos d.obj)
    (waits : Waits (loadChunk d ⟨content, pos⟩).obj.mSendBuffer) :
    Going len (pos + min (min (len - pos) bufferLen) (content.length - pos))
      { (loadChunk d ⟨content, pos⟩).obj with
        mSendBuffer := (loadChunk d ⟨content, pos⟩).obj.mSendBuffer.turned } := by
  have within := going.within
  have small := going.mFileLen ▸ UInt32.toNat_lt d.obj.mFileLen
  have count : ((⟨content, pos⟩ : FileStream).fread (chunkLen d.obj)).length =
      min (min (len - pos) bufferLen) (content.length - pos) := by
    rw [going.chunkLen_eq, FileStream.fread, List.length_take, List.length_drop]
  refine ⟨⟨content, ?_⟩, by omega, going.mFileLen, ?_, going.noMessage, going.sending, ?_, ?_⟩
  · show some (FileStream.afterRead _ _) = _
    rw [FileStream.afterRead, count]
  · show (_ + UInt32.ofNat _).toNat = _
    rw [count, UInt32.toNat_add, going.mHasReadLen, UInt32.toNat_ofNat']
    omega
  · exact waits.turned.imp id fun chunk => ⟨chunk, rfl⟩
  · intro mem eq
    obtain rfl := Option.some.inj ((turned_data _).symm.trans eq)
    have room := going.room
    rw [length_chunkMem room, ← Nat.sub_sub]
    rw [going.chunkLen_eq] at room
    omega

/-- **One call**: it ends the transfer when everything has been read; otherwise it sends what was read
before, or reads on. -/
theorem Going.call (going : Going len pos w.obj) (fine : c.Fine data w) :
    wp writeBuffer (fun ret t => (ret = ownSockExit ∧ pos = len) ∨
      (ret ≠ ownSockExit ∧ ∃ pos', Going len pos' t.obj ∧ (pos ≤ data.length → pos' ≤ data.length) ∧
        (len ≤ data.length → ahead len pos' t.obj < ahead len pos w.obj)))
      (fun _ _ => False) (TaskFileSend.serve data w c) := by
  obtain ⟨served, file⟩ := going.serve data c
  have same : due (TaskFileSend.serve data w c).obj = due w.obj := rfl
  have sends := fine.sends
  rw [← same] at sends
  have unread : (TaskFileSend.serve data w c).obj.mHasReadLen < (TaskFileSend.serve data w c).obj.mFileLen ↔
      pos < len := by
    rw [UInt32.lt_iff_toNat_lt, served.mFileLen, served.mHasReadLen]
  have positive : ∀ n : Nat, (n : Int) ≠ ownSockExit := by
    intro n
    unfold ownSockExit
    omega
  refine wp_writeBuffer ?_ ?_ ?_ ?_ ?_ ?_ ?_
  · intro busy
    have waits := served.buffer.resolve_left fun free => busy free.totalLen
    rw [due, if_pos busy] at sends
    obtain ⟨next, empty⟩ := served.flushed waits.2
    refine wp_tcpSendData_accepts waits.1 sends fun wire left => .inr ⟨positive _, pos, next, id, fun _ => ?_⟩
    have now : w.obj.mSendBuffer.totalLen ≠ 0 := busy
    simp only [ahead]
    rw [if_neg now, if_pos (by exact empty)]
    omega
  · intro _ _ val rest queue
    rw [served.noMessage] at queue
    cases queue
  · intro _ _ silent
    rw [served.sending] at silent
    cases silent
  · intro free more queue _ file' same'
    cases file.symm.trans same'
    have empty := served.buffer.resolve_right fun waits => waits.1.busy free
    obtain ⟨waits, -⟩ := loadChunk_waits empty ⟨data.take c.seen, pos⟩
    rw [due, if_neg (not_not_intro free), if_pos ⟨more, served.noMessage⟩] at sends
    rw [unread] at more
    have next := served.chunk waits
    rw [List.length_take] at next
    refine wp_tcpSendData_accepts waits sends fun wire left => .inr ⟨positive _, _, next, ?_, ?_⟩
    · intro _
      omega
    · intro enough
      obtain ⟨content, own⟩ := going.file
      have given : pos < c.seen := fine.reads _ own (show pos < data.length by omega)
      have some' : 0 < bufferLen := by decide
      have now : w.obj.mSendBuffer.totalLen = 0 := free
      simp only [ahead]
      rw [if_pos now]
      split <;> omega
  · exact fun overflow => absurd served.room overflow
  · intro none'
    rw [file] at none'
    cases none'
  · intro free done
    have within := served.within
    have empty := served.buffer.resolve_right fun waits => waits.1.busy free
    obtain ⟨waits, -⟩ := loadCmd_waits empty .dataEnd 0
    rw [due, if_neg (not_not_intro free), if_neg fun both => done both.1] at sends
    exact wp_tcpSendData_accepts waits sends fun _ _ => .inl ⟨rfl, by rw [unread] at done; omega⟩

/-- **Enough calls end the transfer** when the readable data reaches the reported length. -/
theorem Going.ends {cs : List WriteCall} (going : Going len pos w.obj) (enough : len ≤ data.length)
    (served : Served data cs w) (many : ahead len pos w.obj < cs.length) : ReachesEnd data cs w := by
  induction cs generalizing w pos with
  | nil => cases many
  | cons c cs ih =>
    obtain ⟨fine, rest⟩ := served
    refine ((going.call fine).and rest).mono ?_ (fun _ _ stopped => stopped.1)
    rintro ret t ⟨⟨exits, -⟩ | ⟨-, pos', going', -, less⟩, rest⟩
    · exact .inl exits
    · rcases rest with exits | rest
      · exact .inl exits
      · have less := less enough
        rw [List.length_cons] at many
        exact .inr (ih going' rest (by omega))

/-- **No number of calls ends it** when the readable data is shorter. -/
theorem Going.goes_on {cs : List WriteCall} (going : Going len pos w.obj) (short : data.length < len)
    (inside : pos ≤ data.length) (served : Served data cs w) : ¬ ReachesEnd data cs w := by
  induction cs generalizing w pos with
  | nil => exact id
  | cons c cs ih =>
    obtain ⟨fine, rest⟩ := served
    intro ends
    obtain ⟨ret, t, -, ⟨call, rest⟩, ends⟩ := wp_returns (((going.call fine).and rest).and ends |>.mono
      (fun _ _ post => post) (fun _ _ stopped => stopped.1.1))
    rcases call with ⟨-, all⟩ | ⟨goes, pos', going', inside', -⟩
    · omega
    · exact ih going' (inside' inside) (rest.resolve_left goes) (ends.resolve_left goes)

/-- There are calls of every number. -/
theorem Going.served_exists (going : Going len pos w.obj) (data : List Byte) (n : Nat) :
    ∃ cs, cs.length = n ∧ Served data cs w := by
  induction n generalizing w pos with
  | zero => exact ⟨[], rfl, trivial⟩
  | succ n ih =>
    have some' : 0 < due w.obj := by
      unfold due
      split
      · omega
      · split <;> decide
    have fine : (⟨data.length, [.sent (due w.obj)]⟩ : WriteCall).Fine data w :=
      ⟨⟨some', fun less => absurd less (Nat.lt_irrefl _)⟩, fun _ _ less => less⟩
    obtain ⟨ret, t, run, call⟩ := wp_returns (going.call fine)
    rcases call with ⟨exits, -⟩ | ⟨-, pos', going', -⟩
    · refine ⟨⟨data.length, [.sent (due w.obj)]⟩ :: List.replicate n ⟨0, []⟩, by simp, fine, ?_⟩
      exact wp_of_ok run (.inl exits)
    · obtain ⟨cs, many, served⟩ := ih going'
      exact ⟨⟨data.length, [.sent (due w.obj)]⟩ :: cs, by rw [List.length_cons, many], fine,
        wp_of_ok run (.inr served)⟩

/-- A new task whose login reply has been sent. -/
theorem going_start (filename file : List Byte) (size : Nat) (inp : List Byte) {sends : List SendResult}
    (accepted : Accepts (packHeadLen + loginRetSize) sends) :
    Going (size % 2 ^ 32) 0 (start filename (some ⟨file, 0⟩) size inp sends).obj ∧
      (start filename (some ⟨file, 0⟩) size inp sends).obj.mSendBuffer.totalLen = 0 := by
  have fits : (loginRetFrame (fileInfo (init filename (some ⟨file, 0⟩) size).mFileLen)).bytes.length ≤ cmdLen := by
    rw [length_loginRetFrame]
    decide
  refine after_of_wp (P := fun t => Going _ _ t.obj ∧ t.obj.mSendBuffer.totalLen = 0) ?_
  simp only [construct, wp_bind, wp_self, wp_modifySend, wp_emit]
  refine wp_tcpSendData_accepts (waits_login _ _ _ fits) accepted fun wire left => ?_
  refine ⟨⟨⟨file, rfl⟩, Nat.zero_le _, UInt32.toNat_ofNat', rfl, rfl, rfl, .inl ⟨rfl, rfl, rfl⟩, ?_⟩, rfl⟩
  intro mem none'
  cases none'

end

/-- **A transfer ends exactly when the data can be read as far as the reported length says** (the size
modulo `2^32`, which is all that the task keeps of it): after two calls for each byte of that length, and
never when the data is shorter. -/
theorem transfer_ends_iff (filename : List Byte) (size : Nat) (data inp : List Byte) (sends : List SendResult)
    (accepted : Accepts (packHeadLen + loginRetSize) sends) :
    ((∀ cs, Served data cs (start filename (some ⟨data, 0⟩) size inp sends) →
        2 * (size % 2 ^ 32) + 1 ≤ cs.length →
        ReachesEnd data cs (start filename (some ⟨data, 0⟩) size inp sends)) ↔
      size % 2 ^ 32 ≤ data.length) ∧
    (data.length < size % 2 ^ 32 →
      ∀ cs, Served data cs (start filename (some ⟨data, 0⟩) size inp sends) →
        ¬ ReachesEnd data cs (start filename (some ⟨data, 0⟩) size inp sends)) := by
  obtain ⟨going, free⟩ := going_start filename data size inp accepted
  have never : data.length < size % 2 ^ 32 →
      ∀ cs, Served data cs (start filename (some ⟨data, 0⟩) size inp sends) →
        ¬ ReachesEnd data cs (start filename (some ⟨data, 0⟩) size inp sends) :=
    fun short _ served => going.goes_on short (Nat.zero_le _) served
  refine ⟨⟨fun ends => ?_, fun enough cs served many => ?_⟩, never⟩
  · refine Nat.le_of_not_lt fun short => ?_
    obtain ⟨cs, many, served⟩ := going.served_exists data (2 * (size % 2 ^ 32) + 1)
    exact never short cs served (ends cs served (by omega))
  · refine going.ends enough served ?_
    rw [ahead, if_pos free]
    omega

/-- A file of one byte, and the same after it has been emptied. -/
theorem transfer_ends_sample :
    (∀ cs, Served [7] cs (start (ascii "a") (some ⟨[7], 0⟩) 1 [] [.sent 2000]) →
      2 * 1 + 1 ≤ cs.length → ReachesEnd [7] cs (start (ascii "a") (some ⟨[7], 0⟩) 1 [] [.sent 2000])) ∧
    ∀ cs, Served [] cs (start (ascii "a") (some ⟨[], 0⟩) 1 [] [.sent 2000]) →
      ¬ ReachesEnd [] cs (start (ascii "a") (some ⟨[], 0⟩) 1 [] [.sent 2000]) := by
  have accepted : Accepts (packHeadLen + loginRetSize) [.sent 2000] :=
    ⟨by decide, fun less => absurd less (by decide)⟩
  exact ⟨(transfer_ends_iff (ascii "a") 1 [7] [] [.sent 2000] accepted).1.mpr (by decide),
    (transfer_ends_iff (ascii "a") 1 [] [] [.sent 2000] accepted).2 (by decide)⟩

/-- A file that has become empty since `stat` is sent for ever. -/
theorem truncated_file_never_ends : ¬ ∃ bound, ∀ cs,
    Served [] cs (start (ascii "a") (some ⟨[], 0⟩) 1 [] [.sent 2000]) → bound ≤ cs.length →
      ReachesEnd [] cs (start (ascii "a") (some ⟨[], 0⟩) 1 [] [.sent 2000]) := by
  rintro ⟨bound, ends⟩
  obtain ⟨going, -⟩ : Going 1 0 (start (ascii "a") (some ⟨[], 0⟩) 1 [] [.sent 2000]).obj ∧ _ :=
    going_start (ascii "a") [] 1 [] ⟨by decide, fun less => absurd less (by decide)⟩
  obtain ⟨cs, many, served⟩ := going.served_exists [] bound
  exact going.goes_on (by decide) (Nat.zero_le _) served (ends cs served (by omega))

end TaskFileSend

end GreatEvent
