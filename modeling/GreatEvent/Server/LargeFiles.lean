import GreatEvent.Server.SendErrors
import GreatEvent.Server.Transfer

/-!
# Files of every size

`stat` reports 64 bits, `mFileLen` and `mHasReadLen` are `unsigned int`: a
transfer is one of `st_size % 2^32` bytes. Up to there nothing wraps, so
every chunk says its own position, but the announced end and the number of
bytes before the end of the data are those of the file only below `2^32`.
No answer of the socket changes what is queued.
-/

namespace GreatEvent

open Lib FrameReader

/-- `tmEnd` in the body of a login reply. -/
def tmEndOf (f : Frame) : UInt32 := wordAt f.body 332

/-- `dwPos` in the body of a chunk. -/
def dwPosOf (f : Frame) : UInt32 := wordAt f.body 0

namespace TaskFileSend

theorem tmEndOf_loginRetFrame (info : FileInfo) : tmEndOf (loginRetFrame info) = info.tmEnd := by
  have front : (leBytes 4 0 ++ (leBytes 4 FileInfo.size ++ (info.pi ++ leBytes 4 info.tmStart.toNat))).length =
      332 := by
    simp only [List.length_append, length_leBytes, info.pi_len]
  have at' := wordAt_append _ info.tmEnd (List.replicate 696 0) _ front
  have body : (loginRetFrame info).body = loginRetBytes info := rfl
  rw [tmEndOf, body, loginRetBytes, FileInfo.bytes]
  simp only [List.append_assoc] at at' ⊢
  exact at'

theorem dwPosOf_chunkFrame (dwPos : UInt32) {data : List Byte} (small : data.length ≤ bufferLen) :
    dwPosOf (chunkFrame dwPos data small) = dwPos := by
  have at' := wordAt_append [] dwPos (leBytes 4 (UInt32.ofNat data.length).toNat ++ data) 0 rfl
  have body : (chunkFrame dwPos data small).body = FileGet.bytes ⟨dwPos, UInt32.ofNat data.length⟩ ++ data := rfl
  rw [dwPosOf, body, FileGet.bytes, List.append_assoc]
  exact at'

/-- The queued frames announce `n` bytes, every chunk is placed behind the data before it, and the end
of the data comes after `n` bytes. -/
structure Exact (n : Nat) (frames : List Frame) : Prop where
  tmEnd : ∃ f, frames[0]? = some f ∧ f.cmd.dwCmd = ModuleMsg.loginRet.code ∧ (tmEndOf f).toNat = n
  dwPos : ∀ i f, frames[i]? = some f → f.cmd.dwCmd = ModuleMsg.video.code →
    (dwPosOf f).toNat = (carries (frames.take i)).length
  data : ∀ i f, frames[i]? = some f → f.cmd.dwCmd = ModuleMsg.dataEnd.code →
    (carries (frames.take i)).length = n

/-- **The numbers are those of one size only.** -/
theorem Exact.iff_eq {m n : Nat} {frames : List Frame} (right : Exact m frames) : Exact n frames ↔ n = m := by
  constructor
  · intro other
    obtain ⟨f, first, -, value⟩ := right.tmEnd
    obtain ⟨f', first', -, value'⟩ := other.tmEnd
    cases first.symm.trans first'
    omega
  · rintro rfl
    exact right

/-- One more frame: a chunk at its place, the end after the data, or anything else. -/
theorem Exact.concat {n : Nat} {frames : List Frame} (counted : Exact n frames) {f : Frame}
    (dwPos : f.cmd.dwCmd = ModuleMsg.video.code → (dwPosOf f).toNat = (carries frames).length)
    (data : f.cmd.dwCmd = ModuleMsg.dataEnd.code → (carries frames).length = n) :
    Exact n (frames ++ [f]) := by
  have place : ∀ i g, (frames ++ [f])[i]? = some g →
      (frames[i]? = some g ∧ (frames ++ [f]).take i = frames.take i) ∨
        (g = f ∧ (frames ++ [f]).take i = frames) := by
    intro i g here
    by_cases inside : i < frames.length
    · rw [List.getElem?_append_left inside] at here
      exact .inl ⟨here, List.take_append_of_le_length (by omega)⟩
    · rw [List.getElem?_append_right (by omega), List.getElem?_singleton] at here
      split at here
      case isTrue last =>
        cases here
        exact .inr ⟨rfl, by rw [show i = frames.length by omega, List.take_left]⟩
      case isFalse => cases here
  constructor
  · obtain ⟨g, first, login⟩ := counted.tmEnd
    have some' : 0 < frames.length := (List.getElem?_eq_some_iff.mp first).1
    exact ⟨g, by rw [List.getElem?_append_left some', first], login⟩
  · intro i g here video
    rcases place i g here with ⟨old, same⟩ | ⟨rfl, same⟩
    · rw [same]
      exact counted.dwPos i g old video
    · rw [same]
      exact dwPos video
  · intro i g here ends
    rcases place i g here with ⟨old, same⟩ | ⟨rfl, same⟩
    · rw [same]
      exact counted.data i g old ends
    · rw [same]
      exact data ends

section
variable {P : TaskFileSend → List Frame → Prop} {G : List Frame → Prop} {w w' : World TaskFileSend}

/-- **What a callback queues does not depend on the socket**: an account of the frames that does not
look at the send buffer is kept whatever the sends come to. -/
theorem method_queues (carried : Carried P G) (loose : ∀ t b frames, P t frames → P { t with mSendBuffer := b } frames)
    (e : Event) (holds : P w.obj (queuedIn w.trace)) :
    wp (e.method : Act TaskFileSend Int)
      (fun ret t => P t.obj (queuedIn t.trace) ∨ e.tearsDown ret = some .onWrite ∧ G (queuedIn t.trace))
      (fun _ t => G (queuedIn t.trace)) w := by
  have stopped := carried.weaker _ _ holds
  cases e with
  | read recvs sends =>
    have beside : ∀ t, Beside w t → P t.obj (queuedIn t.trace) := by
      intro t b
      rw [b.queued]
      exact carried.steady _ _ _ b.same holds
    exact (read_beside w).mono (fun _ t b => .inl (beside t b)) (fun _ t b => carried.weaker _ _ (beside t b))
  | write sends =>
    refine wp_writeBuffer ?_ ?_ ?_ ?_ ?_ ?_ ?_
    · intro _
      exact wp_tcpSendData_frame (fun _ b _ _ => .inl (loose _ b _ holds)) (fun _ _ => stopped)
    · intro _ _ val rest queue
      have now := carried.message _ _ val rest holds queue
      rw [← queuedIn_concat] at now
      exact wp_tcpSendData_frame (fun _ b _ _ => .inl (loose { w.obj with mMsgQueue := rest } b _ now))
        (fun _ _ => carried.weaker _ _ now)
    · exact fun _ _ _ => .inl holds
    · intro _ more _ _ file same
      have now := carried.chunk w _ file holds more same
      rw [← queuedIn_concat] at now
      exact wp_tcpSendData_frame (fun _ b _ _ => .inl (loose _ b _ now)) (fun _ _ => carried.weaker _ _ now)
    · exact fun _ _ => stopped
    · exact fun _ => stopped
    · intro _ done
      have now := carried.ending _ _ holds done
      rw [← queuedIn_concat] at now
      have exits : (Event.write sends).tearsDown ownSockExit = some .onWrite := by
        rw [Event.tearsDown, if_pos rfl]
      exact wp_tcpSendData_frame (fun _ _ _ _ => .inr ⟨exits, now⟩) (fun _ _ => now)
  | timer => exact .inl holds
  | readTimeout => exact .inl holds
  | writeTimeout => exact .inl holds

/-- A session with this account of its frames: it goes on, or it has stopped or ended. -/
def Queues (P : TaskFileSend → List Frame → Prop) (G : List Frame → Prop) (w : World TaskFileSend) : Prop :=
  P w.obj (queuedIn w.trace) ∨ (¬ w.Live ∧ G (queuedIn w.trace))

theorem Queues.fire (carried : Carried P G) (loose : ∀ t b frames, P t frames → P { t with mSendBuffer := b } frames)
    {e : Event} (queues : Queues P G w) (fired : fire w e = some w') : Queues P G w' := by
  have holds := queues.resolve_right fun stands => stands.1 (live_of_fire fired)
  have turn := fire_returns fired
    (R := fun ret c => P c.obj (queuedIn c.trace) ∨ e.tearsDown ret = some .onWrite ∧ G (queuedIn c.trace))
    (H := fun c => G (queuedIn c.trace)) ?_
  · rcases turn with ⟨ret, stays, now⟩ | ⟨ret, by', c, tears, now, closed, same⟩ | ⟨halted, stands⟩
    · refine .inl (now.resolve_right ?_)
      rintro ⟨tears, -⟩
      rw [stays] at tears
      cases tears
    · have ended : G (queuedIn c.trace) := now.elim (carried.weaker _ _) And.right
      exact .inr ⟨World.not_live_of_closed closed, queuedIn_torn same ▸ ended⟩
    · exact .inr ⟨World.not_live_of_halted halted, stands⟩
  · intro d same _ _ _
    have obj : d.obj = w.obj := congrArg Core.obj same
    have trace : d.trace = w.trace := congrArg Core.trace same
    exact method_queues carried loose e (by rw [obj, trace]; exact holds)

/-- The login reply is queued, whatever its send comes to. -/
theorem queues_start (carried : Carried P G) (loose : ∀ t b frames, P t frames → P { t with mSendBuffer := b } frames)
    {filename : List Byte} {file : Option FileStream} {st_size : Nat} (inp : List Byte) (sends : List SendResult)
    (new : P (init filename file st_size) [loginRetFrame (fileInfo (init filename file st_size).mFileLen)]) :
    Queues P G (start filename file st_size inp sends) := by
  refine after_of_wp ?_
  refine wp_construct (fun b wire sends' => .inl ?_) (fun b wire sends' => .inr ⟨?_, ?_⟩)
  · exact loose _ b _ new
  · exact fun live => Option.some_ne_none _ live.2
  · exact carried.weaker _ _ new

end

/-- The file has been read up to `pos`, and the frames say so. -/
structure Counts (content : List Byte) (pos : Nat) (t : TaskFileSend) (frames : List Frame) : Prop where
  mpFile : t.mpFile = some ⟨content, pos⟩
  within : pos ≤ content.length % 2 ^ 32
  mFileLen : t.mFileLen = UInt32.ofNat content.length
  mHasReadLen : t.mHasReadLen = UInt32.ofNat pos
  noMessage : t.mMsgQueue = []
  right : Exact (content.length % 2 ^ 32) frames
  carried : (carries frames).length = pos

/-- **Every chunk keeps the count**, whatever the size of the file. -/
theorem carried_counts (content : List Byte) :
    Carried (fun t frames => ∃ pos, Counts content pos t frames) (Exact (content.length % 2 ^ 32)) where
  steady := by
    rintro t t' frames same ⟨pos, r⟩
    exact ⟨pos, same.mpFile.trans r.mpFile, r.within, same.mFileLen.trans r.mFileLen,
      same.mHasReadLen.trans r.mHasReadLen, same.mMsgQueue.trans r.noMessage, r.right, r.carried⟩
  weaker := fun t frames ⟨pos, r⟩ => r.right
  message := by
    rintro t frames val rest ⟨pos, r⟩ queue
    rw [r.noMessage] at queue
    cases queue
  chunk := by
    rintro w frames file ⟨pos, r⟩ more same
    obtain rfl : file = ⟨content, pos⟩ := Option.some.inj (same.symm.trans r.mpFile)
    have within := r.within
    have pos' : (UInt32.ofNat pos).toNat = pos := by
      rw [UInt32.toNat_ofNat']
      omega
    obtain ⟨left, count⟩ := chunk_reads r.mFileLen r.mHasReadLen within
    obtain ⟨-, data⟩ := stores_chunkFrame (UInt32.ofNat pos) (length_fread_le w.obj ⟨content, pos⟩)
    refine ⟨pos + chunkLen w.obj, ?_, ?_, r.mFileLen, ?_, r.noMessage, r.right.concat (fun _ => ?_) ?_, ?_⟩
    · show some (FileStream.afterRead _ _) = _
      rw [FileStream.afterRead, count]
    · rw [chunkLen, left]
      omega
    · show w.obj.mHasReadLen + UInt32.ofNat _ = _
      rw [count, r.mHasReadLen, ← UInt32.ofNat_add]
    · rw [nextChunk, dwPosOf_chunkFrame, pos', r.carried]
    · intro ends
      exact absurd ends (show ModuleMsg.video.code ≠ ModuleMsg.dataEnd.code by decide)
    · rw [carries_concat, List.length_append, r.carried, ← count]
      exact congrArg (pos + ·) (congrArg List.length data)
  ending := by
    rintro t frames ⟨pos, r⟩ done
    have within := r.within
    refine r.right.concat (fun video => ?_) fun _ => ?_
    · exact absurd video (show ModuleMsg.dataEnd.code ≠ ModuleMsg.video.code by decide)
    · rw [r.mFileLen, r.mHasReadLen, UInt32.lt_iff_toNat_lt, UInt32.toNat_ofNat', UInt32.toNat_ofNat'] at done
      rw [r.carried]
      omega

/-- A new task has counted nothing. -/
theorem counts_init (filename content : List Byte) :
    Counts content 0 (init filename (some ⟨content, 0⟩) content.length)
    [loginRetFrame (fileInfo (UInt32.ofNat content.length))] := by
  obtain ⟨-, nothing⟩ := carries_login (fileInfo (UInt32.ofNat content.length))
  have only : ∀ (i : Nat) (f : Frame), [loginRetFrame (fileInfo (UInt32.ofNat content.length))][i]? = some f →
      f.cmd.dwCmd = ModuleMsg.loginRet.code := by
    intro i f here
    rw [List.getElem?_singleton] at here
    split at here <;> cases here
    rfl
  refine ⟨rfl, Nat.zero_le _, rfl, rfl, rfl, ⟨⟨_, rfl, rfl, ?_⟩, ?_, ?_⟩, ?_⟩
  · rw [tmEndOf_loginRetFrame]
    exact UInt32.toNat_ofNat'
  · intro i f here video
    exact absurd ((only i f here).symm.trans video) (by decide)
  · intro i f here ends
    exact absurd ((only i f here).symm.trans ends) (by decide)
  · rw [nothing, List.length_nil]

/-- After any run: the count is that of the size modulo `2^32`. -/
theorem exact_mod {filename content inp : List Byte} {sends : List SendResult} {es : List Event} {w : World TaskFileSend}
    (run : Runs fire (fun _ _ _ => True) (start filename (some ⟨content, 0⟩) content.length inp sends) es w) :
    Exact (content.length % 2 ^ 32) (queuedIn w.trace) := by
  have carried := carried_counts content
  have loose : ∀ t b frames, (∃ pos, Counts content pos t frames) →
      ∃ pos, Counts content pos { t with mSendBuffer := b } frames :=
    fun _ _ _ ⟨pos, r⟩ => ⟨pos, r.mpFile, r.within, r.mFileLen, r.mHasReadLen, r.noMessage, r.right, r.carried⟩
  have queues := run.invariant (queues_start carried loose inp sends ⟨0, counts_init filename content⟩)
    fun _ _ _ queues fired _ => queues.fire carried loose fired
  rcases queues with ⟨pos, r⟩ | ⟨-, right⟩
  · exact r.right
  · exact right

/-- **A transfer has the numbers of its file exactly when the file is shorter than `2^32` bytes**: the
announced end, the positions and the bytes before the end of the data. As long as no send that is tried
again is cut short, the wire carries these frames. -/
theorem large_files_iff (filename content inp : List Byte) (sends : List SendResult) (es : List Event)
    (w : World TaskFileSend)
    (run : Runs fire (fun _ _ _ => True) (start filename (some ⟨content, 0⟩) content.length inp sends) es w) :
    (Exact content.length (queuedIn w.trace) ↔ content.length < 2 ^ 32) ∧
      (cutShort false (packHeadLen + loginRetSize) sends = false →
        Runs fire CleanSends (start filename (some ⟨content, 0⟩) content.length inp sends) es w → SendsOn w) := by
  refine ⟨?_, sends_on⟩
  rw [(exact_mod run).iff_eq]
  omega

/-- A file of `2^32` bytes is announced as an empty one. -/
theorem large_file_truncated : ¬ Exact (2 ^ 32)
    (queuedIn (start (ascii "a") (some ⟨List.replicate (2 ^ 32) 7, 0⟩) (2 ^ 32) [] [.sent 2000]).trace) := by
  have size : (List.replicate (2 ^ 32) (7 : Byte)).length = 2 ^ 32 := List.length_replicate
  have right : Exact ((List.replicate (2 ^ 32) (7 : Byte)).length % 2 ^ 32) (queuedIn
      (start (ascii "a") (some ⟨List.replicate (2 ^ 32) 7, 0⟩) (List.replicate (2 ^ 32) (7 : Byte)).length [] [.sent 2000]).trace) :=
    exact_mod .nil
  rw [size] at right
  rw [right.iff_eq]
  decide

theorem large_files_sample : ∃ w, Runs fire (fun _ _ _ => True)
    (start (ascii "a") (some ⟨[7], 0⟩) 1 sampleRequest [.sent 2000])
    [.read [.got 16, .got 100] [], .write [.sent 9, .eagain, .sent 2000], .write [.sent 2000],
      .write [.sent 2000]] w ∧ Exact 1 (queuedIn w.trace) := by
  have finished : (exec fire (fun _ _ _ => True) (start (ascii "a") (some ⟨[7], 0⟩) 1 sampleRequest [.sent 2000])
      [.read [.got 16, .got 100] [], .write [.sent 9, .eagain, .sent 2000], .write [.sent 2000],
        .write [.sent 2000]]).isSome = true := by
    decide +kernel
  obtain ⟨w, ran⟩ := Option.isSome_iff_exists.mp finished
  exact ⟨w, .of_exec ran, (large_files_iff _ [7] _ _ _ w (.of_exec ran)).1.mpr (by decide)⟩

end TaskFileSend

end GreatEvent
