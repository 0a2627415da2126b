import GreatEvent.Nal.Decoding

/-!
# Reading a file call after call

Wherever a call of `GetAnnexbNALU` starts, it takes a segment, four bytes that
are no start code, or what is left (`call_goes_on`). The places of the calls
are those of `CalledAt`, which says nothing of buffers: a call writes past
its own exactly when one of these places begins with a segment that is too
long (`calls_inside_iff`). Each call takes three bytes or comes to the end of
the file, so the loop of `TcpSender::Thread` ends (`thread_ends`).
-/

namespace GreatEvent.Nal

open Lib

/-- So many calls of `GetAnnexbNALU`, one after the other. -/
def callAll : Nat → BitStream → Nalu → Option (BitStream × Nalu)
  | 0, file, nalu => some (file, nalu)
  | n + 1, file, nalu => do
    let (_, file, nalu) ← getAnnexbNALU file nalu
    callAll n file nalu

/-- The loop of `TcpSender::Thread` while `mRunning`, for at most so many rounds: its calls. Those that
return 4 or more hand their unit to `tcpSendData`. -/
def threadLoop : Nat → BitStream → Nalu → Option (List Call)
  | 0, _, _ => none
  | rounds + 1, file, nalu =>
    if file.feof then some []
    else do
      let (size, file, nalu) ← getAnnexbNALU file nalu
      let calls ← threadLoop rounds file nalu
      return ⟨size, nalu⟩ :: calls

theorem Cut.begins_code {s rest : List UInt8} {seg : Segment} (cut : Cut s seg rest) : Begins s := by
  refine ⟨seg.code, ?_⟩
  rw [cut.stream, Segment.bytes, List.append_assoc]
  exact List.prefix_append _ _

theorem StartCode.three_le (code : StartCode) : 3 ≤ code.bytes.length := by
  cases code <;> decide

/-- What is left of a file wherever a call can start. -/
inductive CalledAt (content : List UInt8) : List UInt8 → Prop where
  | start : CalledAt content content
  | unit {s rest : List UInt8} {seg : Segment} : CalledAt content s → Cut s seg rest → CalledAt content rest
  | other {s : List UInt8} : CalledAt content s → ¬ Begins s → CalledAt content (s.drop 4)

/-- The flag is set at the end of the file only. -/
def BitStream.Sound (file : BitStream) : Prop := file.feof = true → file.unread = []

section
variable {file : BitStream} {nalu : Nalu} {seg : Segment} {rest : List UInt8}

/-- At a segment there is something left, so the flag is not set. -/
theorem BitStream.Sound.goesOn (sound : file.Sound) (cut : Cut file.unread seg rest) :
    file.feof = false := by
  by_contra ended
  have nothing := sound (by simpa using ended)
  have shorter := cut.length_lt
  rw [nothing] at shorter
  cases shorter

/-- A file left behind a segment, with the flag set if there is no more. -/
theorem BitStream.LeftAt.sound {file' : BitStream} (left : file'.LeftAt rest) : file'.Sound := by
  intro ended
  rw [left.feof] at ended
  rw [left.unread]
  exact of_decide_eq_true ended

/-- A file four bytes of which have been taken, or as many as there were. -/
theorem BitStream.Sound.off (sound : file.Sound) {file' : BitStream} (left : file'.unread = file.unread.drop 4)
    (feof : file'.feof = (file.feof || decide (file.unread.length < 4))) : file'.Sound := by
  intro ended
  rw [feof, Bool.or_eq_true, decide_eq_true_iff] at ended
  rw [left]
  rcases ended with ended | short
  · rw [sound ended]
    rfl
  · exact List.drop_eq_nil_of_le (Nat.le_of_lt short)

theorem content_fgetc (file : BitStream) : file.fgetc.2.content = file.content := by
  unfold BitStream.fgetc
  split <;> rfl

/-- The scan does not change what the file holds. -/
theorem content_scan {room : Nat} {buf buf' : List UInt8} {code : Option Nat} {file' : BitStream}
    (found : scan room file buf = some (code, file', buf')) : file'.content = file.content := by
  induction room generalizing file buf with
  | zero =>
    unfold scan at found
    split at found
    · cases found
      rfl
    · cases found
  | succ room ih =>
    unfold scan at found
    split at found
    · cases found
      rfl
    · dsimp only at found
      split at found
      · cases found
        exact content_fgetc file
      · split at found
        · cases found
          exact content_fgetc file
        · exact (ih found).trans (content_fgetc file)

theorem content_afterCode {buf : List UInt8} {size : Int} {file' : BitStream} {nalu' : Nalu}
    (call : afterCode file nalu buf = some (size, file', nalu')) : file'.content = file.content := by
  simp only [afterCode, Option.bind_eq_bind, Option.bind_eq_some_iff] at call
  obtain ⟨⟨code, file₁, buf₁⟩, scanned, call⟩ := call
  have kept := content_scan scanned
  cases code with
  | none =>
    simp only [Option.bind_eq_some_iff, Option.pure_def, Option.some.injEq, Prod.mk.injEq] at call
    obtain ⟨_, -, -, rfl, -⟩ := call
    exact kept
  | some n =>
    simp only [Option.bind_eq_some_iff, Option.pure_def, Option.some.injEq, Prod.mk.injEq] at call
    obtain ⟨file₂, back, _, -, -, rfl, -⟩ := call
    unfold BitStream.fseekBack at back
    split at back
    · cases back
      exact kept
    · cases back

/-- Nor does a call. -/
theorem content_call {size : Int} {file' : BitStream} {nalu' : Nalu}
    (call : getAnnexbNALU file nalu = some (size, file', nalu')) : file'.content = file.content := by
  unfold getAnnexbNALU at call
  dsimp only at call
  split at call
  · cases call
  · split at call
    · cases call
      rfl
    · split at call
      · exact (content_afterCode call).trans rfl
      · split at call
        · cases call
        · split at call
          · cases call
            rfl
          · split at call
            · exact (content_afterCode call).trans rfl
            · cases call
              rfl

/-- What a call leaves. -/
structure GoesOn (file : BitStream) (nalu : Nalu) (file' : BitStream) (nalu' : Nalu) : Prop where
  sound : file'.Sound
  place : (∃ seg, Cut file.unread seg file'.unread) ∨ ¬ Begins file.unread ∧ file'.unread = file.unread.drop 4
  progress : file'.feof = true ∨ file.pos + 3 ≤ file'.pos ∧ file'.unread.length + 3 ≤ file.unread.length
  room : nalu'.max_size = nalu.max_size

/-- A call at a segment. -/
theorem call_cut (sound : file.Sound) (cut : Cut file.unread seg rest)
    (room : seg.bytes.length + lookahead rest ≤ nalu.max_size) :
    ∃ size file' nalu', getAnnexbNALU file nalu = some (size, file', nalu') ∧
      GoesOn file nalu file' nalu' ∧ file'.unread = rest := by
  obtain ⟨file', nalu', call, left, -, same⟩ := getAnnexbNALU_cut (sound.goesOn cut) cut room
  refine ⟨_, file', nalu', call, ⟨left.sound, .inl ⟨seg, ?_⟩, ?_, same⟩, left.unread⟩
  · rw [left.unread]
    exact cut
  · by_cases done : rest = []
    · left
      rw [left.feof, decide_eq_true done]
    · right
      -- the segment is at least its start code
      have kept := content_call call
      have code := seg.code.three_le
      have before : file.unread.length = seg.bytes.length + rest.length := by
        rw [cut.stream, List.length_append]
      have after : file'.unread.length = rest.length := by rw [left.unread]
      have some' := List.length_pos_iff.mpr done
      rw [Segment.bytes, List.length_append] at before
      refine ⟨?_, by omega⟩
      rw [BitStream.unread, List.length_drop] at before after
      rw [kept] at after
      omega

/-- A call anywhere else. -/
theorem call_off (sound : file.Sound) (other : ¬ Begins file.unread)
    (room : min 4 file.unread.length ≤ nalu.max_size) :
    ∃ size file' nalu', getAnnexbNALU file nalu = some (size, file', nalu') ∧ GoesOn file nalu file' nalu' := by
  obtain ⟨size, file', nalu', call, -, pos, left, feof, same⟩ := getAnnexbNALU_off other room
  refine ⟨size, file', nalu', call, ⟨sound.off left feof, .inr ⟨other, left⟩, ?_, same⟩⟩
  by_cases short : file.unread.length < 4
  · left
    rw [feof, decide_eq_true short, Bool.or_true]
  · right
    rw [left, List.length_drop]
    omega

/-- **A call takes what the place begins with**, if its buffer has room for it. -/
theorem call_goes_on (sound : file.Sound) (four : min 4 file.unread.length ≤ nalu.max_size)
    (room : ∀ seg rest, Cut file.unread seg rest → seg.bytes.length + lookahead rest ≤ nalu.max_size) :
    ∃ size file' nalu', getAnnexbNALU file nalu = some (size, file', nalu') ∧ GoesOn file nalu file' nalu' := by
  by_cases begins : Begins file.unread
  · obtain ⟨seg, rest, cut⟩ := exists_cut begins
    obtain ⟨size, file', nalu', call, goesOn, -⟩ := call_cut sound cut (room seg rest cut)
    exact ⟨size, file', nalu', call, goesOn⟩
  · exact call_off sound begins four

/-- It leaves the file at a place where a call can start. -/
theorem GoesOn.calledAt {file' : BitStream} {nalu' : Nalu} {content : List UInt8}
    (goesOn : GoesOn file nalu file' nalu') (place : CalledAt content file.unread) :
    CalledAt content file'.unread := by
  rcases goesOn.place with ⟨seg, cut⟩ | ⟨other, left⟩
  · exact place.unit cut
  · rw [left]
    exact place.other other

end

/-! ## Every call inside its buffer -/

section
variable {content : List UInt8} {nalu : Nalu}

/-- One more call. -/
theorem callAll_succ {n : Nat} {file file' : BitStream} {nalu nalu' : Nalu}
    (calls : callAll n file nalu = some (file', nalu')) :
    callAll (n + 1) file nalu = (getAnnexbNALU file' nalu').map Prod.snd := by
  induction n generalizing file nalu with
  | zero =>
    cases calls
    rw [callAll]
    cases getAnnexbNALU file' nalu' <;> rfl
  | succ n ih =>
    rw [callAll] at calls ⊢
    cases first : getAnnexbNALU file nalu with
    | none =>
      rw [first] at calls
      cases calls
    | some result =>
      rw [first] at calls
      exact ih calls

/-- As long as every place has room for its segment the calls go on from place to place. -/
theorem callAll_goes_on (four : 4 ≤ nalu.max_size)
    (room : ∀ s, CalledAt content s → ∀ seg rest, Cut s seg rest →
      seg.bytes.length + lookahead rest ≤ nalu.max_size) (n : Nat) :
    ∃ file nalu', callAll n (.openFile content) nalu = some (file, nalu') ∧ file.Sound ∧
      CalledAt content file.unread ∧ nalu'.max_size = nalu.max_size := by
  induction n with
  | zero => exact ⟨_, nalu, rfl, nofun, .start, rfl⟩
  | succ n ih =>
    obtain ⟨file, nalu', calls, sound, place, same⟩ := ih
    obtain ⟨size, file', nalu'', call, goesOn⟩ := call_goes_on sound (show min 4 file.unread.length ≤ nalu'.max_size by omega)
      (fun seg rest cut => by rw [same]; exact room _ place seg rest cut)
    refine ⟨file', nalu'', ?_, goesOn.sound, goesOn.calledAt place, goesOn.room.trans same⟩
    rw [callAll_succ calls, call]
    rfl

/-- If no call faults they come to every place. -/
theorem callAll_comes (four : 4 ≤ nalu.max_size)
    (inside : ∀ n, callAll n (.openFile content) nalu ≠ none) {s : List UInt8} (place : CalledAt content s) :
    ∃ n file nalu', callAll n (.openFile content) nalu = some (file, nalu') ∧ file.Sound ∧
      file.unread = s ∧ nalu'.max_size = nalu.max_size := by
  induction place with
  | start => exact ⟨0, _, nalu, rfl, nofun, rfl, rfl⟩
  | @unit s rest seg _ cut ih =>
    obtain ⟨n, file, nalu', calls, sound, rfl, same⟩ := ih
    have next := inside (n + 1)
    rw [callAll_succ calls] at next
    by_cases room : seg.bytes.length + lookahead rest ≤ nalu'.max_size
    · obtain ⟨size, file', nalu'', call, goesOn, left⟩ := call_cut sound cut room
      refine ⟨n + 1, file', nalu'', ?_, goesOn.sound, left, goesOn.room.trans same⟩
      rw [callAll_succ calls, call]
      rfl
    · rw [getAnnexbNALU_past (sound.goesOn cut) cut (Nat.lt_of_not_le room)] at next
      exact absurd rfl next
  | other _ begins ih =>
    obtain ⟨n, file, nalu', calls, sound, rfl, same⟩ := ih
    obtain ⟨size, file', nalu'', call, goesOn⟩ := call_off sound begins (show min 4 file.unread.length ≤ nalu'.max_size by omega)
    refine ⟨n + 1, file', nalu'', ?_, goesOn.sound, ?_, goesOn.room.trans same⟩
    · rw [callAll_succ calls, call]
      rfl
    · rcases goesOn.place with ⟨seg, cut⟩ | ⟨-, left⟩
      · exact absurd cut.begins_code begins
      · exact left

/-- **Calls stay inside their buffers** just when at every place the buffer has room for the segment there
and what is read behind it. -/
theorem calls_inside_iff (content : List UInt8) (four : 4 ≤ nalu.max_size) :
    (∀ n, callAll n (.openFile content) nalu ≠ none) ↔
      ∀ s, CalledAt content s → ∀ seg rest, Cut s seg rest →
        seg.bytes.length + lookahead rest ≤ nalu.max_size := by
  constructor
  · intro inside s place seg rest cut
    obtain ⟨n, file, nalu', calls, sound, rfl, same⟩ := callAll_comes four inside place
    by_contra long
    refine inside (n + 1) ?_
    rw [callAll_succ calls, getAnnexbNALU_past (sound.goesOn cut) cut (by omega)]
    rfl
  · intro room n
    obtain ⟨file, nalu', calls, -⟩ := callAll_goes_on four room n
    rw [calls]
    exact Option.some_ne_none _

theorem CalledAt.length_le {s : List UInt8} (place : CalledAt content s) : s.length ≤ content.length := by
  induction place with
  | start => exact Nat.le_refl _
  | unit _ cut ih => exact (Nat.le_of_lt cut.length_lt).trans ih
  | other _ _ ih =>
    rw [List.length_drop]
    omega

/-- Two units, and a buffer longer than the file. -/
theorem calls_inside_sample :
    ¬ ∃ n, callAll n (.openFile [0, 0, 0, 1, 0x65, 0, 0, 1, 0x41]) (allocNALU 10) = none := by
  rintro ⟨n, overrun⟩
  exact (calls_inside_iff [0, 0, 0, 1, 0x65, 0, 0, 1, 0x41] (by decide)).mpr
    (fun _ place _ _ cut => cut.room_le (Nat.lt_succ_of_le place.length_le)) n overrun

/-- A byte behind a start code of four is written past a buffer of four. -/
theorem call_overruns : ¬ ∀ n, callAll n (.openFile [0, 0, 0, 1, 0x65]) (allocNALU 4) ≠ none :=
  fun inside => inside 1 (by decide)

/-! ## The loop comes to the end -/

/-- A call with a buffer longer than what is left takes three bytes or comes to the end. -/
theorem call_progress {file : BitStream} (sound : file.Sound) (room : file.unread.length < nalu.max_size) :
    ∃ size file' nalu', getAnnexbNALU file nalu = some (size, file', nalu') ∧ GoesOn file nalu file' nalu' :=
  call_goes_on sound (Nat.le_trans (Nat.min_le_right _ _) (Nat.le_of_lt room))
    fun _ _ cut => cut.room_le room

/-- What is left after a call is no more than before. -/
theorem GoesOn.shrinks {file file' : BitStream} {nalu' : Nalu} (goesOn : GoesOn file nalu file' nalu') :
    file'.unread.length ≤ file.unread.length := by
  rcases goesOn.progress with ended | ⟨-, less⟩
  · rw [goesOn.sound ended]
    exact Nat.zero_le _
  · omega

/-- The state after so many calls. -/
theorem callAll_sound (room : content.length < nalu.max_size) (n : Nat) :
    ∃ file nalu', callAll n (.openFile content) nalu = some (file, nalu') ∧ file.Sound ∧
      file.unread.length < nalu'.max_size := by
  induction n with
  | zero => exact ⟨_, nalu, rfl, nofun, room⟩
  | succ n ih =>
    obtain ⟨file, nalu', calls, sound, room⟩ := ih
    obtain ⟨size, file', nalu'', call, goesOn⟩ := call_progress sound room
    have shrinks := goesOn.shrinks
    refine ⟨file', nalu'', ?_, goesOn.sound, by rw [goesOn.room]; omega⟩
    rw [callAll_succ calls, call]
    rfl

/-- From any place of a file the loop comes to the end of it. -/
theorem threadLoop_ends {file : BitStream} (sound : file.Sound) (room : file.unread.length < nalu.max_size) :
    ∃ calls, calls.length ≤ file.unread.length / 3 + 1 ∧
      ∀ rounds, calls.length < rounds → threadLoop rounds file nalu = some calls := by
  induction length : file.unread.length using Nat.strongRecOn generalizing file nalu with
  | ind n ih =>
    subst length
    cases ended : file.feof with
    | true =>
      refine ⟨[], Nat.zero_le _, fun rounds enough => ?_⟩
      obtain ⟨rounds, rfl⟩ : ∃ k, rounds = k + 1 := ⟨rounds - 1, by omega⟩
      rw [threadLoop, if_pos ended]
    | false =>
      obtain ⟨size, file', nalu', call, goesOn⟩ := call_progress sound room
      -- either the flag ends the loop, or the rest is three bytes shorter
      have later : ∃ calls, calls.length ≤ file.unread.length / 3 ∧
          ∀ rounds, calls.length < rounds → threadLoop rounds file' nalu' = some calls := by
        rcases goesOn.progress with ended' | ⟨-, less⟩
        · refine ⟨[], Nat.zero_le _, fun rounds enough => ?_⟩
          obtain ⟨rounds, rfl⟩ : ∃ k, rounds = k + 1 := ⟨rounds - 1, by omega⟩
          rw [threadLoop, if_pos ended']
        · obtain ⟨calls, few, runs⟩ := ih _ (by omega) goesOn.sound (by rw [goesOn.room]; omega) rfl
          exact ⟨calls, by omega, runs⟩
      obtain ⟨calls, few, runs⟩ := later
      refine ⟨⟨size, nalu'⟩ :: calls, by rw [List.length_cons]; omega, fun rounds enough => ?_⟩
      rw [List.length_cons] at enough
      obtain ⟨rounds, rfl⟩ : ∃ k, rounds = k + 1 := ⟨rounds - 1, by omega⟩
      rw [threadLoop, ended, call]
      simp only [Option.bind_eq_bind, Option.bind_some, runs rounds (by omega)]
      rfl

/-- **The read loop ends on every file**, after no more than a call for every three bytes and two; a call
takes at least three bytes, net of what it steps back, or leaves the flag set. -/
theorem thread_ends (content : List UInt8) {nalu : Nalu} (room : content.length < nalu.max_size) :
    (∃ calls, calls.length ≤ content.length / 3 + 2 ∧
      ∀ rounds, calls.length < rounds → threadLoop rounds (.openFile content) nalu = some calls) ∧
    ∀ n file nalu₁, callAll n (.openFile content) nalu = some (file, nalu₁) →
      ∃ size file' nalu₂, getAnnexbNALU file nalu₁ = some (size, file', nalu₂) ∧
        (file'.feof = true ∨ file.pos + 3 ≤ file'.pos) := by
  constructor
  · obtain ⟨calls, few, runs⟩ := threadLoop_ends (show (BitStream.openFile content).Sound from nofun) room
    refine ⟨calls, ?_, runs⟩
    show calls.length ≤ content.length / 3 + 2
    have few : calls.length ≤ content.length / 3 + 1 := few
    omega
  · intro n file nalu₁ calls
    obtain ⟨file₁, nalu₂, calls₁, sound, room₁⟩ := callAll_sound room n
    cases calls₁.symm.trans calls
    obtain ⟨size, file', nalu', call, goesOn⟩ := call_progress sound room₁
    exact ⟨size, file', nalu', call, goesOn.progress.imp id And.left⟩

/-- A file of two units. -/
theorem thread_ends_sample :
    (∃ calls, calls.length ≤ 9 / 3 + 2 ∧ ∀ rounds, calls.length < rounds →
      threadLoop rounds (.openFile [0, 0, 0, 1, 0x65, 0, 0, 1, 0x41]) (allocNALU 10) = some calls) ∧
    ∀ n file nalu₁, callAll n (.openFile [0, 0, 0, 1, 0x65, 0, 0, 1, 0x41]) (allocNALU 10) = some (file, nalu₁) →
      ∃ size file' nalu₂, getAnnexbNALU file nalu₁ = some (size, file', nalu₂) ∧
        (file'.feof = true ∨ file.pos + 3 ≤ file'.pos) :=
  thread_ends [0, 0, 0, 1, 0x65, 0, 0, 1, 0x41] (by decide)

end

end GreatEvent.Nal
