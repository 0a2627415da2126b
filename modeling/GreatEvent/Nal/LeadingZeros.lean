import GreatEvent.Nal.ReadLoop

/-!
# Zeros in front of the first start code

What the loop of `TcpSender::Thread` passes on depends on the bytes of the
file only (`Passes`, `passesOn_iff`): at a start code it takes the segment,
anywhere else four bytes. So of the zeros in front of the first unit it takes
four at a time, and then stands at a start code if two or three of them are
left, and in the middle of one if not; what it passes on then has a start
code less than the file (`Passes.length_le`).
-/

namespace GreatEvent.Nal

open Lib

/-- What the loop of `TcpSender::Thread` hands to `tcpSendData`: the units of the calls that return 4 or
more. -/
def passedOn (calls : List Call) : List (List UInt8) := (calls.filter fun c => 4 ≤ c.size).map Call.nal

/-- The loop of `TcpSender::Thread` comes to the end of the file and has passed these units on. -/
def PassesOn (content : List UInt8) (nalu : Nalu) (units : List (List UInt8)) : Prop :=
  ∃ rounds calls, threadLoop rounds (.openFile content) nalu = some calls ∧ passedOn calls = units

/-- A unit that is passed on. -/
def Segment.passed (seg : Segment) : List (List UInt8) := if 4 ≤ seg.bytes.length then [seg.nal] else []

/-- What is passed on of a stream by calls with so much room. -/
inductive Passes (room : Nat) : List UInt8 → List (List UInt8) → Prop where
  | done : Passes room [] []
  | unit {s rest : List UInt8} {seg : Segment} {units : List (List UInt8)} : Cut s seg rest →
      seg.bytes.length + lookahead rest ≤ room → Passes room rest units → Passes room s (seg.passed ++ units)
  | other {s : List UInt8} {units : List (List UInt8)} : s ≠ [] → ¬ Begins s →
      Passes room (s.drop 4) units → Passes room s units

/-- A call that returns a segment. -/
theorem passedOn_returns {c : Call} {seg : Segment} (returns : c.Returns seg) (calls : List Call) :
    passedOn (c :: calls) = seg.passed ++ passedOn calls := by
  unfold passedOn Segment.passed
  by_cases long : 4 ≤ seg.bytes.length
  · have size : (4 : Int) ≤ c.size := by
      rw [returns.size]
      omega
    rw [List.filter_cons_of_pos (by simpa using size), List.map_cons, if_pos long, returns.nal_eq]
    rfl
  · have size : ¬ (4 : Int) ≤ c.size := by
      rw [returns.size]
      omega
    rw [List.filter_cons_of_neg (by simpa using size), if_neg long]
    rfl

/-- A call that finds nothing. -/
theorem passedOn_nothing {c : Call} (none' : c.size ≤ 0) (calls : List Call) :
    passedOn (c :: calls) = passedOn calls := by
  have size : ¬ (4 : Int) ≤ c.size := by omega
  rw [passedOn, List.filter_cons_of_neg (by simpa using size)]
  rfl

section
variable {file : BitStream} {nalu : Nalu}

/-- **What a call has done that has come back.** -/
theorem call_inv {size : Int} {file' : BitStream} {nalu' : Nalu} (sound : file.Sound) (four : 4 ≤ nalu.max_size)
    (call : getAnnexbNALU file nalu = some (size, file', nalu')) :
    file'.Sound ∧ nalu'.max_size = nalu.max_size ∧
      ((∃ seg, Cut file.unread seg file'.unread ∧ seg.bytes.length + lookahead file'.unread ≤ nalu.max_size ∧
          Call.Returns ⟨size, nalu'⟩ seg) ∨
        (¬ Begins file.unread ∧ size ≤ 0 ∧ file'.unread = file.unread.drop 4)) := by
  by_cases begins : Begins file.unread
  · obtain ⟨seg, rest, cut⟩ := exists_cut begins
    have room : seg.bytes.length + lookahead rest ≤ nalu.max_size := by
      by_contra past
      rw [getAnnexbNALU_past (sound.goesOn cut) cut (Nat.lt_of_not_le past)] at call
      cases call
    obtain ⟨file₁, nalu₁, taken, left, holds, same⟩ := getAnnexbNALU_cut (sound.goesOn cut) cut room
    cases taken.symm.trans call
    refine ⟨left.sound, same, .inl ⟨seg, ?_, ?_, ⟨rfl, holds⟩⟩⟩
    · rwa [left.unread]
    · rwa [left.unread]
  · obtain ⟨size₁, file₁, nalu₁, taken, none', pos, left, feof, same⟩ :=
      getAnnexbNALU_off begins (Nat.le_trans (Nat.min_le_left _ _) four)
    cases taken.symm.trans call
    exact ⟨sound.off left feof, same, .inr ⟨begins, none', left⟩⟩

/-- The loop passes on what the bytes say. -/
theorem passes_of_threadLoop {rounds : Nat} {calls : List Call} (sound : file.Sound) (four : 4 ≤ nalu.max_size)
    (loop : threadLoop rounds file nalu = some calls) : Passes nalu.max_size file.unread (passedOn calls) := by
  induction rounds generalizing file nalu calls with
  | zero => cases loop
  | succ rounds ih =>
    rw [threadLoop] at loop
    split at loop
    case isTrue ended =>
      cases loop
      rw [sound ended]
      exact .done
    case isFalse goesOn =>
      simp only [Option.bind_eq_bind, Option.bind_eq_some_iff, Option.pure_def, Option.some.injEq] at loop
      obtain ⟨⟨size, file', nalu'⟩, call, later, loop, rfl⟩ := loop
      obtain ⟨sound', same, found⟩ := call_inv sound four call
      have passes := ih sound' (same.symm ▸ four) loop
      rw [same] at passes
      rcases found with ⟨seg, cut, room, returns⟩ | ⟨other, none', left⟩
      · rw [passedOn_returns returns]
        exact .unit cut room passes
      · rw [passedOn_nothing none']
        by_cases empty : file.unread = []
        · rw [left, empty] at passes
          rw [empty]
          exact passes
        · rw [left] at passes
          exact .other empty other passes

/-- A call, and then the rounds that follow it. -/
theorem threadLoop_call {size : Int} {file' : BitStream} {nalu' : Nalu} {rounds : Nat} {calls : List Call}
    (goesOn : file.feof = false) (call : getAnnexbNALU file nalu = some (size, file', nalu'))
    (loop : threadLoop rounds file' nalu' = some calls) :
    threadLoop (rounds + 1) file nalu = some (⟨size, nalu'⟩ :: calls) := by
  rw [threadLoop, goesOn, call]
  simp only [Option.bind_eq_bind, Option.bind_some, loop]
  rfl

/-- The loop comes to the end of a stream that can be read. -/
theorem threadLoop_of_passes {s : List UInt8} {room : Nat} {units : List (List UInt8)} (passes : Passes room s units)
    (sound : file.Sound) (comes : file.unread = s) (same : nalu.max_size = room) (four : 4 ≤ room) :
    ∃ rounds calls, threadLoop rounds file nalu = some calls ∧ passedOn calls = units := by
  induction passes generalizing file nalu with
  | done =>
    cases ended : file.feof with
    | true => exact ⟨1, [], by rw [threadLoop, if_pos ended], rfl⟩
    | false =>
      have last : threadLoop 1 { file with feof := true } { nalu with startcodeprefix_len := 3 } = some [] := rfl
      exact ⟨2, _, threadLoop_call ended (getAnnexbNALU_nothing comes) last, passedOn_nothing (Int.le_refl 0) []⟩
  | @unit s rest seg units cut fits _ ih =>
    subst comes
    obtain ⟨file', nalu', call, left, holds, kept⟩ := getAnnexbNALU_cut (sound.goesOn cut) cut (same.symm ▸ fits)
    obtain ⟨rounds, calls, loop, passed⟩ := ih left.sound left.unread (kept.trans same)
    refine ⟨rounds + 1, _, threadLoop_call (sound.goesOn cut) call loop, ?_⟩
    rw [passedOn_returns ⟨rfl, holds⟩, passed]
  | @other s units more other _ ih =>
    subst comes
    have unread : file.feof = false := by
      by_contra ended
      exact more (sound (by simpa using ended))
    obtain ⟨size, file', nalu', call, none', pos, left, feof, kept⟩ :=
      getAnnexbNALU_off other (Nat.le_trans (Nat.min_le_left 4 file.unread.length) (same.symm ▸ four))
    obtain ⟨rounds, calls, loop, passed⟩ := ih (sound.off left feof) left (kept.trans same)
    exact ⟨rounds + 1, _, threadLoop_call unread call loop, (passedOn_nothing none' calls).trans passed⟩

/-- **What the loop passes on is a matter of the bytes.** -/
theorem passesOn_iff {content : List UInt8} {units : List (List UInt8)} (four : 4 ≤ nalu.max_size) :
    PassesOn content nalu units ↔ Passes nalu.max_size content units := by
  have sound : (BitStream.openFile content).Sound := nofun
  constructor
  · rintro ⟨rounds, calls, loop, rfl⟩
    exact passes_of_threadLoop sound four loop
  · exact fun passes => threadLoop_of_passes passes sound rfl rfl four

end

/-! ## Zeros are taken by fours -/

theorem begins_zeros (s : List UInt8) : ¬ Begins (0 :: 0 :: 0 :: 0 :: s) := by
  rintro ⟨code, front⟩
  cases code <;> simp [StartCode.bytes, codeMark, List.cons_prefix_cons] at front

section
variable {room : Nat} {s : List UInt8} {us : List (List UInt8)}

theorem passes_nil : Passes room [] us ↔ us = [] := by
  constructor
  · intro passes
    generalize ended : ([] : List UInt8) = s at passes
    cases passes with
    | done => rfl
    | unit cut =>
      subst ended
      cases cut.length_lt
    | other more => exact absurd ended.symm more
  · rintro rfl
    exact .done

/-- Where there is no start code, four bytes are taken. -/
theorem passes_other (more : s ≠ []) (other : ¬ Begins s) : Passes room s us ↔ Passes room (s.drop 4) us := by
  constructor
  · intro passes
    cases passes with
    | done => exact absurd rfl more
    | unit cut => exact absurd cut.begins_code other
    | other _ _ passes => exact passes
  · exact .other more other

theorem passes_zeros (m : Nat) : Passes room (List.replicate (4 * m) 0 ++ s) us ↔ Passes room s us := by
  induction m with
  | zero => rfl
  | succ m ih =>
    have four : List.replicate (4 * (m + 1)) (0 : UInt8) ++ s = 0 :: 0 :: 0 :: 0 :: (List.replicate (4 * m) 0 ++ s) :=
      rfl
    rw [four, passes_other (List.cons_ne_nil _ _) (begins_zeros _)]
    exact ih

/-- Of a stream of zeros nothing is passed on. -/
theorem passes_only_zeros (k : Nat) : Passes room (List.replicate k 0) [] := by
  have split : List.replicate k (0 : UInt8) = List.replicate (4 * (k / 4)) 0 ++ List.replicate (k % 4) 0 := by
    rw [List.replicate_append_replicate, Nat.div_add_mod]
  rw [split, passes_zeros]
  by_cases none' : k % 4 = 0
  · rw [none']
    exact .done
  · have more : List.replicate (k % 4) (0 : UInt8) ≠ [] := by
      rw [ne_eq, List.replicate_eq_nil_iff]
      exact none'
    have other : ¬ Begins (List.replicate (k % 4) 0) := by
      rintro ⟨code, front⟩
      have one : (1 : UInt8) ∈ List.replicate (k % 4) 0 := front.subset (code.bytes_last.subset List.mem_cons_self)
      exact absurd (List.eq_of_mem_replicate one) (by decide)
    rw [passes_other more other, List.drop_replicate, show k % 4 - 4 = 0 by omega]
    exact .done

end

/-! ## At a start code -/

/-- A stream has one first segment. -/
theorem Cut.unique {s rest rest' : List UInt8} {seg seg' : Segment} (cut : Cut s seg rest)
    (cut' : Cut s seg' rest') : seg = seg' ∧ rest = rest' := by
  -- the call of a reader with room enough returns both
  have room : seg.bytes.length + lookahead rest ≤ (allocNALU s.length.succ).max_size :=
    cut.room_le (Nat.lt_succ_self s.length)
  have room' : seg'.bytes.length + lookahead rest' ≤ (allocNALU s.length.succ).max_size :=
    cut'.room_le (Nat.lt_succ_self s.length)
  have start : (BitStream.openFile s).feof = false := rfl
  obtain ⟨file, nalu, call, left, holds, -⟩ := getAnnexbNALU_cut start cut room
  obtain ⟨file', nalu', call', left', holds', -⟩ := getAnnexbNALU_cut start cut' room'
  have same := Option.some.inj (call.symm.trans call')
  obtain ⟨-, rfl, rfl⟩ : _ ∧ file = file' ∧ nalu = nalu' := by simpa only [Prod.mk.injEq] using same
  have nal : seg.nal = seg'.nal := holds.bytes.symm.trans holds'.bytes
  have code : seg.code.prefixLen = seg'.code.prefixLen := holds.prefixLen.symm.trans holds'.prefixLen
  refine ⟨?_, left.unread.symm.trans left'.unread⟩
  obtain ⟨code₁, nal₁⟩ := seg
  obtain ⟨code₂, nal₂⟩ := seg'
  cases nal
  cases code₁ <;> cases code₂ <;> first | rfl | cases code

/-- The buffer has room for every unit with its start code and what is read behind it. -/
def Fits (room : Nat) : List Segment → Prop
  | [] => True
  | seg :: segs => seg.bytes.length + lookahead (encode segs) ≤ room ∧ Fits room segs

instance decidableFits (room : Nat) : (segs : List Segment) → Decidable (Fits room segs)
  | [] => .isTrue trivial
  | _ :: segs =>
    haveI := decidableFits room segs
    inferInstanceAs (Decidable (_ ∧ _))

/-- A unit as an encoder writes it. -/
structure Segment.Plain (seg : Segment) : Prop where
  nonempty : seg.nal ≠ []
  unmarked : Unmarked codeMark seg.nal
  ends : EndsNonzero seg.nal

theorem Segment.Plain.passed {seg : Segment} (plain : seg.Plain) : seg.passed = [seg.nal] := by
  have code := seg.code.three_le
  have some := List.length_pos_iff.mpr plain.nonempty
  rw [Segment.passed, if_pos]
  rw [Segment.bytes, List.length_append]
  omega

/-- **From a start code on the units written are passed on**, if the buffer has room for them. -/
theorem passes_encode {room : Nat} {segs : List Segment} (plain : ∀ seg ∈ segs, seg.Plain) {us : List (List UInt8)} :
    Passes room (encode segs) us ↔ us = segs.map Segment.nal ∧ Fits room segs := by
  induction segs generalizing us with
  | nil => exact passes_nil.trans ⟨fun empty => ⟨empty, trivial⟩, And.left⟩
  | cons seg segs ih =>
    have first := plain seg List.mem_cons_self
    have others : ∀ seg ∈ segs, seg.Plain := fun seg member => plain seg (List.mem_cons_of_mem _ member)
    have cut := cut_encode segs first.unmarked first.ends
    constructor
    · intro passes
      generalize stream : encode (seg :: segs) = s at passes cut
      cases passes with
      | done => exact absurd stream (encode_ne_nil seg segs)
      | @unit _ rest seg' units cut' fits passes =>
        obtain ⟨rfl, rfl⟩ := cut.unique cut'
        obtain ⟨rfl, room⟩ := (ih others).mp passes
        rw [first.passed]
        exact ⟨rfl, fits, room⟩
      | other _ other => exact absurd cut.begins_code other
    · rintro ⟨rfl, fits, room⟩
      have passes := Passes.unit cut fits ((ih others).mpr ⟨rfl, room⟩)
      rw [first.passed] at passes
      exact passes

/-! ## In the middle of one -/

/-- **No more units are passed on than start codes are left.** -/
theorem Passes.length_le {room : Nat} {s : List UInt8} {us : List (List UInt8)} (passes : Passes room s us) :
    us.length ≤ countMarks codeMark s := by
  induction passes with
  | done => exact Nat.le_refl 0
  | @unit s rest seg units cut _ _ ih =>
    have one : seg.passed.length ≤ 1 := by
      unfold Segment.passed
      split <;> simp
    have counted : countMarks codeMark rest + 1 ≤ countMarks codeMark s := by
      have behind := countMarks_le_append codeMark ([0, 1] ++ seg.nal) rest
      have stream : ∃ front, s = front ++ (0 :: ([0, 1] ++ seg.nal ++ rest)) := by
        rw [cut.stream, Segment.bytes]
        cases seg.code with
        | three => exact ⟨[], rfl⟩
        | four => exact ⟨[0], rfl⟩
      obtain ⟨front, rfl⟩ := stream
      have whole := countMarks_le_append codeMark front (0 :: ([0, 1] ++ seg.nal ++ rest))
      rw [countMarks_cons_here ⟨seg.nal ++ rest, by simp [codeMark]⟩] at whole
      omega
    rw [List.length_append]
    omega
  | other _ _ _ ih => exact ih.trans (countMarks_drop_le _ 4)

/-- Behind the unit in front there is a mark for each of the start codes. -/
theorem countMarks_units {nal : List UInt8} {segs : List Segment} (unmarked : Unmarked codeMark nal)
    (others : ∀ seg ∈ segs, Unmarked codeMark seg.nal) : countMarks codeMark (nal ++ encode segs) = segs.length := by
  induction segs generalizing nal with
  | nil =>
    rw [show encode [] = [] from rfl, List.append_nil]
    exact countMarks_unmarked unmarked
  | cons seg segs ih =>
    have later := ih (others seg List.mem_cons_self) fun seg member => others seg (List.mem_cons_of_mem _ member)
    have clean := unmarked_before unmarked seg.code
    have stream : ∃ front, nal ++ seg.code.bytes = front ++ codeMark := by
      cases seg.code with
      | three => exact ⟨nal, rfl⟩
      | four => exact ⟨nal ++ [0], by simp [StartCode.bytes]⟩
    obtain ⟨front, same⟩ := stream
    rw [same] at clean
    have whole : nal ++ encode (seg :: segs) = front ++ (codeMark ++ (seg.nal ++ encode segs)) := by
      rw [← List.append_assoc front, ← same, List.append_assoc]
      simp [encode, Segment.bytes]
    have mark : countMarks codeMark (codeMark ++ (seg.nal ++ encode segs)) =
        countMarks codeMark (seg.nal ++ encode segs) + 1 := by
      have here : codeMark <+: 0 :: (0 :: 1 :: (seg.nal ++ encode segs)) := ⟨_, rfl⟩
      have second : ¬ codeMark <+: 0 :: 1 :: (seg.nal ++ encode segs) := by
        simp [codeMark, List.cons_prefix_cons]
      have third : ¬ codeMark <+: 1 :: (seg.nal ++ encode segs) := by
        simp [codeMark, List.cons_prefix_cons]
      show countMarks codeMark (0 :: 0 :: 1 :: (seg.nal ++ encode segs)) = _
      rw [countMarks_cons_here here, countMarks_cons_other second, countMarks_cons_other third]
    rw [whole, countMarks_first clean, mark, later, List.length_cons]

/-! ## The loop -/

/-- The zeros in front of the first 1 that are left when those in front of them have been taken by fours. -/
def zerosLeft (k : Nat) (code : StartCode) : Nat := (k + (code.prefixLen - 1)) % 4

/-- Two or three zeros are left in front of the first 1, and the buffer has room for every unit with its
start code and what is read behind it. -/
def Readable (room k : Nat) : List Segment → Prop
  | [] => True
  | seg :: segs => 2 ≤ zerosLeft k seg.code ∧
      zerosLeft k seg.code + 1 + seg.nal.length + lookahead (encode segs) ≤ room ∧ Fits room segs

instance (room k : Nat) (segs : List Segment) : Decidable (Readable room k segs) := by
  cases segs with
  | nil => exact .isTrue trivial
  | cons seg segs => exact inferInstanceAs (Decidable (_ ∧ _ ∧ _))

section
variable {room k : Nat} {us : List (List UInt8)}

/-- What is left to read when the zeros have been taken. -/
theorem passes_zerosLeft (k : Nat) (seg : Segment) (segs : List Segment) :
    Passes room (List.replicate k 0 ++ encode (seg :: segs)) us ↔
      Passes room (List.replicate (zerosLeft k seg.code) 0 ++ 1 :: (seg.nal ++ encode segs)) us := by
  have zeros : List.replicate k 0 ++ encode (seg :: segs) =
      List.replicate (k + (seg.code.prefixLen - 1)) 0 ++ 1 :: (seg.nal ++ encode segs) := by
    rw [List.replicate_add, List.append_assoc]
    cases code : seg.code <;> simp [encode, Segment.bytes, code, StartCode.bytes, StartCode.prefixLen, codeMark,
      List.replicate_succ]
  rw [zeros]
  unfold zerosLeft
  conv_lhs => rw [← Nat.div_add_mod (k + (seg.code.prefixLen - 1)) 4, List.replicate_add, List.append_assoc]
  exact passes_zeros _

/-- One zero or none: the first unit is lost. -/
theorem units_lost {seg : Segment} {segs : List Segment} (plain : ∀ s ∈ seg :: segs, s.Plain)
    (few : zerosLeft k seg.code < 2) :
    ¬ Passes room (List.replicate k 0 ++ encode (seg :: segs)) ((seg :: segs).map Segment.nal) := by
  intro passes
  have marks := ((passes_zerosLeft k seg segs).mp passes).length_le
  have units := countMarks_units (plain seg List.mem_cons_self).unmarked
    fun s member => (plain s (List.mem_cons_of_mem _ member)).unmarked
  have first : ¬ codeMark <+: 1 :: (seg.nal ++ encode segs) := by
    simp [codeMark, List.cons_prefix_cons]
  have second : ¬ codeMark <+: 0 :: 1 :: (seg.nal ++ encode segs) := by
    simp [codeMark, List.cons_prefix_cons]
  have count : countMarks codeMark (List.replicate (zerosLeft k seg.code) 0 ++ 1 :: (seg.nal ++ encode segs)) =
      segs.length := by
    rcases Nat.le_one_iff_eq_zero_or_eq_one.mp (Nat.le_of_lt_succ few) with none' | one
    · rw [none']
      exact (countMarks_cons_other first).trans units
    · rw [one]
      exact (countMarks_cons_other second).trans ((countMarks_cons_other first).trans units)
  rw [count, List.length_map, List.length_cons] at marks
  omega

/-- The start code that is left of so many zeros. -/
theorem code_of_zerosLeft {code : StartCode} (some : 2 ≤ zerosLeft k code) :
    ∃ left : StartCode, left.bytes.length = zerosLeft k code + 1 ∧
      ∀ s : List UInt8, List.replicate (zerosLeft k code) 0 ++ 1 :: s = left.bytes ++ s := by
  have below : zerosLeft k code < 4 := Nat.mod_lt _ (by decide)
  rcases (show zerosLeft k code = 2 ∨ zerosLeft k code = 3 by omega) with two | three
  · exact ⟨.three, by rw [two]; rfl, fun s => by rw [two]; rfl⟩
  · exact ⟨.four, by rw [three]; rfl, fun s => by rw [three]; rfl⟩

/-- **The units written behind the zeros are passed on** exactly if the file is readable. -/
theorem passes_written {segs : List Segment} (plain : ∀ seg ∈ segs, seg.Plain) :
    Passes room (List.replicate k 0 ++ encode segs) (segs.map Segment.nal) ↔ Readable room k segs := by
  cases segs with
  | nil =>
    refine iff_of_true ?_ trivial
    rw [show encode [] = [] from rfl, List.append_nil]
    exact passes_only_zeros k
  | cons seg segs =>
    by_cases some : 2 ≤ zerosLeft k seg.code
    · obtain ⟨left, length, stream⟩ := code_of_zerosLeft some
      -- the file goes on as if the first unit had been written behind this code
      have same : List.replicate (zerosLeft k seg.code) 0 ++ 1 :: (seg.nal ++ encode segs) =
          encode (⟨left, seg.nal⟩ :: segs) := by
        rw [stream]
        simp [encode, Segment.bytes]
      have first := plain seg List.mem_cons_self
      have plain' : ∀ s ∈ (⟨left, seg.nal⟩ : Segment) :: segs, s.Plain := by
        intro s member
        rcases List.mem_cons.mp member with rfl | later
        · exact ⟨first.nonempty, first.unmarked, first.ends⟩
        · exact plain s (List.mem_cons_of_mem _ later)
      have bytes : (⟨left, seg.nal⟩ : Segment).bytes.length = zerosLeft k seg.code + 1 + seg.nal.length := by
        rw [Segment.bytes, List.length_append, length]
      rw [passes_zerosLeft, same, passes_encode plain', Fits, bytes]
      constructor
      · rintro ⟨-, fits⟩
        exact ⟨some, fits⟩
      · rintro ⟨-, fits⟩
        exact ⟨rfl, fits⟩
    · exact iff_of_false (units_lost plain (Nat.lt_of_not_le some)) fun readable => some readable.1

end

/-- The `buffersize` of `TcpSender::Thread`. -/
def senderBuffer : Nat := 8000000

/-- **Leading zeros lose no unit exactly if two or three zeros are left when they are taken by fours**, and
every unit fits. -/
theorem leading_zeros_iff (k : Nat) {segs : List Segment} (plain : ∀ seg ∈ segs, seg.Plain) :
    PassesOn (List.replicate k 0 ++ encode segs) (allocNALU senderBuffer) (segs.map Segment.nal) ↔
      Readable senderBuffer k segs := by
  have four : 4 ≤ (allocNALU senderBuffer).max_size := by
    show 4 ≤ 8000000
    omega
  exact (passesOn_iff four).trans (passes_written plain)

/-- A parameter set and a slice. -/
def zerosUnits : List Segment := [⟨.four, [0x67, 0, 3]⟩, ⟨.three, [0x65]⟩]

theorem plain_zerosUnits : ∀ seg ∈ zerosUnits, seg.Plain := by
  intro seg member
  simp only [zerosUnits, List.mem_cons, List.not_mem_nil, or_false] at member
  rcases member with rfl | rfl
  · exact ⟨by decide, by decide, by decide⟩
  · exact ⟨by decide, by decide, by decide⟩

/-- Of six zeros two are left, and the first unit is read behind a start code of three. -/
theorem leading_zeros_three :
    PassesOn (List.replicate 3 0 ++ encode zerosUnits) (allocNALU senderBuffer) (zerosUnits.map Segment.nal) :=
  (leading_zeros_iff 3 plain_zerosUnits).mpr (by decide)

/-- **One zero in front of a start code of four, and the first unit is lost.** -/
theorem one_zero_loses :
    ¬ PassesOn (List.replicate 1 0 ++ encode zerosUnits) (allocNALU senderBuffer) (zerosUnits.map Segment.nal) := by
  intro passes
  have four : 4 ≤ (allocNALU senderBuffer).max_size := by
    show 4 ≤ 8000000
    omega
  exact units_lost plain_zerosUnits (by decide) ((passesOn_iff four).mp passes)

end GreatEvent.Nal
