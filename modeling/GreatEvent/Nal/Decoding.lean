import GreatEvent.Nal.NALDecoder

/-!
# Decoding Annex-B files

A call of `GetAnnexbNALU` returns the first segment of what has not been read
and leaves the file in front of the rest (`getAnnexbNALU_cut`), so calls until
the end of the file return the segments of the file (`callUntilFeof_cuts`).
-/

namespace GreatEvent.Nal

open Lib

/-! ## Start codes -/

theorem findStartCode3_iff (buf : List UInt8) :
    findStartCode3 (buf.drop (buf.length - 4)) = true ↔ 0 :: codeMark <:+ buf := by
  have all : (buf.drop (buf.length - 4)).take 4 = buf.drop (buf.length - 4) := by
    refine List.take_of_length_le ?_
    rw [List.length_drop]
    omega
  rw [findStartCode3, all, decide_eq_true_iff, List.suffix_iff_eq_drop]
  exact eq_comm

theorem findStartCode2_iff (buf : List UInt8) :
    findStartCode2 (buf.drop (buf.length - 3)) = true ↔ codeMark <:+ buf := by
  have all : (buf.drop (buf.length - 3)).take 3 = buf.drop (buf.length - 3) := by
    refine List.take_of_length_le ?_
    rw [List.length_drop]
    omega
  rw [findStartCode2, all, decide_eq_true_iff, List.suffix_iff_eq_drop]
  exact eq_comm

theorem StartCode.bytes_last (code : StartCode) : [1] <:+ code.bytes := by
  cases code <;> decide

/-- A mark that ends behind a start code lies behind it: its zeros are not that one's 1. -/
theorem suffix_of_code {code : StartCode} {mark seen : List UInt8} (more : seen ≠ [])
    (zeros : 1 ∉ mark.dropLast) : mark <:+ code.bytes ++ seen ↔ mark <:+ seen := by
  constructor
  · intro ends
    rcases List.suffix_or_suffix_of_suffix ends (List.suffix_append _ _) with behind | ⟨x, rfl⟩
    · exact behind
    · by_cases none : x = []
      · rw [none]
        exact List.suffix_rfl
      · have inside : x <:+ code.bytes := List.suffix_append_self_iff.mp ends
        have one : 1 ∈ x := by
          rcases List.suffix_or_suffix_of_suffix code.bytes_last inside with last | short
          · exact last.subset List.mem_cons_self
          · rcases List.suffix_cons_iff.mp short with rfl | empty
            · exact List.mem_cons_self
            · exact absurd (List.suffix_nil.mp empty) none
        rw [List.dropLast_append_of_ne_nil more] at zeros
        exact absurd (List.mem_append_left _ one) zeros
  · exact fun ends => ends.trans (List.suffix_append _ _)

/-- Zeros make no start code. -/
theorem unmarked_concat_zero {s : List UInt8} (unmarked : Unmarked codeMark s) :
    Unmarked codeMark (s ++ [0]) := by
  intro marked
  rcases List.infix_concat_iff.mp marked with ends | before
  · obtain ⟨front, same⟩ := ends
    have last := congrArg List.getLast? same
    simp [codeMark] at last
  · exact unmarked before

/-- A unit and the next start code hold none before their last byte. -/
theorem unmarked_before {nal : List UInt8} (unmarked : Unmarked codeMark nal) (next : StartCode) :
    Unmarked codeMark (nal ++ next.bytes).dropLast := by
  have two := unmarked_concat_zero (unmarked_concat_zero unmarked)
  have three := unmarked_concat_zero two
  rw [List.append_assoc] at two three
  rw [List.dropLast_append_of_ne_nil (List.length_pos_iff.mp next.length_pos)]
  cases next with
  | three => exact two
  | four =>
    rw [List.append_assoc] at three
    exact three

/-- How many bytes behind a unit a call reads before it knows where the unit ends: the next start code,
or the end of the file. -/
def lookahead : List UInt8 → Nat
  | [] => 1
  | 0 :: 0 :: 1 :: _ => 3
  | _ => 4

theorem lookahead_code {code : StartCode} {rest : List UInt8} (begins : code.bytes <+: rest) :
    lookahead rest = code.prefixLen := by
  obtain ⟨back, rfl⟩ := begins
  cases code <;> rfl

/-- It is no more than what is left of the file and its end. -/
theorem Cut.lookahead_le {s rest : List UInt8} {seg : Segment} (cut : Cut s seg rest) :
    lookahead rest ≤ rest.length + 1 := by
  rcases cut.next with rfl | ⟨code, follows⟩
  · exact Nat.le_refl _
  · have short := follows.begins.length_le
    rw [lookahead_code follows.begins, StartCode.prefixLen]
    omega

/-- A buffer longer than the file has room for both. -/
theorem Cut.room_le {s rest : List UInt8} {seg : Segment} (cut : Cut s seg rest) {n : Nat}
    (room : s.length < n) : seg.bytes.length + lookahead rest ≤ n := by
  have ahead := cut.lookahead_le
  rw [cut.stream, List.length_append] at room
  omega

/-! ## The scan -/

/-- The file some bytes further. -/
def BitStream.advance (file : BitStream) (n : Nat) : BitStream := { file with pos := file.pos + n }

theorem BitStream.unread_advance {file : BitStream} (xs : List UInt8) {back : List UInt8}
    (comes : file.unread = xs ++ back) : (file.advance xs.length).unread = back := by
  rw [unread, advance, ← List.drop_drop, ← unread, comes, List.drop_left]

theorem BitStream.fread_append {file : BitStream} (xs : List UInt8) {back : List UInt8}
    (comes : file.unread = xs ++ back) : file.fread xs.length = (xs, file.advance xs.length) := by
  simp only [fread, comes, List.take_left, Nat.lt_irrefl, decide_false, Bool.or_false]
  rfl

theorem BitStream.unread_fread (file : BitStream) (n : Nat) : (file.fread n).2.unread = file.unread.drop n := by
  show file.content.drop (file.pos + (file.unread.take n).length) = _
  rw [← List.drop_drop, ← unread, List.length_take]
  by_cases all : n ≤ file.unread.length
  · rw [Nat.min_eq_left all]
  · rw [List.drop_eq_nil_of_le (by omega), List.drop_eq_nil_of_le (by omega)]

theorem BitStream.pos_fread (file : BitStream) (n : Nat) :
    (file.fread n).2.pos = file.pos + min n file.unread.length := by
  rw [← List.length_take]
  rfl

theorem BitStream.feof_fread (file : BitStream) (n : Nat) :
    (file.fread n).2.feof = (file.feof || decide (file.unread.length < n)) := by
  have less : (file.unread.take n).length < n ↔ file.unread.length < n := by
    rw [List.length_take]
    omega
  show (file.feof || decide ((file.unread.take n).length < n)) = _
  rw [decide_eq_decide.mpr less]

theorem BitStream.fgetc_cons {file : BitStream} {c : UInt8} {xs : List UInt8}
    (comes : file.unread = c :: xs) : file.fgetc = (c, file.advance 1) := by
  rw [fgetc, comes]
  rfl

theorem BitStream.fgetc_nil {file : BitStream} (ends : file.unread = []) :
    file.fgetc = (255, { file with feof := true }) := by
  rw [fgetc, ends]

section
variable (code : StartCode) (seen : List UInt8) {room : Nat} (file : BitStream)

theorem scan_feof (ended : file.feof = true) (buf : List UInt8) :
    scan room file buf = some (none, file, buf) := by
  rw [scan.eq_def]
  exact if_pos ended

/-- One byte that completes no start code. -/
theorem scan_step (goesOn : file.feof = false) {c : UInt8} {next : BitStream}
    (reads : file.fgetc = (c, next)) (unmarked : ¬ codeMark <:+ seen ++ [c]) :
    scan (room + 1) file (code.bytes ++ seen) = scan room next (code.bytes ++ (seen ++ [c])) := by
  have more : seen ++ [c] ≠ [] := List.append_ne_nil_of_right_ne_nil _ (List.cons_ne_nil _ _)
  have not2 : ¬ codeMark <:+ code.bytes ++ (seen ++ [c]) := by
    rwa [suffix_of_code more (by decide)]
  have not3 : ¬ 0 :: codeMark <:+ code.bytes ++ (seen ++ [c]) :=
    fun ends => not2 ((List.suffix_cons 0 codeMark).trans ends)
  rw [scan, if_neg (by rw [goesOn]; decide)]
  simp only [reads, List.append_assoc]
  rw [if_neg (mt (findStartCode3_iff _).mp not3), if_neg (mt (findStartCode2_iff _).mp not2)]

/-- The byte that completes the next start code. -/
theorem scan_found (goesOn : file.feof = false) {c : UInt8} {after : BitStream}
    (reads : file.fgetc = (c, after)) {nal : List UInt8} {next : StartCode}
    (complete : seen ++ [c] = nal ++ next.bytes) (apart : next = .three → EndsNonzero nal) :
    scan (room + 1) file (code.bytes ++ seen) =
      some (some next.prefixLen, after, code.bytes ++ (nal ++ next.bytes)) := by
  have more : nal ++ next.bytes ≠ [] := by
    rw [← complete]
    exact List.append_ne_nil_of_right_ne_nil _ (List.cons_ne_nil _ _)
  rw [scan, if_neg (by rw [goesOn]; decide)]
  simp only [reads, List.append_assoc, complete]
  have no3 : (1 : UInt8) ∉ (0 :: codeMark).dropLast := by decide
  have no2 : (1 : UInt8) ∉ codeMark.dropLast := by decide
  cases next with
  | three =>
    have not3 : ¬ 0 :: codeMark <:+ code.bytes ++ (nal ++ StartCode.three.bytes) := by
      rw [suffix_of_code more no3]
      show ¬ [0] ++ codeMark <:+ nal ++ codeMark
      rw [List.suffix_append_self_iff]
      exact apart rfl
    have is2 : codeMark <:+ code.bytes ++ (nal ++ StartCode.three.bytes) := by
      rw [suffix_of_code more no2]
      exact List.suffix_append _ _
    rw [if_neg (mt (findStartCode3_iff _).mp not3), if_pos ((findStartCode2_iff _).mpr is2)]
    rfl
  | four =>
    have is3 : 0 :: codeMark <:+ code.bytes ++ (nal ++ StartCode.four.bytes) := by
      rw [suffix_of_code more no3]
      exact List.suffix_append _ _
    rw [if_pos ((findStartCode3_iff _).mpr is3)]
    rfl

/-- **The scan runs to the next start code.** -/
theorem scan_to_code (goesOn : file.feof = false) {nal xs back : List UInt8} {next : StartCode}
    (comes : file.unread = xs ++ back) (split : seen ++ xs = nal ++ next.bytes) (some : xs ≠ [])
    (unmarked : Unmarked codeMark nal) (apart : next = .three → EndsNonzero nal)
    (fits : xs.length ≤ room) :
    scan room file (code.bytes ++ seen) =
      Option.some (Option.some next.prefixLen, file.advance xs.length,
        code.bytes ++ (nal ++ next.bytes)) := by
  have front := unmarked_before unmarked next
  induction xs generalizing seen room file with
  | nil => exact absurd rfl some
  | cons c xs ih =>
    cases room with
    | zero => cases fits
    | succ room =>
      have reads := BitStream.fgetc_cons comes
      cases xs with
      | nil => exact scan_found code seen file goesOn reads split apart
      | cons d xs =>
        rw [List.append_cons] at split
        have before : seen ++ [c] <+: (nal ++ next.bytes).dropLast := by
          rw [← split, List.dropLast_append_of_ne_nil (List.cons_ne_nil _ _)]
          exact List.prefix_append _ _
        rw [scan_step code seen file goesOn reads (front.not_suffix before),
          ih _ (file.advance 1) goesOn (BitStream.unread_advance [c] comes) split (List.cons_ne_nil _ _)
            (Nat.le_of_succ_le_succ fits)]
        rw [BitStream.advance, BitStream.advance, BitStream.advance, Nat.add_assoc,
          Nat.add_comm 1]
        rfl

/-- **The scan runs to the end of the file**, where the last byte it stores is no byte of the file. -/
theorem scan_to_end (goesOn : file.feof = false) {xs : List UInt8} (comes : file.unread = xs)
    (unmarked : Unmarked codeMark (seen ++ xs)) (fits : xs.length < room) :
    scan room file (code.bytes ++ seen) =
      Option.some (none, { file.advance xs.length with feof := true },
        code.bytes ++ (seen ++ xs) ++ [255]) := by
  induction xs generalizing seen room file with
  | nil =>
    cases room with
    | zero => cases fits
    | succ room =>
      have noMark : ¬ codeMark <:+ seen ++ [255] := by
        rintro ⟨front, same⟩
        have last := congrArg List.getLast? same
        simp [codeMark] at last
      rw [scan_step code seen file goesOn (BitStream.fgetc_nil comes) noMark, scan_feof _ rfl, List.append_nil,
        List.append_assoc]
      rfl
  | cons c xs ih =>
    cases room with
    | zero => cases fits
    | succ room =>
      rw [List.append_cons] at unmarked
      rw [scan_step code seen file goesOn (BitStream.fgetc_cons comes) (unmarked.not_suffix (List.prefix_append _ _)),
        ih _ (file.advance 1) goesOn (BitStream.unread_advance [c] comes) unmarked
          (Nat.lt_of_succ_lt_succ fits)]
      simp [BitStream.advance, Nat.add_assoc, Nat.add_comm 1]

/-- **The scan runs past its buffer** if that is full before a start code is complete. -/
theorem scan_past (goesOn : file.feof = false) {xs back : List UInt8} (comes : file.unread = xs ++ back)
    (unmarked : Unmarked codeMark (seen ++ xs)) :
    scan xs.length file (code.bytes ++ seen) = none := by
  induction xs generalizing seen file with
  | nil =>
    rw [List.length_nil, scan, if_neg (by rw [goesOn]; decide)]
  | cons c xs ih =>
    rw [List.append_cons] at unmarked
    rw [List.length_cons, scan_step code seen file goesOn (BitStream.fgetc_cons comes)
      (unmarked.not_suffix (List.prefix_append _ _))]
    exact ih _ (file.advance 1) goesOn (BitStream.unread_advance [c] comes) unmarked

end

/-! ## A call -/

/-- `NALU_t` holds a segment. -/
structure Nalu.Holds (n : Nalu) (seg : Segment) : Prop where
  prefixLen : n.startcodeprefix_len = seg.code.prefixLen
  len : n.len = seg.nal.length
  bytes : n.buf.take n.len = seg.nal
  bits : ∀ first tail, seg.nal = first :: tail → n.forbidden_bit = first &&& 0x80 ∧
    n.nal_reference_idc = first &&& 0x60 ∧ n.nal_unit_type = first &&& 0x1f

theorem store_holds {n : Nalu} {seg : Segment} (prefixLen : n.startcodeprefix_len = seg.code.prefixLen)
    (fits : seg.nal.length < n.max_size) :
    ∃ n', n.store seg.nal = some n' ∧ n'.Holds seg ∧ n'.max_size = n.max_size := by
  have some : seg.nal.length ≤ n.max_size ∧ 0 < n.max_size := by omega
  refine ⟨_, dif_pos some, ⟨prefixLen, rfl, List.take_left, ?_⟩, rfl⟩
  intro first tail same
  simp only [same, List.cons_append, List.headD_cons, and_self]

/-- The file in front of `rest`, at its end if nothing is left. -/
structure BitStream.LeftAt (file : BitStream) (rest : List UInt8) : Prop where
  unread : file.unread = rest
  feof : file.feof = decide (rest = [])

section
variable {file : BitStream} {nalu : Nalu} {seg : Segment} {rest : List UInt8}

/-- **From behind its start code, a segment is stored and the rest left.** -/
theorem afterCode_cut (file : BitStream) (nalu : Nalu) (seg : Segment) (goesOn : file.feof = false) (comes : file.unread = seg.nal ++ rest)
    (unmarked : Unmarked codeMark seg.nal) (next : rest = [] ∨ ∃ code, Follows seg.nal code rest)
    (prefixLen : nalu.startcodeprefix_len = seg.code.prefixLen)
    (room : seg.bytes.length + lookahead rest ≤ nalu.max_size) :
    ∃ file' nalu', afterCode file nalu seg.code.bytes = some (↑seg.bytes.length, file', nalu') ∧
      file'.LeftAt rest ∧ nalu'.Holds seg ∧ nalu'.max_size = nalu.max_size := by
  have length : seg.bytes.length = seg.code.bytes.length + seg.nal.length := List.length_append
  have coded := seg.code.length_pos
  obtain ⟨nalu', stored, holds, same⟩ := store_holds prefixLen (by omega)
  -- what is stored of `buf` is the unit, whatever has been read behind it
  have unit : ∀ read : List UInt8, ((seg.bytes ++ read).take ((seg.bytes ++ read).length - read.length)).drop
      nalu.startcodeprefix_len = seg.nal := by
    intro read
    rw [List.length_append, Nat.add_sub_cancel, List.take_left, prefixLen, Segment.bytes,
      StartCode.prefixLen, List.drop_left]
  have size : ∀ read : List UInt8, (seg.bytes ++ read).length - read.length = seg.bytes.length := by
    intro read
    rw [List.length_append, Nat.add_sub_cancel]
  rcases next with rfl | ⟨code, ⟨⟨back, split⟩, apart⟩⟩
  · have within : seg.nal.length < nalu.max_size - seg.code.bytes.length := by
      rw [show lookahead [] = 1 from rfl] at room
      omega
    have scanned := scan_to_end seg.code [] file goesOn (comes.trans (List.append_nil _)) unmarked within
    rw [List.nil_append, List.append_nil] at scanned
    refine ⟨{ file.advance seg.nal.length with feof := true }, nalu', ?_, ⟨?_, rfl⟩, holds, same⟩
    · rw [afterCode, scanned]
      simp only [Option.bind_eq_bind, Option.bind_some]
      rw [← Segment.bytes, show (1 : Nat) = [(255 : UInt8)].length from rfl, unit, stored, size]
      rfl
    · exact BitStream.unread_advance _ comes
  · subst split
    have more : seg.nal ++ code.bytes ≠ [] :=
      List.append_ne_nil_of_right_ne_nil _ (List.length_pos_iff.mp code.length_pos)
    have within : (seg.nal ++ code.bytes).length ≤ nalu.max_size - seg.code.bytes.length := by
      rw [lookahead_code (List.prefix_append _ _), StartCode.prefixLen] at room
      rw [List.length_append]
      omega
    have scanned := scan_to_code seg.code [] file goesOn
      (comes.trans (List.append_assoc _ _ _).symm) (List.nil_append _) more unmarked apart within
    rw [List.append_nil, ← List.append_assoc, ← Segment.bytes] at scanned
    have back' : (file.advance (seg.nal ++ code.bytes).length).fseekBack code.prefixLen =
        some (file.advance seg.nal.length) := by
      rw [BitStream.fseekBack, if_pos ?_]
      · simp only [BitStream.advance, List.length_append, StartCode.prefixLen, ← Nat.add_assoc,
          Nat.add_sub_cancel, goesOn]
      · simp only [BitStream.advance, List.length_append, StartCode.prefixLen]
        omega
    have left : code.bytes ++ back ≠ [] :=
      List.append_ne_nil_of_left_ne_nil (List.length_pos_iff.mp code.length_pos) _
    refine ⟨file.advance seg.nal.length, nalu', ?_, ⟨BitStream.unread_advance _ comes, ?_⟩, holds, same⟩
    · rw [afterCode, scanned]
      simp only [Option.bind_eq_bind, Option.bind_some, back']
      rw [StartCode.prefixLen, unit, stored, size]
      rfl
    · rw [decide_eq_false left]
      exact goesOn

/-- **A call returns the first segment of what is left of the file**, if its buffer holds the segment and
what is read behind it. -/
theorem getAnnexbNALU_cut (goesOn : file.feof = false) (cut : Cut file.unread seg rest)
    (room : seg.bytes.length + lookahead rest ≤ nalu.max_size) :
    ∃ file' nalu', getAnnexbNALU file nalu = some (↑seg.bytes.length, file', nalu') ∧
      file'.LeftAt rest ∧ nalu'.Holds seg ∧ nalu'.max_size = nalu.max_size := by
  have comes : file.unread = seg.code.bytes ++ (seg.nal ++ rest) := by
    rw [cut.stream, Segment.bytes, List.append_assoc]
  have behind := BitStream.unread_advance _ comes
  have long : seg.code.bytes.length ≤ nalu.max_size := by
    rw [Segment.bytes, List.length_append] at room
    omega
  obtain ⟨code, nal⟩ := seg
  cases code with
  | three =>
    have read : file.fread 3 = ([0, 0, 1], file.advance 3) := BitStream.fread_append _ comes
    have long : ¬ nalu.max_size < [(0 : UInt8), 0, 1].length := Nat.not_lt_of_le long
    obtain ⟨file', nalu', taken, facts⟩ := afterCode_cut (file.advance 3)
      { nalu with startcodeprefix_len := 3 } ⟨.three, nal⟩ goesOn behind cut.unmarked cut.next rfl room
    refine ⟨file', nalu', ?_, facts⟩
    simp only [getAnnexbNALU, read]
    rw [if_neg long, if_neg (by decide), if_pos (by decide)]
    exact taken
  | four =>
    have read : file.fread 3 = ([0, 0, 0], file.advance 3) :=
      BitStream.fread_append [0, 0, 0] comes
    have readOne : (file.advance 3).fread 1 = ([1], file.advance 4) :=
      BitStream.fread_append [1] (BitStream.unread_advance [0, 0, 0] comes)
    have long : ¬ nalu.max_size < ([(0 : UInt8), 0, 0] ++ [1]).length := Nat.not_lt_of_le long
    have long3 : ¬ nalu.max_size < [(0 : UInt8), 0, 0].length := fun short => long (Nat.lt_succ_of_lt short)
    obtain ⟨file', nalu', taken, facts⟩ := afterCode_cut (file.advance 4)
      { nalu with startcodeprefix_len := 4 } ⟨.four, nal⟩ goesOn behind cut.unmarked cut.next rfl room
    refine ⟨file', nalu', ?_, facts⟩
    simp only [getAnnexbNALU, read, readOne]
    rw [if_neg long3, if_neg (by decide), if_neg (by decide), if_neg long, if_neg (by decide),
      if_pos (by decide)]
    exact taken

/-- Without that room it runs past its buffer. -/
theorem afterCode_past (file : BitStream) (nalu : Nalu) (seg : Segment) (goesOn : file.feof = false)
    (comes : file.unread = seg.nal ++ rest) (unmarked : Unmarked codeMark seg.nal)
    (next : rest = [] ∨ ∃ code, Follows seg.nal code rest)
    (past : nalu.max_size < seg.bytes.length + lookahead rest) :
    afterCode file nalu seg.code.bytes = none := by
  have length : seg.bytes.length = seg.code.bytes.length + seg.nal.length := List.length_append
  -- what fits into the buffer behind the start code holds no other
  have full : ∀ front : List UInt8, Unmarked codeMark front → front <+: file.unread →
      nalu.max_size - seg.code.bytes.length ≤ front.length →
      scan (nalu.max_size - seg.code.bytes.length) file seg.code.bytes = none := by
    rintro front clean ⟨back, split⟩ short
    have read : file.unread = front.take (nalu.max_size - seg.code.bytes.length) ++
        (front.drop (nalu.max_size - seg.code.bytes.length) ++ back) := by
      rw [← List.append_assoc, List.take_append_drop, split]
    have scanned := scan_past seg.code [] file goesOn read
      (clean.of_infix (List.take_prefix _ _).isInfix)
    rwa [List.append_nil, List.length_take_of_le short] at scanned
  have scanned : scan (nalu.max_size - seg.code.bytes.length) file seg.code.bytes = none := by
    rcases next with rfl | ⟨code, follows⟩
    · refine full seg.nal unmarked ⟨[], comes.symm⟩ ?_
      rw [show lookahead [] = 1 from rfl] at past
      omega
    · obtain ⟨back, split⟩ := follows.begins
      refine full _ (unmarked_before unmarked code) ?_ ?_
      · rw [comes, ← split, ← List.append_assoc]
        exact (List.dropLast_prefix _).trans (List.prefix_append _ _)
      · rw [lookahead_code follows.begins, StartCode.prefixLen] at past
        rw [List.length_dropLast, List.length_append]
        omega
  rw [afterCode, scanned]
  rfl

/-- **A call faults on a segment that its buffer does not hold** with what is read behind it. -/
theorem getAnnexbNALU_past (goesOn : file.feof = false) (cut : Cut file.unread seg rest)
    (past : nalu.max_size < seg.bytes.length + lookahead rest) : getAnnexbNALU file nalu = none := by
  have comes : file.unread = seg.code.bytes ++ (seg.nal ++ rest) := by
    rw [cut.stream, Segment.bytes, List.append_assoc]
  have behind := BitStream.unread_advance _ comes
  obtain ⟨code, nal⟩ := seg
  cases code with
  | three =>
    have read : file.fread 3 = ([0, 0, 1], file.advance 3) := BitStream.fread_append _ comes
    simp only [getAnnexbNALU, read]
    split
    · rfl
    · rw [if_neg (by decide), if_pos (by decide)]
      exact afterCode_past (file.advance 3) { nalu with startcodeprefix_len := 3 } ⟨.three, nal⟩ goesOn
        behind cut.unmarked cut.next past
  | four =>
    have read : file.fread 3 = ([0, 0, 0], file.advance 3) :=
      BitStream.fread_append [0, 0, 0] comes
    have readOne : (file.advance 3).fread 1 = ([1], file.advance 4) :=
      BitStream.fread_append [1] (BitStream.unread_advance [0, 0, 0] comes)
    simp only [getAnnexbNALU, read, readOne]
    split
    · rfl
    · rw [if_neg (by decide), if_neg (by decide)]
      split
      · rfl
      · rw [if_neg (by decide), if_pos (by decide)]
        exact afterCode_past (file.advance 4) { nalu with startcodeprefix_len := 4 } ⟨.four, nal⟩ goesOn
          behind cut.unmarked cut.next past

/-- A call in front of anything but a start code returns no unit; it takes four bytes, or what there is. -/
theorem getAnnexbNALU_off (other : ¬ Begins file.unread) (room : min 4 file.unread.length ≤ nalu.max_size) :
    ∃ size file' nalu', getAnnexbNALU file nalu = some (size, file', nalu') ∧ size ≤ 0 ∧
      file'.pos = file.pos + min 4 file.unread.length ∧ file'.unread = file.unread.drop 4 ∧
      file'.feof = (file.feof || decide (file.unread.length < 4)) ∧ nalu'.max_size = nalu.max_size := by
  have unread := file.unread_fread 3
  have unread' := (file.fread 3).2.unread_fread 1
  have pos := file.pos_fread 3
  have pos' := (file.fread 3).2.pos_fread 1
  have feof := file.feof_fread 3
  have feof' := (file.fread 3).2.feof_fread 1
  rw [unread] at pos' feof' unread'
  rw [List.drop_drop] at unread'
  have first : (file.fread 3).1 = file.unread.take 3 := rfl
  have second : ((file.fread 3).2.fread 1).1 = (file.unread.drop 3).take 1 := by
    rw [← unread]
    rfl
  rw [List.length_drop] at pos' feof'
  unfold getAnnexbNALU
  dsimp only
  rw [first, second, List.length_take, if_neg (by omega)]
  split
  case isTrue short =>
    refine ⟨_, _, _, rfl, Int.le_refl _, by omega, ?_, ?_, rfl⟩
    · rw [unread, List.drop_eq_nil_of_le (by omega), List.drop_eq_nil_of_le (by omega)]
    · rw [feof, decide_eq_true (by omega), decide_eq_true (by omega)]
  case isFalse long =>
    split
    case isTrue found =>
      have mark : (file.unread.take 3).take 3 = StartCode.three.bytes := of_decide_eq_true found
      rw [List.take_take] at mark
      exact absurd ⟨.three, by rw [← mark]; exact List.take_prefix _ _⟩ other
    case isFalse =>
      rw [List.length_append, List.length_take, List.length_take, List.length_drop, if_neg (by omega)]
      split
      case isTrue short =>
        refine ⟨_, _, _, rfl, Int.le_refl _, by omega, unread', ?_, rfl⟩
        rw [feof', feof, decide_eq_true (show file.unread.length - 3 < 1 by omega), Bool.or_true,
          decide_eq_true (by omega), Bool.or_true]
      case isFalse four =>
        split
        case isTrue found =>
          have mark : (file.unread.take 3 ++ (file.unread.drop 3).take 1).take 4 =
              StartCode.four.bytes := of_decide_eq_true found
          rw [← List.take_add, List.take_take] at mark
          exact absurd ⟨.four, by rw [← mark]; exact List.take_prefix _ _⟩ other
        case isFalse =>
          refine ⟨_, _, _, rfl, by decide, by omega, unread', ?_, rfl⟩
          rw [feof', feof, decide_eq_false (show ¬ file.unread.length - 3 < 1 by omega), Bool.or_false,
            decide_eq_false (by omega), decide_eq_false (by omega)]

/-- A call at the end of the file finds nothing. -/
theorem getAnnexbNALU_nothing (ended : file.unread = []) :
    getAnnexbNALU file nalu =
      some (0, { file with feof := true }, { nalu with startcodeprefix_len := 3 }) := by
  have read : file.fread 3 = ([], { file with feof := true }) := by
    simp [BitStream.fread, ended]
  simp only [getAnnexbNALU, read]
  exact if_neg (Nat.not_lt_zero _)

end

/-! ## Calls until the end of the file -/

/-- What a call says of a segment: its `NALU_t` holds it, and its size is returned. -/
structure Call.Returns (c : Call) (seg : Segment) : Prop where
  size : c.size = ↑seg.bytes.length
  holds : c.nalu.Holds seg

/-- **The calls return the segments of the file.** -/
theorem callUntilFeof_cuts {s : List UInt8} {segs : List Segment} (cuts : Cuts s segs)
    (file : BitStream) (nalu : Nalu) (comes : file.unread = s) (goesOn : file.feof = false)
    (room : s.length < nalu.max_size) :
    ∃ calls, List.Forall₂ Call.Returns calls segs ∧
      ∀ fuel, s.length ≤ fuel → callUntilFeof fuel file nalu = some calls := by
  induction cuts generalizing file nalu with
  | last cut =>
    subst comes
    have shorter := cut.length_lt
    obtain ⟨file', nalu', call, left, holds, -⟩ := getAnnexbNALU_cut goesOn cut (cut.room_le room)
    refine ⟨[⟨_, nalu'⟩], .cons ⟨rfl, holds⟩ .nil, fun fuel enough => ?_⟩
    obtain ⟨fuel, rfl⟩ : ∃ n, fuel = n + 1 := ⟨fuel - 1, by omega⟩
    rw [callUntilFeof, call]
    simp only [Option.bind_eq_bind, Option.bind_some, left.feof]
    rfl
  | cons cut more _ ih =>
    subst comes
    have shorter := cut.length_lt
    obtain ⟨file', nalu', call, left, holds, same⟩ := getAnnexbNALU_cut goesOn cut (cut.room_le room)
    have goesOn' : file'.feof = false := left.feof.trans (decide_eq_false more)
    obtain ⟨calls, returned, later⟩ := ih file' nalu' left.unread goesOn' (by omega)
    refine ⟨⟨_, nalu'⟩ :: calls, .cons ⟨rfl, holds⟩ returned, fun fuel enough => ?_⟩
    obtain ⟨fuel, rfl⟩ : ∃ n, fuel = n + 1 := ⟨fuel - 1, by omega⟩
    rw [callUntilFeof, call]
    simp only [Option.bind_eq_bind, Option.bind_some, goesOn', later fuel (by omega)]
    rfl

section
variable {calls : List Call} {segs : List Segment}

/-- The bytes of a start code of some length. -/
def startCode (len : Nat) : List UInt8 := List.replicate (len - 1) 0 ++ [1]

theorem startCode_prefixLen (code : StartCode) : startCode code.prefixLen = code.bytes := by
  cases code <;> rfl

theorem Call.Returns.nal_eq {c : Call} {seg : Segment} (returns : c.Returns seg) : c.nal = seg.nal :=
  returns.holds.bytes

/-- A call that returns a segment has found it. -/
theorem Call.Returns.found {c : Call} {seg : Segment} (returns : c.Returns seg) : c.found = true := by
  have := seg.code.length_pos
  rw [Call.found, returns.size, Segment.bytes, List.length_append, decide_eq_true_iff]
  omega

theorem flatMap_returned (returned : List.Forall₂ Call.Returns calls segs) :
    calls.flatMap (fun c => startCode c.nalu.startcodeprefix_len ++ c.nal) = encode segs := by
  induction returned with
  | nil => rfl
  | cons returns _ ih =>
    rw [List.flatMap_cons, ih, returns.holds.prefixLen, startCode_prefixLen, returns.nal_eq]
    rfl

theorem exists_returned (returned : List.Forall₂ Call.Returns calls segs) {c : Call} (member : c ∈ calls) :
    ∃ seg ∈ segs, c.Returns seg := by
  induction returned with
  | nil => cases member
  | cons returns _ ih =>
    rcases List.mem_cons.mp member with rfl | later
    · exact ⟨_, List.mem_cons_self, returns⟩
    · obtain ⟨seg, inside, returns⟩ := ih later
      exact ⟨seg, List.mem_cons_of_mem _ inside, returns⟩

end

/-- **Annex-B splitting is a lossless partition**: start codes and units in turn are the file, and no
unit holds a start code. -/
theorem annexb_partition {content : List UInt8} (begins : Begins content) {nalu : Nalu}
    (room : content.length < nalu.max_size) :
    ∃ calls, (∀ fuel, content.length ≤ fuel →
        callUntilFeof fuel (.openFile content) nalu = some calls) ∧
      calls.flatMap (fun c => startCode c.nalu.startcodeprefix_len ++ c.nal) = content ∧
      ∀ c ∈ calls, c.size = ↑(c.nalu.startcodeprefix_len + c.nalu.len) ∧ c.nal.length = c.nalu.len ∧
        Unmarked codeMark c.nal ∧ c.size ≠ -1 := by
  obtain ⟨segs, cuts⟩ := exists_cuts begins
  obtain ⟨calls, returned, runs⟩ := callUntilFeof_cuts cuts (.openFile content) nalu rfl rfl room
  refine ⟨calls, runs, (flatMap_returned returned).trans cuts.encode_eq, fun c member => ?_⟩
  obtain ⟨seg, inside, returns⟩ := exists_returned returned member
  have size : c.size = ↑(c.nalu.startcodeprefix_len + c.nalu.len) := by
    rw [returns.size, returns.holds.prefixLen, returns.holds.len, Segment.bytes, List.length_append]
    rfl
  refine ⟨size, ?_, returns.nal_eq ▸ cuts.unmarked seg inside, ?_⟩
  · rw [returns.nal_eq, returns.holds.len]
  · rw [size]
    exact fun negative => Int.noConfusion negative

/-- A unit that ends in a zero, then one that ends in two. -/
def sampleFile : List UInt8 := [0, 0, 0, 1, 0x67, 0, 0, 0, 0, 1, 0, 0, 1, 0x65, 0, 0]

theorem annexb_partition_sample :
    ∃ calls, (∀ fuel, sampleFile.length ≤ fuel →
        callUntilFeof fuel (.openFile sampleFile) (allocNALU 17) = some calls) ∧
      calls.flatMap (fun c => startCode c.nalu.startcodeprefix_len ++ c.nal) = sampleFile ∧
      ∀ c ∈ calls, c.size = ↑(c.nalu.startcodeprefix_len + c.nalu.len) ∧ c.nal.length = c.nalu.len ∧
        Unmarked codeMark c.nal ∧ c.size ≠ -1 :=
  annexb_partition ⟨.four, by decide⟩ (by decide)

example : (callUntilFeof 16 (.openFile sampleFile) (allocNALU 17)).map (List.map fun c => (c.size, c.nal)) =
    some [(6, [0x67, 0]), (4, []), (6, [0x65, 0, 0])] := by
  decide

/-- What a call says of the first byte of its unit. -/
def Call.Masks (c : Call) : Prop :=
  ∀ first tail, c.nal = first :: tail → c.nalu.forbidden_bit = first &&& 0x80 ∧
    c.nalu.nal_reference_idc = first &&& 0x60 ∧ c.nalu.nal_unit_type = first &&& 0x1f

/-- **Annex-B decoding undoes encoding**: the calls that find a unit return the units written, with
their start codes. Of an empty stream the only call finds nothing, of any other every call a unit. -/
theorem annexb_decode_encode {segs : List Segment}
    (units : ∀ seg ∈ segs, Unmarked codeMark seg.nal ∧ EndsNonzero seg.nal) {nalu : Nalu}
    (room : (encode segs).length < nalu.max_size) :
    ∃ calls, (∀ fuel, (encode segs).length < fuel →
        callUntilFeof fuel (.openFile (encode segs)) nalu = some calls) ∧
      (calls.filter Call.found).map (fun c => (c.nalu.startcodeprefix_len, c.nalu.len, c.nal)) =
        segs.map (fun seg => (seg.code.prefixLen, seg.nal.length, seg.nal)) ∧
      (segs ≠ [] → ∀ c ∈ calls, c.found = true ∧ c.Masks) := by
  by_cases empty : segs = []
  · subst empty
    refine ⟨[⟨0, { nalu with startcodeprefix_len := 3 }⟩], fun fuel enough => ?_, rfl, absurd rfl⟩
    obtain ⟨fuel, rfl⟩ : ∃ n, fuel = n + 1 := ⟨fuel - 1, by omega⟩
    rw [callUntilFeof, getAnnexbNALU_nothing rfl]
    rfl
  · obtain ⟨calls, returned, runs⟩ := callUntilFeof_cuts (cuts_encode empty units)
      (.openFile (encode segs)) nalu rfl rfl room
    refine ⟨calls, fun fuel enough => runs fuel (Nat.le_of_lt enough), ?_, fun _ c member => ?_⟩
    · clear runs room units empty
      induction returned with
      | nil => rfl
      | cons returns _ ih =>
        rw [List.filter_cons_of_pos returns.found, List.map_cons, List.map_cons, ih,
          returns.holds.prefixLen, returns.holds.len, returns.nal_eq]
    · obtain ⟨seg, -, returns⟩ := exists_returned returned member
      refine ⟨returns.found, fun first tail same => returns.holds.bits first tail ?_⟩
      rw [← returns.nal_eq]
      exact same

def sampleUnits : List Segment := [⟨.four, [0x67, 0, 3]⟩, ⟨.three, []⟩, ⟨.three, [0x65]⟩]

theorem annexb_decode_encode_sample :
    ∃ calls, (∀ fuel, (encode sampleUnits).length < fuel →
        callUntilFeof fuel (.openFile (encode sampleUnits)) (allocNALU 20) = some calls) ∧
      (calls.filter Call.found).map (fun c => (c.nalu.startcodeprefix_len, c.nalu.len, c.nal)) =
        sampleUnits.map (fun seg => (seg.code.prefixLen, seg.nal.length, seg.nal)) ∧
      (sampleUnits ≠ [] → ∀ c ∈ calls, c.found = true ∧ c.Masks) :=
  annexb_decode_encode (by decide) (by decide)

end GreatEvent.Nal
