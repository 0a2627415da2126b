import GreatEvent.Lib.Marks

/-!
# Annex-B byte streams

A stream of NAL units, each behind a start code of three or four bytes. A
reader cuts the stream in front of the next start code, and a zero in front
of a three-byte code belongs to the code (`Cut`). Every stream that begins
with a start code is cut into segments (`exists_cuts`), and a stream written
from units that hold no start code and end in no zero is cut into these
(`cuts_encode`).
-/

namespace GreatEvent.Nal

open Lib

/-- `00 00 01` or `00 00 00 01` -/
inductive StartCode where
  | three
  | four
  deriving DecidableEq, Repr

/-- What both start codes end in. -/
def codeMark : List UInt8 := [0, 0, 1]

def StartCode.bytes : StartCode → List UInt8
  | .three => codeMark
  | .four => 0 :: codeMark

/-- The `startcodeprefix_len` of a start code. -/
def StartCode.prefixLen (code : StartCode) : Nat := code.bytes.length

/-- A NAL unit behind its start code. -/
structure Segment where
  code : StartCode
  nal : List UInt8
  deriving DecidableEq

def Segment.bytes (seg : Segment) : List UInt8 := seg.code.bytes ++ seg.nal

/-- The stream of some segments. -/
def encode (segs : List Segment) : List UInt8 := segs.flatMap Segment.bytes

/-- The stream starts with a start code. -/
def Begins (s : List UInt8) : Prop := ∃ code : StartCode, code.bytes <+: s

/-- A unit that a three-byte start code can follow. -/
def EndsNonzero (nal : List UInt8) : Prop := ¬ [0] <:+ nal

instance (nal : List UInt8) : Decidable (EndsNonzero nal) := inferInstanceAs (Decidable (¬ _))

instance (nal : List UInt8) : Decidable (Unmarked codeMark nal) := inferInstanceAs (Decidable (¬ _))

/-- `rest` starts with `code`, which `nal` leaves as it is. -/
structure Follows (nal : List UInt8) (code : StartCode) (rest : List UInt8) : Prop where
  begins : code.bytes <+: rest
  apart : code = .three → EndsNonzero nal

/-- The first segment of a stream, and what is left. -/
structure Cut (s : List UInt8) (seg : Segment) (rest : List UInt8) : Prop where
  stream : s = seg.bytes ++ rest
  unmarked : Unmarked codeMark seg.nal
  next : rest = [] ∨ ∃ code, Follows seg.nal code rest

/-- The segments of a stream. -/
inductive Cuts : List UInt8 → List Segment → Prop where
  | last {s : List UInt8} {seg : Segment} : Cut s seg [] → Cuts s [seg]
  | cons {s rest : List UInt8} {seg : Segment} {segs : List Segment} :
      Cut s seg rest → rest ≠ [] → Cuts rest segs → Cuts s (seg :: segs)

theorem Cut.begins {s rest : List UInt8} {seg : Segment} (cut : Cut s seg rest) (more : rest ≠ []) :
    Begins rest := by
  obtain ⟨code, follows⟩ := cut.next.resolve_left more
  exact ⟨code, follows.begins⟩

theorem StartCode.length_pos (code : StartCode) : 0 < code.bytes.length := by
  cases code <;> decide

/-- What is left is shorter. -/
theorem Cut.length_lt {s rest : List UInt8} {seg : Segment} (cut : Cut s seg rest) :
    rest.length < s.length := by
  have := seg.code.length_pos
  rw [cut.stream, Segment.bytes, List.length_append, List.length_append]
  omega

/-- **A stream that begins with a start code has a first segment.** -/
theorem exists_cut {s : List UInt8} (begins : Begins s) : ∃ seg rest, Cut s seg rest := by
  obtain ⟨code, t, rfl⟩ := begins
  by_cases marked : codeMark <:+: t
  · obtain ⟨front, back, rfl, first⟩ := exists_first_mark (show codeMark ≠ [] by decide) marked
    have unmarked : Unmarked codeMark front := by
      refine first.of_infix (List.IsPrefix.isInfix ?_)
      rw [List.dropLast_append_of_ne_nil (show codeMark ≠ [] by decide)]
      exact List.prefix_append _ _
    by_cases zero : [0] <:+ front
    · obtain ⟨nal, rfl⟩ := zero
      refine ⟨⟨code, nal⟩, 0 :: (codeMark ++ back), ?_, ?_, .inr ⟨.four, ?_, nofun⟩⟩
      · simp [Segment.bytes]
      · exact unmarked.of_infix (List.prefix_append _ _).isInfix
      · exact List.prefix_append (0 :: codeMark) back
    · refine ⟨⟨code, front⟩, codeMark ++ back, ?_, unmarked, .inr ⟨.three, ?_, fun _ => zero⟩⟩
      · simp [Segment.bytes]
      · exact List.prefix_append _ _
  · exact ⟨⟨code, t⟩, [], by simp [Segment.bytes], marked, .inl rfl⟩

/-- **It is cut into segments.** -/
theorem exists_cuts {s : List UInt8} (begins : Begins s) : ∃ segs, Cuts s segs := by
  induction length : s.length using Nat.strongRecOn generalizing s with
  | ind n ih =>
    subst length
    obtain ⟨seg, rest, cut⟩ := exists_cut begins
    by_cases done : rest = []
    · subst done
      exact ⟨[seg], .last cut⟩
    · obtain ⟨segs, cuts⟩ := ih _ cut.length_lt (cut.begins done) rfl
      exact ⟨seg :: segs, .cons cut done cuts⟩

/-- The segments are the stream. -/
theorem Cuts.encode_eq {s : List UInt8} {segs : List Segment} (cuts : Cuts s segs) :
    encode segs = s := by
  induction cuts with
  | last cut => simp [encode, cut.stream]
  | cons cut _ _ ih =>
    rw [cut.stream, ← ih]
    rfl

theorem Cuts.unmarked {s : List UInt8} {segs : List Segment} (cuts : Cuts s segs) :
    ∀ seg ∈ segs, Unmarked codeMark seg.nal := by
  induction cuts with
  | last cut =>
    intro seg member
    rw [List.mem_singleton.mp member]
    exact cut.unmarked
  | cons cut _ _ ih =>
    intro seg member
    rcases List.mem_cons.mp member with rfl | later
    · exact cut.unmarked
    · exact ih seg later

/-- The first unit of a written stream is its first segment. -/
theorem cut_encode {seg : Segment} (segs : List Segment) (unmarked : Unmarked codeMark seg.nal)
    (ends : EndsNonzero seg.nal) : Cut (encode (seg :: segs)) seg (encode segs) := by
  refine ⟨rfl, unmarked, ?_⟩
  cases segs with
  | nil => exact .inl rfl
  | cons next segs =>
    refine .inr ⟨next.code, ?_, fun _ => ends⟩
    rw [encode, List.flatMap_cons, Segment.bytes, List.append_assoc]
    exact List.prefix_append _ _

theorem encode_ne_nil (seg : Segment) (segs : List Segment) : encode (seg :: segs) ≠ [] := by
  rw [encode, List.flatMap_cons, Segment.bytes]
  intro empty
  have code := seg.code.length_pos
  rw [(List.append_eq_nil_iff.mp (List.append_eq_nil_iff.mp empty).1).1] at code
  cases code

/-- **A written stream is cut into the units written.** -/
theorem cuts_encode {segs : List Segment} (some : segs ≠ [])
    (units : ∀ seg ∈ segs, Unmarked codeMark seg.nal ∧ EndsNonzero seg.nal) :
    Cuts (encode segs) segs := by
  induction segs with
  | nil => exact absurd rfl some
  | cons seg segs ih =>
    obtain ⟨unmarked, ends⟩ := units seg List.mem_cons_self
    have first := cut_encode segs unmarked ends
    cases segs with
    | nil => exact .last first
    | cons next segs =>
      have later := ih (List.cons_ne_nil _ _) fun seg member => units seg (List.mem_cons_of_mem _ member)
      exact .cons first (encode_ne_nil next segs) later

end GreatEvent.Nal
