import Mathlib.Algebra.Group.Int.Defs
import Mathlib.Algebra.Group.Nat.Defs
import GreatEvent.Lib.Marks

/-!
# C string functions over bounded memory

A pointer is the list of bytes readable from it on. A function that would
read past them answers `none`: what lies there is unknown. `strstr` is the
search of the C library, `cstr` the string a buffer holds up to its first
NUL, `atoi` the C library's `(int)strtol(s, NULL, 10)`.
-/

namespace Lib

/-- `strstr(p, needle)`: `some none` is NULL, `some (some q)` a pointer to the first occurrence. -/
def strstr (needle : List UInt8) : List UInt8 → Option (Option (List UInt8))
  | [] => none
  | b :: bs =>
    if needle.isPrefixOf (b :: bs) then some (some (b :: bs))
    else if b = 0 then some none
    else strstr needle bs

/-- The string in a buffer: the bytes before the first NUL. -/
def cstr (buf : List UInt8) : List UInt8 := buf.takeWhile (· ≠ 0)

/-- A string in an array; `none`, it is not terminated there and a reader goes on behind it. -/
def stringIn (buf : List UInt8) : Option (List UInt8) := if (0 : UInt8) ∈ buf then some (cstr buf) else none

/-- `isdigit` -/
def isDigit (b : UInt8) : Bool := 48 ≤ b && b ≤ 57

/-- `isspace` -/
def isSpace (b : UInt8) : Bool := b = 32 || (9 ≤ b && b ≤ 13)

/-- The value of the decimal digits a string starts with. -/
def digitsValue (s : List UInt8) : Nat :=
  (s.takeWhile isDigit).foldl (fun n b => 10 * n + (b.toNat - 48)) 0

/-- `strtol(s, NULL, 10)`: blanks, a sign, digits; clamped to 64 bits. -/
def strtol10 (s : List UInt8) : Int :=
  match s.dropWhile isSpace with
  | 45 :: rest => max (-(digitsValue rest : Int)) (-2 ^ 63)
  | 43 :: rest => min (digitsValue rest : Int) (2 ^ 63 - 1)
  | rest => min (digitsValue rest : Int) (2 ^ 63 - 1)

/-- `atoi`: the low 32 bits of `strtol`, as a signed number. -/
def atoi (s : List UInt8) : Int := (strtol10 s).bmod (2 ^ 32)

section
variable {needle : List UInt8}

/-- The search stops at a first occurrence. -/
theorem strstr_of_prefix {b : UInt8} {bs : List UInt8} (here : needle <+: b :: bs) :
    strstr needle (b :: bs) = some (some (b :: bs)) := by
  rw [strstr, if_pos (List.isPrefixOf_iff_prefix.mpr here)]

/-- The search steps over a byte that starts no occurrence. -/
theorem strstr_skip {b : UInt8} {bs : List UInt8} (absent : ¬ needle <+: b :: bs) (text : b ≠ 0) :
    strstr needle (b :: bs) = strstr needle bs := by
  rw [strstr, if_neg (by rwa [List.isPrefixOf_iff_prefix]), if_neg text]

/-- The search ends at the terminator. -/
theorem strstr_nul {bs : List UInt8} (absent : ¬ needle <+: 0 :: bs) :
    strstr needle (0 :: bs) = some none := by
  rw [strstr, if_neg (by rwa [List.isPrefixOf_iff_prefix]), if_pos rfl]

/-- What the search finds is the rest of the memory from an occurrence of the needle on. -/
theorem strstr_found {s p : List UInt8} (found : strstr needle s = some (some p)) : needle <+: p ∧ p <:+ s := by
  induction s with
  | nil => cases found
  | cons b bs ih =>
    rw [strstr] at found
    split at found
    case isTrue here =>
      cases found
      exact ⟨List.isPrefixOf_iff_prefix.mp here, List.suffix_rfl⟩
    case isFalse =>
      split at found
      · cases found
      · obtain ⟨front, rest⟩ := ih found
        exact ⟨front, rest.trans (List.suffix_cons b bs)⟩

theorem prefix_of_strstr {s p : List UInt8} (found : strstr needle s = some (some p)) : needle <+: p :=
  (strstr_found found).1

theorem suffix_of_strstr {s p : List UInt8} (found : strstr needle s = some (some p)) : p <:+ s :=
  (strstr_found found).2

/-- It gives up at a terminator only. -/
theorem nul_of_strstr {s : List UInt8} (absent : strstr needle s = some none) : (0 : UInt8) ∈ s := by
  induction s with
  | nil => cases absent
  | cons b bs ih =>
    rw [strstr] at absent
    split at absent
    · cases absent
    · split at absent
      case isTrue ends =>
        rw [ends]
        exact List.mem_cons_self
      case isFalse => exact List.mem_cons_of_mem _ (ih absent)

/-- More memory behind it changes no answer. -/
theorem strstr_append {s : List UInt8} {answer : Option (List UInt8)} (found : strstr needle s = some answer)
    (text : (0 : UInt8) ∉ needle) (t : List UInt8) : strstr needle (s ++ t) = some (answer.map (· ++ t)) := by
  induction s with
  | nil => cases found
  | cons b bs ih =>
    rw [strstr] at found
    split at found
    case isTrue here =>
      cases found
      have longer := (List.isPrefixOf_iff_prefix.mp here).trans (List.prefix_append _ t)
      exact strstr_of_prefix longer
    case isFalse absent =>
      have absent : ¬ needle <+: b :: bs := mt List.isPrefixOf_iff_prefix.mpr absent
      split at found
      case isTrue ends =>
        cases found
        subst ends
        -- an occurrence here would take the terminator in, or be the one above
        refine strstr_nul fun here => ?_
        rcases List.prefix_or_prefix_of_prefix here (List.prefix_append (0 :: bs) t) with inside | past
        · exact absent inside
        · exact text (past.subset List.mem_cons_self)
      case isFalse other =>
        rw [List.cons_append, strstr_skip ?_ other, ih found]
        intro here
        rcases List.prefix_or_prefix_of_prefix here (List.prefix_append (b :: bs) t) with inside | past
        · exact absent inside
        · -- the needle is longer than what the search still had
          cases answer with
          | none => exact text (past.subset (List.mem_cons_of_mem _ (nul_of_strstr found)))
          | some p =>
            have short := (prefix_of_strstr found).length_le
            have shorter := (suffix_of_strstr found).length_le
            have longer := past.length_le
            rw [List.length_cons] at longer
            omega

/-- A string ends at its terminator. -/
theorem cstr_append_nul {s : List UInt8} (text : (0 : UInt8) ∉ s) (rest : List UInt8) :
    cstr (s ++ 0 :: rest) = s := by
  rw [cstr, List.takeWhile_append_of_pos]
  · simp
  · intro b member
    have other : b ≠ 0 := fun same => text (same ▸ member)
    simpa using other

/-- Where the first byte of the needle does not occur, the search steps over the text. -/
theorem strstr_append_of_not_mem {c : UInt8} {rest text more : List UInt8} (head : c ∉ text)
    (nul : (0 : UInt8) ∉ text) : strstr (c :: rest) (text ++ more) = strstr (c :: rest) more := by
  induction text with
  | nil => rfl
  | cons b bs ih =>
    simp only [List.mem_cons, not_or] at head nul
    rw [List.cons_append, strstr_skip, ih head.2 nul.2]
    · intro here
      exact head.1 (List.cons_prefix_cons.mp here).1
    · exact Ne.symm nul.1

/-- The search goes over a byte that is not in the needle. -/
theorem strstr_cons_of_not_mem {c : UInt8} {more : List UInt8} (nonempty : needle ≠ [])
    (absent : c ∉ needle) (text : c ≠ 0) : strstr needle (c :: more) = strstr needle more := by
  apply strstr_skip
  · intro here
    cases needle with
    | nil => exact nonempty rfl
    | cons b bs =>
      obtain ⟨rfl, -⟩ := List.cons_prefix_cons.mp here
      exact absent List.mem_cons_self
  · exact text

/-- Bytes behind it that are in no occurrence, and end none, are searched in vain. -/
theorem strstr_append_none {s t : List UInt8} (found : strstr needle s = none) (nonempty : needle ≠ [])
    (apart : ∀ b ∈ t, b ∉ needle ∧ b ≠ 0) : strstr needle (s ++ t) = none := by
  -- an occurrence that starts in `s` and is not in `s` has a byte of `t`
  have outside : ∀ u : List UInt8, ¬ needle <+: u → ¬ needle <+: u ++ t := by
    intro u absent here
    rcases List.prefix_or_prefix_of_prefix here (List.prefix_append u t) with inside | ⟨v, rfl⟩
    · exact absent inside
    · cases v with
      | nil => exact absent (by rw [List.append_nil])
      | cons b v =>
        have first := (List.prefix_append_right_inj u).mp here
        exact (apart b (first.subset List.mem_cons_self)).1 (List.mem_append_right _ List.mem_cons_self)
  induction s with
  | nil =>
    rw [List.nil_append]
    clear found outside
    induction t with
    | nil => rfl
    | cons b t ih =>
      have other := apart b List.mem_cons_self
      rw [strstr_cons_of_not_mem nonempty other.1 other.2]
      exact ih fun c member => apart c (List.mem_cons_of_mem _ member)
  | cons b bs ih =>
    rw [strstr] at found
    split at found
    · cases found
    case isFalse absent =>
      split at found
      · cases found
      case isFalse other =>
        have longer := outside (b :: bs) (mt List.isPrefixOf_iff_prefix.mpr absent)
        rw [List.cons_append] at longer ⊢
        rw [strstr_skip longer other]
        exact ih found

/-- The search goes over a text without the needle up to a byte that is not in it. -/
theorem strstr_append_of_unmarked {c : UInt8} {text more : List UInt8}
    (unmarked : Unmarked needle text) (absent : c ∉ needle) (nul : (0 : UInt8) ∉ text) :
    strstr needle (text ++ c :: more) = strstr needle (c :: more) := by
  induction text with
  | nil => rfl
  | cons b bs ih =>
    simp only [List.mem_cons, not_or] at nul
    rw [List.cons_append, strstr_skip, ih (unmarked.of_infix (List.suffix_cons b bs).isInfix) nul.2]
    · intro here
      -- the needle ends in the text or takes in the byte behind it
      have whole : needle <+: (b :: bs) ++ c :: more := here
      rcases List.prefix_or_prefix_of_prefix whole (List.prefix_append _ _) with inside | ⟨t, rfl⟩
      · exact unmarked inside.isInfix
      · have past : t <+: c :: more := (List.prefix_append_right_inj (b :: bs)).mp whole
        cases t with
        | nil => exact unmarked (by rw [List.append_nil])
        | cons d t =>
          obtain ⟨rfl, -⟩ := List.cons_prefix_cons.mp past
          exact absent (List.mem_append_right _ List.mem_cons_self)
    · exact Ne.symm nul.1

/-- The search stops at the first mark of a text. -/
theorem strstr_of_firstMark {back text : List UInt8} (nonempty : needle ≠ [])
    (first : FirstMark needle back text) (nul : (0 : UInt8) ∉ text) (more : List UInt8) :
    strstr needle (text ++ more) = some (some (needle ++ (back ++ more))) := by
  obtain ⟨front, rfl, first⟩ := first
  induction front with
  | nil =>
    cases needle with
    | nil => exact absurd rfl nonempty
    | cons b bs =>
      simp only [List.nil_append, List.append_assoc, List.cons_append]
      exact strstr_of_prefix (List.prefix_append (b :: bs) (back ++ more))
  | cons b front ih =>
    have more' : front ++ needle ≠ [] := fun empty => nonempty (List.append_eq_nil_iff.mp empty).2
    rw [List.cons_append, List.dropLast_cons_of_ne_nil more'] at first
    rw [List.cons_append] at nul
    simp only [List.mem_cons, not_or] at nul
    rw [List.cons_append, List.cons_append, strstr_skip,
      ih (first.of_infix (List.suffix_cons b _).isInfix) nul.2]
    · intro here
      have short : needle <+: b :: (front ++ needle).dropLast := by
        apply List.prefix_of_prefix_length_le here
        · rw [List.cons_prefix_cons]
          refine ⟨rfl, (List.dropLast_prefix _).trans ?_⟩
          rw [← List.append_assoc, List.append_assoc (front ++ needle)]
          exact List.prefix_append _ _
        · rw [List.length_cons, List.length_dropLast, List.length_append]
          have := List.length_pos_iff.mpr nonempty
          omega
      exact first short.isInfix
    · exact Ne.symm nul.1

end

end Lib
