import GreatEvent.Lib.CString
import GreatEvent.Net.Protocol

/-!
# `PROTO_GetValueByName` of `EventServer/net/net_protocol.c`

The server reads the XML-like text of a request with this one function: the
first occurrence of the attribute name anywhere in the text, an `=` right
behind it, one byte skipped, then everything up to the next `"`. It copies
the value into the caller's 256-byte `acValue` without a length check and
reports its length minus one.
-/

namespace GreatEvent

open Lib

/-- The size of the `acValue` array every caller passes. -/
def acValueLen : Nat := 256

/-- `char acValue[256] = {0}` -/
def acValueZero : List Byte := List.replicate acValueLen 0

/-- What one call leaves: its result, the bytes copied to `pValueOut` and `*pValueLen`. -/
structure Lookup where
  ret : Int
  value : List Byte
  pValueLen : Int
  deriving DecidableEq, Repr

/-- The caller's `acValue` after the call. -/
def Lookup.store (l : Lookup) (acValue : List Byte) : List Byte := poke acValue 0 l.value

/-- `PROTO_GetValueByName(pData, pName, ...)` on a buffer of which `pData` is all that may be read.
`none`: the search or the scan for the closing quote runs past the buffer, or the value does not
fit `acValue`. -/
def protoGetValueByName (pData pName : List Byte) : Option Lookup :=
  match strstr pName (pData.drop packHeadLen) with
  | none => none
  | some none => some ⟨0, [], 0⟩
  | some (some p) =>
    match p[pName.length]? with
    | none => none
    | some c =>
      if c = 61 then  -- '='
        let q := p.drop (pName.length + 2)
        let value := q.takeWhile (· ≠ 34)  -- '\"'
        if value.length < q.length ∧ value.length ≤ acValueLen then
          some ⟨1, value, (value.length : Int) - 1⟩
        else none
      else some ⟨0, [], 0⟩

section
variable {pData pName p : List Byte}

/-- The scan for the closing quote stops at the first one. -/
theorem takeWhile_closed {value more : List Byte} (closed : (34 : Byte) ∉ value) :
    (value ++ 34 :: more).takeWhile (· ≠ 34) = value := by
  rw [List.takeWhile_append_of_pos]
  · simp
  · intro b member
    have other : b ≠ 34 := fun same => closed (same ▸ member)
    simpa using other

/-- The scan stops inside the buffer when there is a closing quote. -/
theorem takeWhile_stops (q : List Byte) : (q.takeWhile (· ≠ 34)).length < q.length ↔
    ∃ value more, q = value ++ 34 :: more ∧ (34 : Byte) ∉ value := by
  constructor
  · intro stops
    induction q with
    | nil => cases stops
    | cons b bs ih =>
      by_cases quote : b = 34
      · exact ⟨[], bs, by rw [quote]; rfl, by simp⟩
      · rw [List.takeWhile_cons_of_pos (by simpa using quote)] at stops
        obtain ⟨value, more, rfl, closed⟩ := ih (by simpa using stops)
        exact ⟨b :: value, more, rfl, by simp [closed, Ne.symm quote]⟩
  · rintro ⟨value, more, rfl, closed⟩
    rw [takeWhile_closed closed]
    simp

/-- The name occurs nowhere before the first NUL. -/
theorem getValue_absent (search : strstr pName (pData.drop packHeadLen) = some none) :
    protoGetValueByName pData pName = some ⟨0, [], 0⟩ := by
  rw [protoGetValueByName, search]

/-- What the lookup makes of the first occurrence. -/
theorem getValue_at {c : Byte} {rest : List Byte}
    (search : strstr pName (pData.drop packHeadLen) = some (some (pName ++ c :: rest))) :
    protoGetValueByName pData pName =
      if c = 61 then
        let q := rest.drop 1
        let value := q.takeWhile (· ≠ 34)
        if value.length < q.length ∧ value.length ≤ acValueLen then
          some ⟨1, value, (value.length : Int) - 1⟩
        else none
      else some ⟨0, [], 0⟩ := by
  have next : (pName ++ c :: rest)[pName.length]? = some c := by simp
  have body : (pName ++ c :: rest).drop (pName.length + 2) = rest.drop 1 := by
    simp [← List.drop_drop]
  rw [protoGetValueByName, search]
  simp only [next, body]

/-- The first occurrence carries a closed value that fits. -/
theorem getValue_found {skipped : Byte} {value more : List Byte}
    (search : strstr pName (pData.drop packHeadLen) =
      some (some (pName ++ 61 :: skipped :: (value ++ 34 :: more))))
    (closed : (34 : Byte) ∉ value) (fits : value.length ≤ acValueLen) :
    protoGetValueByName pData pName = some ⟨1, value, (value.length : Int) - 1⟩ := by
  rw [getValue_at search, if_pos rfl]
  simp only [List.drop_succ_cons, List.drop_zero, takeWhile_closed closed]
  rw [if_pos ⟨by simp, fits⟩]

/-- The string that a lookup into a zeroed `acValue` leaves there. -/
def attrValue (pData pName : List Byte) : Option (List Byte) :=
  (protoGetValueByName pData pName).map fun l => cstr (l.store acValueZero)

/-- A closed value that leaves room for a terminator is the attribute. -/
theorem attrValue_found {skipped : Byte} {value more : List Byte}
    (search : strstr pName (pData.drop packHeadLen) =
      some (some (pName ++ 61 :: skipped :: (value ++ 34 :: more))))
    (closed : (34 : Byte) ∉ value) (text : (0 : Byte) ∉ value) (short : value.length < acValueLen) :
    attrValue pData pName = some value := by
  obtain ⟨n, room⟩ : ∃ n, acValueLen - value.length = n + 1 := ⟨acValueLen - value.length - 1, by omega⟩
  rw [attrValue, getValue_found search closed (Nat.le_of_lt short), Option.map_some, Lookup.store,
    poke_zero, acValueZero, List.drop_replicate, room, List.replicate_succ, cstr_append_nul text]

/-- The first occurrence of the name before the NUL, if there is one, has no value of two bytes or
more: no `=` follows it, or its value is closed within one byte. -/
def NamesNothing (pName text : List Byte) : Prop :=
  strstr pName text = some none ∨
  ∃ c rest, strstr pName text = some (some (pName ++ c :: rest)) ∧
    (c ≠ 61 ∨ ∃ skipped value more, rest = skipped :: (value ++ 34 :: more) ∧ (34 : Byte) ∉ value ∧
      value.length ≤ 1)

/-- The lookup of a name ends in the text: the name does not occur before the NUL, no `=` follows its first
occurrence, or the value that does is closed and is as `P` says. -/
def Closes (P : List Byte → Prop) (pName text : List Byte) : Prop :=
  strstr pName text = some none ∨
  ∃ c rest, strstr pName text = some (some (pName ++ c :: rest)) ∧
    (c ≠ 61 ∨ ∃ skipped value more, rest = skipped :: (value ++ 34 :: more) ∧ (34 : Byte) ∉ value ∧ P value)

theorem Closes.imp {P P' : List Byte → Prop} {text : List Byte} (closes : Closes P pName text)
    (weaker : ∀ value, P value → P' value) : Closes P' pName text := by
  rcases closes with absent | ⟨c, rest, search, other | ⟨skipped, value, more, split, closed, holds⟩⟩
  · exact .inl absent
  · exact .inr ⟨c, rest, search, .inl other⟩
  · exact .inr ⟨c, rest, search, .inr ⟨skipped, value, more, split, closed, weaker value holds⟩⟩

/-- The ways in which a lookup comes back. -/
inductive Comes (pData pName : List Byte) : Lookup → Prop where
  | absent : strstr pName (pData.drop packHeadLen) = some none → Comes pData pName ⟨0, [], 0⟩
  | other {c : Byte} {rest : List Byte} :
      strstr pName (pData.drop packHeadLen) = some (some (pName ++ c :: rest)) → c ≠ 61 →
      Comes pData pName ⟨0, [], 0⟩
  | found {skipped : Byte} {value more : List Byte} :
      strstr pName (pData.drop packHeadLen) = some (some (pName ++ 61 :: skipped :: (value ++ 34 :: more))) →
      (34 : Byte) ∉ value → value.length ≤ acValueLen →
      Comes pData pName ⟨1, value, (value.length : Int) - 1⟩

/-- **A lookup comes back** in one of these ways. -/
theorem getValue_iff {l : Lookup} :
    protoGetValueByName pData pName = some l ↔ Comes pData pName l := by
  constructor
  · intro result
    cases search : strstr pName (pData.drop packHeadLen) with
    | none =>
      rw [protoGetValueByName, search] at result
      cases result
    | some found =>
      cases found with
      | none =>
        rw [getValue_absent search] at result
        cases result
        exact .absent search
      | some p =>
        obtain ⟨tail, rfl⟩ := prefix_of_strstr search
        cases tail with
        | nil =>
          rw [protoGetValueByName, search] at result
          simp only [List.append_nil, List.getElem?_eq_none (Nat.le_refl _)] at result
          cases result
        | cons c rest =>
          rw [getValue_at search] at result
          split at result
          case isFalse differs =>
            cases result
            exact .other search differs
          case isTrue equals =>
            subst equals
            dsimp only at result
            split at result
            case isFalse => cases result
            case isTrue stops =>
              obtain ⟨value, more, split, closed⟩ := (takeWhile_stops _).mp stops.1
              cases rest with
              | nil =>
                simp only [List.drop_nil] at stops
                exact absurd stops.1 (Nat.not_lt_zero _)
              | cons skipped q =>
                simp only [List.drop_succ_cons, List.drop_zero] at split result stops
                subst split
                rw [takeWhile_closed closed] at result stops
                cases result
                exact .found search closed stops.2
  · rintro (search | ⟨search, differs⟩ | ⟨search, closed, fits⟩)
    · exact getValue_absent search
    · rw [getValue_at search, if_neg differs]
    · exact getValue_found search closed fits

/-- **A lookup answers** just when it ends in the text, with a value that fits. -/
theorem closes_iff {P : List Byte → Prop} (empty : P []) :
    Closes (fun value => value.length ≤ acValueLen ∧ P value) pName (pData.drop packHeadLen) ↔
      ∃ l, protoGetValueByName pData pName = some l ∧ P l.value := by
  constructor
  · rintro (search | ⟨c, rest, search, ends⟩)
    · exact ⟨_, getValue_absent search, empty⟩
    · by_cases equals : c = 61
      · subst equals
        obtain ⟨skipped, value, more, rfl, closed, fits, holds⟩ := ends.resolve_left (not_not_intro rfl)
        exact ⟨_, getValue_found search closed fits, holds⟩
      · exact ⟨_, getValue_iff.mpr (.other search equals), empty⟩
  · rintro ⟨l, result, holds⟩
    rcases getValue_iff.mp result with search | ⟨search, differs⟩ | ⟨search, closed, fits⟩
    · exact .inl search
    · exact .inr ⟨_, _, search, .inl differs⟩
    · exact .inr ⟨_, _, search, .inr ⟨_, _, _, rfl, closed, fits, holds⟩⟩

/-- More memory behind the text changes no answer. -/
theorem getValue_append {l : Lookup} (result : protoGetValueByName pData pName = some l)
    (long : packHeadLen ≤ pData.length) (text : (0 : Byte) ∉ pName) (t : List Byte) :
    protoGetValueByName (pData ++ t) pName = some l := by
  have behind : (pData ++ t).drop packHeadLen = pData.drop packHeadLen ++ t :=
    List.drop_append_of_le_length long
  rw [getValue_iff]
  rcases getValue_iff.mp result with search | ⟨search, differs⟩ | ⟨search, closed, fits⟩
  all_goals
    have same := strstr_append search text t
    rw [← behind] at same
  · exact .absent same
  · rw [Option.map_some, List.append_assoc, List.cons_append] at same
    exact .other same differs
  · simp only [Option.map_some, List.append_assoc, List.cons_append] at same
    exact .found same closed fits

/-- A value is at most a byte just when no length is reported. -/
theorem pValueLen_le_iff {l : Lookup} (result : protoGetValueByName pData pName = some l) :
    l.pValueLen ≤ 0 ↔ l.value.length ≤ 1 := by
  rcases getValue_iff.mp result with search | ⟨search, differs⟩ | ⟨search, closed, fits⟩
  · decide
  · decide
  · dsimp only
    omega

/-- **A lookup reports no length** just when the text names nothing. -/
theorem namesNothing_iff : NamesNothing pName (pData.drop packHeadLen) ↔
    ∃ l, protoGetValueByName pData pName = some l ∧ l.pValueLen ≤ 0 := by
  have short : NamesNothing pName (pData.drop packHeadLen) ↔
      Closes (fun value => value.length ≤ acValueLen ∧ value.length ≤ 1) pName (pData.drop packHeadLen) := by
    refine ⟨fun none' => Closes.imp none' fun value one => ⟨Nat.le_trans one (by decide), one⟩,
      fun closes => closes.imp fun _ => And.right⟩
  rw [short, closes_iff (Nat.zero_le _)]
  refine exists_congr fun l => and_congr_right fun result => ?_
  exact (pValueLen_le_iff result).symm

end

end GreatEvent
