import GreatEvent.Net.NetProtocol
import Mathlib.Data.List.TakeWhile

/-!
# Looking an attribute up by its name

`PROTO_GetValueByName` knows nothing of tags, names and values: the first
place where the queried name stands in the text decides, wherever that is.
`Element` is a well-formed element, `Leads` says which answer the parts of
the element lead to, in the order of the text. The lookup answers what the
attribute list says just when the parts lead there (`lookup_answers_iff`); they do when
the name stands in no part in front of its attribute (`leads_of_unmarked`).
-/

namespace GreatEvent

open Lib

def isLetter (b : Byte) : Bool := (65 ≤ b && b ≤ 90) || (97 ≤ b && b ≤ 122)

/-- A tag, a name of an attribute or a queried name: letters. -/
def IsName (name : List Byte) : Prop := name ≠ [] ∧ name.all isLetter = true

/-- ` name="value"` -/
def attrText (a : List Byte × List Byte) : List Byte := 32 :: (a.1 ++ 61 :: 34 :: (a.2 ++ [34]))

/-- The text of an element from the end of its tag on. -/
def attrsText (attrs : List (List Byte × List Byte)) : List Byte :=
  attrs.flatMap attrText ++ [47, 62]  -- "/>"

/-- The size of the text in a receive buffer of 1500 bytes. -/
def textRoom : Nat := 1484

/-- An element `<tag a1="v1" ... an="vn"/>` as a peer sends it. -/
structure Element where
  tag : List Byte
  attrs : List (List Byte × List Byte)
  tag_word : IsName tag
  names : ∀ a ∈ attrs, IsName a.1
  distinct : (attrs.map Prod.fst).Nodup
  values : ∀ a ∈ attrs, (34 : Byte) ∉ a.2 ∧ (0 : Byte) ∉ a.2 ∧ a.2.length < acValueLen
  short : (60 :: (tag ++ attrsText attrs)).length < textRoom

namespace Element

def text (e : Element) : List Byte := 60 :: (e.tag ++ attrsText e.attrs)

/-- The receive buffer with the element behind a header. -/
def buffer (e : Element) (cmd : NetCmd) : List Byte :=
  cmd.bytes ++ (e.text ++ List.replicate (textRoom - e.text.length) 0)

end Element

/-- What the lookup makes of what `strstr` has found. -/
def lookupAt (pName : List Byte) : Option (Option (List Byte)) → Option Lookup
  | none => none
  | some none => some ⟨0, [], 0⟩
  | some (some p) =>
    match p[pName.length]? with
    | none => none
    | some c =>
      if c = 61 then
        let q := p.drop (pName.length + 2)
        let value := q.takeWhile (· ≠ 34)
        if value.length < q.length ∧ value.length ≤ acValueLen then
          some ⟨1, value, (value.length : Int) - 1⟩
        else none
      else some ⟨0, [], 0⟩

/-- The lookup's result for a value, and for none. -/
def resultOf : Option (List Byte) → Lookup
  | some v => ⟨1, v, (v.length : Int) - 1⟩
  | none => ⟨0, [], 0⟩

/-- What a lookup copies from the next attribute when it has skipped the closing quote of a value. -/
def nextName (a : List Byte × List Byte) : List Byte := 32 :: (a.1 ++ [61])

/-- **Where the attributes lead** a search for `q`: the first name or value that holds it decides. -/
inductive Leads (q : List Byte) : List (List Byte × List Byte) → Option (List Byte) → Prop where
  | ended : Leads q [] none
  | atName {a w : List Byte} {rest : List (List Byte × List Byte)} :
      FirstMark q [] a → Leads q ((a, w) :: rest) (some w)
  | inName {a w back : List Byte} {rest : List (List Byte × List Byte)} :
      FirstMark q back a → back ≠ [] → Leads q ((a, w) :: rest) none
  | inValue {a w v : List Byte} {c : Byte} {rest : List (List Byte × List Byte)} :
      Unmarked q a → FirstMark q (61 :: c :: v) w → Leads q ((a, w) :: rest) (some v)
  | atQuote {a w : List Byte} {next : List Byte × List Byte} {rest : List (List Byte × List Byte)} :
      Unmarked q a → FirstMark q [61] w → Leads q ((a, w) :: next :: rest) (some (nextName next))
  | besides {a w back : List Byte} {rest : List (List Byte × List Byte)} :
      Unmarked q a → FirstMark q back w → back.head? ≠ some 61 → Leads q ((a, w) :: rest) none
  | later {a w : List Byte} {rest : List (List Byte × List Byte)} {out : Option (List Byte)} :
      Unmarked q a → Unmarked q w → Leads q rest out → Leads q ((a, w) :: rest) out

section
variable {q : List Byte}

theorem protoGetValueByName_eq (pData pName : List Byte) :
    protoGetValueByName pData pName = lookupAt pName (strstr pName (pData.drop packHeadLen)) := by
  unfold protoGetValueByName lookupAt
  cases strstr pName (pData.drop packHeadLen) with
  | none => rfl
  | some found => cases found <;> rfl

theorem lookupAt_equals (q rest : List Byte) (skipped : Byte) :
    lookupAt q (some (some (q ++ 61 :: skipped :: rest))) =
      if (rest.takeWhile (· ≠ 34)).length < rest.length ∧
          (rest.takeWhile (· ≠ 34)).length ≤ acValueLen then
        some (resultOf (some (rest.takeWhile (· ≠ 34)))) else none := by
  have next : (q ++ 61 :: skipped :: rest)[q.length]? = some 61 := by simp
  have body : (q ++ 61 :: skipped :: rest).drop (q.length + 2) = rest := by
    simp [← List.drop_drop]
  simp only [lookupAt, next, body, if_true, resultOf]

theorem lookupAt_closed {v more : List Byte} {skipped : Byte} (closed : (34 : Byte) ∉ v)
    (fits : v.length ≤ acValueLen) :
    lookupAt q (some (some (q ++ 61 :: skipped :: (v ++ 34 :: more)))) = some (resultOf (some v)) := by
  rw [lookupAt_equals, takeWhile_closed closed, if_pos ⟨by simp, fits⟩]

theorem lookupAt_other {c : Byte} {more : List Byte} (other : c ≠ 61) :
    lookupAt q (some (some (q ++ c :: more))) = some (resultOf none) := by
  have next : (q ++ c :: more)[q.length]? = some c := by simp
  simp only [lookupAt, next, if_neg other, resultOf]

theorem resultOf_inj {out out' : Option (List Byte)} (same : resultOf out = resultOf out') :
    out = out' := by
  cases out <;> cases out' <;> cases same <;> rfl

/-! ## The separators -/

theorem IsName.not_mem {b : Byte} (word : IsName q) (other : isLetter b = false) : b ∉ q := by
  intro member
  rw [List.all_eq_true.mp word.2 b member] at other
  cases other

theorem attrsText_cons (a : List Byte × List Byte) (rest : List (List Byte × List Byte))
    (more : List Byte) : attrsText (a :: rest) ++ more =
      32 :: (a.1 ++ 61 :: 34 :: (a.2 ++ 34 :: (attrsText rest ++ more))) := by
  simp [attrsText, attrText]

/-- A text that holds no quote is read past its end. -/
theorem lookupAt_unclosed {rest : List Byte} {skipped : Byte} (endless : (34 : Byte) ∉ rest) :
    lookupAt q (some (some (q ++ 61 :: skipped :: rest))) = none := by
  have all : rest.takeWhile (· ≠ 34) = rest := by
    rw [List.takeWhile_eq_self_iff]
    intro b member
    have other : b ≠ 34 := fun same => endless (same ▸ member)
    simpa using other
  rw [lookupAt_equals, all, if_neg fun both => Nat.lt_irrefl _ both.1]

/-- A value longer than `acValue` is written past its end. -/
theorem lookupAt_long {v more : List Byte} {skipped : Byte} (closed : (34 : Byte) ∉ v)
    (long : ¬ v.length ≤ acValueLen) :
    lookupAt q (some (some (q ++ 61 :: skipped :: (v ++ 34 :: more)))) = none := by
  rw [lookupAt_equals, takeWhile_closed closed, if_neg fun both => long both.2]

/-! ## One attribute -/

section
variable {a w more : List Byte}

theorem strstr_name {back : List Byte} (word : IsName q) (name : IsName a)
    (first : FirstMark q back a) :
    strstr q (32 :: (a ++ 61 :: 34 :: (w ++ 34 :: more))) =
      some (some (q ++ (back ++ 61 :: 34 :: (w ++ 34 :: more)))) := by
  rw [strstr_cons_of_not_mem word.1 (word.not_mem (by decide)) (by decide),
    strstr_of_firstMark word.1 first (name.not_mem (by decide))]

theorem strstr_past_name (word : IsName q) (name : IsName a) (unmarked : Unmarked q a) :
    strstr q (32 :: (a ++ 61 :: 34 :: (w ++ 34 :: more))) = strstr q (w ++ 34 :: more) := by
  rw [strstr_cons_of_not_mem word.1 (word.not_mem (by decide)) (by decide),
    strstr_append_of_unmarked unmarked (word.not_mem (by decide)) (name.not_mem (by decide)),
    strstr_cons_of_not_mem word.1 (word.not_mem (by decide)) (by decide),
    strstr_cons_of_not_mem word.1 (word.not_mem (by decide)) (by decide)]

theorem strstr_value {back : List Byte} (word : IsName q) (name : IsName a)
    (unmarked : Unmarked q a) (text : (0 : Byte) ∉ w) (first : FirstMark q back w) :
    strstr q (32 :: (a ++ 61 :: 34 :: (w ++ 34 :: more))) =
      some (some (q ++ (back ++ 34 :: more))) := by
  rw [strstr_past_name word name unmarked, strstr_of_firstMark word.1 first text]

theorem strstr_past_value (word : IsName q) (name : IsName a) (unmarked : Unmarked q a)
    (text : (0 : Byte) ∉ w) (unmarked' : Unmarked q w) :
    strstr q (32 :: (a ++ 61 :: 34 :: (w ++ 34 :: more))) = strstr q more := by
  rw [strstr_past_name word name unmarked,
    strstr_append_of_unmarked unmarked' (word.not_mem (by decide)) text,
    strstr_cons_of_not_mem word.1 (word.not_mem (by decide)) (by decide)]

theorem strstr_end (word : IsName q) : strstr q (attrsText [] ++ 0 :: more) = some none := by
  have text : attrsText [] ++ 0 :: more = 47 :: 62 :: 0 :: more := rfl
  rw [text, strstr_cons_of_not_mem word.1 (word.not_mem (by decide)) (by decide),
    strstr_cons_of_not_mem word.1 (word.not_mem (by decide)) (by decide)]
  apply strstr_nul
  intro here
  obtain ⟨b, bs, rfl⟩ := List.exists_cons_of_ne_nil word.1
  obtain ⟨rfl, -⟩ := List.cons_prefix_cons.mp here
  exact word.not_mem (b := 0) (by decide) List.mem_cons_self

end

/-! ## The attributes -/

theorem attrsText_next (a : List Byte × List Byte) (rest : List (List Byte × List Byte))
    (more : List Byte) : attrsText (a :: rest) ++ more =
      nextName a ++ 34 :: (a.2 ++ 34 :: (attrsText rest ++ more)) := by
  simp [attrsText_cons, nextName]

theorem not_mem_nextName {a : List Byte × List Byte} (name : IsName a.1) :
    (34 : Byte) ∉ nextName a := by
  have none' := name.not_mem (b := 34) (by decide)
  simp [nextName, none']

section
variable {attrs : List (List Byte × List Byte)} {out : Option (List Byte)}

/-- What is asked of the attributes of an element. -/
def Proper (attrs : List (List Byte × List Byte)) : Prop :=
  ∀ a ∈ attrs, IsName a.1 ∧ (34 : Byte) ∉ a.2 ∧ (0 : Byte) ∉ a.2 ∧ a.2.length < acValueLen

/-- The lookup answers what the attributes lead to. -/
theorem lookup_of_leads (word : IsName q) (proper : Proper attrs) (more : List Byte)
    (leads : Leads q attrs out) (fits : ∀ v, out = some v → v.length ≤ acValueLen) :
    lookupAt q (strstr q (attrsText attrs ++ 0 :: more)) = some (resultOf out) := by
  induction leads with
  | ended =>
    rw [strstr_end word]
    rfl
  | atName first =>
    obtain ⟨name, closed, -, short⟩ := proper _ List.mem_cons_self
    rw [attrsText_cons, strstr_name word name first]
    exact lookupAt_closed closed (Nat.le_of_lt short)
  | @inName a w back rest first behind =>
    obtain ⟨name, -, -, -⟩ := proper _ List.mem_cons_self
    rw [attrsText_cons, strstr_name word name first]
    obtain ⟨b, back, rfl⟩ := List.exists_cons_of_ne_nil behind
    refine lookupAt_other fun equals => ?_
    obtain ⟨front, split, -⟩ := first
    refine name.not_mem (b := 61) (by decide) ?_
    rw [split, equals]
    simp
  | @inValue a w v c rest unmarked first =>
    obtain ⟨name, closed, text, short⟩ := proper _ List.mem_cons_self
    rw [attrsText_cons, strstr_value word name unmarked text first]
    refine lookupAt_closed (fun quote => closed ?_) (fits v rfl)
    obtain ⟨front, split, -⟩ := first
    rw [split]
    simp [quote]
  | @atQuote a w next rest unmarked first =>
    obtain ⟨name, -, text, -⟩ := proper _ List.mem_cons_self
    obtain ⟨name', -⟩ := proper next (List.mem_cons_of_mem _ List.mem_cons_self)
    rw [attrsText_cons, strstr_value word name unmarked text first, attrsText_next]
    exact lookupAt_closed (not_mem_nextName name') (fits _ rfl)
  | @besides a w back rest unmarked first other =>
    obtain ⟨name, -, text, -⟩ := proper _ List.mem_cons_self
    rw [attrsText_cons, strstr_value word name unmarked text first]
    cases back with
    | nil => exact lookupAt_other (by decide)
    | cons b back => exact lookupAt_other fun equals => other (by rw [equals]; rfl)
  | later unmarked unmarked' _ ih =>
    obtain ⟨name, -, text, -⟩ := proper _ List.mem_cons_self
    rw [attrsText_cons, strstr_past_value word name unmarked text unmarked']
    exact ih (fun a member => proper a (List.mem_cons_of_mem _ member)) fits

/-- It answers nothing else. -/
theorem exists_leads (word : IsName q) (proper : Proper attrs) (n : Nat) :
    lookupAt q (strstr q (attrsText attrs ++ List.replicate (n + 1) 0)) = none ∨
      ∃ out, Leads q attrs out ∧ ∀ v, out = some v → v.length ≤ acValueLen := by
  have nothing (v : List Byte) (same : none = some v) : v.length ≤ acValueLen := by cases same
  induction attrs with
  | nil => exact .inr ⟨none, .ended, nothing⟩
  | cons a rest ih =>
    obtain ⟨a, w⟩ := a
    obtain ⟨name, closed, text, short⟩ := proper _ List.mem_cons_self
    rcases firstMark_or_unmarked word.1 a with unmarked | ⟨back, first⟩
    · rcases firstMark_or_unmarked word.1 w with unmarked' | ⟨back, first⟩
      · rw [attrsText_cons, strstr_past_value word name unmarked text unmarked']
        rcases ih fun a member => proper a (List.mem_cons_of_mem _ member) with fails | ⟨out, leads, fits⟩
        · exact .inl fails
        · exact .inr ⟨out, .later unmarked unmarked' leads, fits⟩
      · rw [attrsText_cons, strstr_value word name unmarked text first]
        cases back with
        | nil => exact .inr ⟨none, .besides unmarked first (by decide), nothing⟩
        | cons b back =>
          by_cases equals : b = 61
          case neg =>
            refine .inr ⟨none, .besides unmarked first fun same => equals ?_, nothing⟩
            exact Option.some.inj same
          subst equals
          cases back with
          | cons c v =>
            refine .inr ⟨some v, .inValue unmarked first, fun v' same => ?_⟩
            cases same
            obtain ⟨front, rfl, -⟩ := first
            simp only [List.length_append, List.length_cons] at short
            omega
          | nil =>
            cases rest with
            | nil =>
              left
              apply lookupAt_unclosed
              simp [attrsText, List.mem_replicate]
            | cons next rest =>
              obtain ⟨name', -⟩ := proper next (List.mem_cons_of_mem _ List.mem_cons_self)
              by_cases fits : (nextName next).length ≤ acValueLen
              · refine .inr ⟨some (nextName next), .atQuote unmarked first, fun v' same => ?_⟩
                cases same
                exact fits
              · left
                rw [attrsText_next]
                exact lookupAt_long (not_mem_nextName name') fits
    · right
      cases back with
      | nil => exact ⟨some w, .atName first, fun v same => by cases same; exact Nat.le_of_lt short⟩
      | cons b back => exact ⟨none, .inName first (List.cons_ne_nil b back), nothing⟩

/-- **What the attributes lead to is the answer.** -/
theorem lookup_iff_leads (word : IsName q) (proper : Proper attrs) (n : Nat)
    (fits : ∀ v, out = some v → v.length ≤ acValueLen) :
    lookupAt q (strstr q (attrsText attrs ++ List.replicate (n + 1) 0)) = some (resultOf out) ↔
      Leads q attrs out := by
  constructor
  · intro answer
    rcases exists_leads word proper n with fails | ⟨out', leads, fits'⟩
    · rw [fails] at answer
      cases answer
    · have other := lookup_of_leads word proper (List.replicate n 0) leads fits'
      have same := Option.some.inj (answer.symm.trans other)
      rwa [resultOf_inj same]
  · exact fun leads => lookup_of_leads word proper (List.replicate n 0) leads fits

end

end

/-! ## The element -/

namespace Element

/-- Where the element leads a search: nowhere, if the name stands in the tag. -/
def Leads (e : Element) (q : List Byte) (out : Option (List Byte)) : Prop :=
  (∃ back, FirstMark q back e.tag) ∧ out = none ∨ Unmarked q e.tag ∧ GreatEvent.Leads q e.attrs out

theorem proper (e : Element) : Proper e.attrs := fun a member =>
  ⟨e.names a member, e.values a member⟩

section
variable {e : Element} {q : List Byte} {out : Option (List Byte)}

theorem buffer_text (e : Element) (cmd : NetCmd) : ∃ n, (e.buffer cmd).drop packHeadLen =
    60 :: (e.tag ++ (attrsText e.attrs ++ List.replicate (n + 1) 0)) := by
  have room : textRoom - e.text.length = textRoom - e.text.length - 1 + 1 := by
    have short : e.text.length < textRoom := e.short
    omega
  refine ⟨textRoom - e.text.length - 1, ?_⟩
  rw [buffer, List.drop_left' (NetCmd.length_bytes cmd), ← room, text, List.cons_append,
    List.append_assoc]

/-- Behind the tag stands a blank or the end of the element. -/
theorem attrsText_head (attrs : List (List Byte × List Byte)) (more : List Byte) :
    ∃ c rest, attrsText attrs ++ more = c :: rest ∧ isLetter c = false ∧ c ≠ 61 := by
  cases attrs with
  | nil => exact ⟨47, 62 :: more, rfl, by decide, by decide⟩
  | cons a attrs => exact ⟨32, _, attrsText_cons a attrs more, by decide, by decide⟩

/-- **What the element leads to is the answer.** -/
theorem lookup_iff_leads (word : IsName q) (cmd : NetCmd)
    (fits : ∀ v, out = some v → v.length ≤ acValueLen) :
    protoGetValueByName (e.buffer cmd) q = some (resultOf out) ↔ e.Leads q out := by
  obtain ⟨n, text⟩ := e.buffer_text cmd
  rw [protoGetValueByName_eq, text,
    strstr_cons_of_not_mem word.1 (word.not_mem (by decide)) (by decide)]
  obtain ⟨c, rest, split, separator, other⟩ := attrsText_head e.attrs (List.replicate (n + 1) 0)
  rcases firstMark_or_unmarked word.1 e.tag with unmarked | ⟨back, first⟩
  · rw [split, strstr_append_of_unmarked unmarked (word.not_mem separator)
      (e.tag_word.not_mem (by decide)), ← split, GreatEvent.lookup_iff_leads word e.proper n fits]
    constructor
    · exact fun leads => .inr ⟨unmarked, leads⟩
    · rintro (⟨⟨back, front, tag, -⟩, -⟩ | ⟨-, leads⟩)
      · exact absurd ⟨front, back, by rw [tag, List.append_assoc]⟩ unmarked
      · exact leads
  · have nothing : lookupAt q (strstr q (e.tag ++ (attrsText e.attrs ++ List.replicate (n + 1) 0))) =
        some (resultOf none) := by
      rw [strstr_of_firstMark word.1 first (e.tag_word.not_mem (by decide)), split]
      cases back with
      | nil => exact lookupAt_other other
      | cons b back =>
        refine lookupAt_other fun equals => ?_
        obtain ⟨front, tag, -⟩ := first
        refine e.tag_word.not_mem (b := 61) (by decide) ?_
        rw [tag, equals]
        simp
    rw [nothing]
    constructor
    · exact fun same => .inl ⟨⟨back, first⟩, (resultOf_inj (Option.some.inj same)).symm⟩
    · rintro (⟨-, rfl⟩ | ⟨unmarked, -⟩)
      · rfl
      · obtain ⟨front, tag, -⟩ := first
        exact absurd ⟨front, back, by rw [tag, List.append_assoc]⟩ unmarked

end

end Element

/-- The lookup answers `want`: 1 and the value's bytes, or 0. -/
def Answers (result : Option Lookup) : Option (List Byte) → Prop
  | some v => ∃ n, result = some ⟨1, v, n⟩
  | none => ∃ value n, result = some ⟨0, value, n⟩

/-- Every result is that for a value or for none. -/
theorem lookupAt_result {q : List Byte} {found : Option (Option (List Byte))} {l : Lookup}
    (result : lookupAt q found = some l) : ∃ out, l = resultOf out := by
  unfold lookupAt at result
  split at result
  · cases result
  · cases result
    exact ⟨none, rfl⟩
  · split at result
    · cases result
    · split at result
      · dsimp only at result
        split at result
        · cases result
          exact ⟨some _, rfl⟩
        · cases result
      · cases result
        exact ⟨none, rfl⟩

theorem answers_iff (pData pName : List Byte) (want : Option (List Byte)) :
    Answers (protoGetValueByName pData pName) want ↔
      protoGetValueByName pData pName = some (resultOf want) := by
  rw [protoGetValueByName_eq]
  constructor
  · intro answers
    cases want with
    | some v =>
      obtain ⟨n, result⟩ := answers
      obtain ⟨out, same⟩ := lookupAt_result result
      rw [result, same]
      cases out with
      | none => cases same
      | some v' =>
        cases same
        rfl
    | none =>
      obtain ⟨value, n, result⟩ := answers
      obtain ⟨out, same⟩ := lookupAt_result result
      rw [result, same]
      cases out with
      | none => rfl
      | some v => cases same
  · intro result
    cases want with
    | some v => exact ⟨_, result⟩
    | none => exact ⟨_, _, result⟩

/-- An attribute is led to when its name stands nowhere in front of it. -/
theorem Element.leads_of_unmarked {e : Element} {q v : List Byte}
    {before after : List (List Byte × List Byte)} (split : e.attrs = before ++ (q, v) :: after)
    (tag : Unmarked q e.tag) (earlier : ∀ a ∈ before, Unmarked q a.1 ∧ Unmarked q a.2) :
    e.Leads q (some v) := by
  have word : q ≠ [] := (e.names (q, v) (by rw [split]; simp)).1
  refine .inr ⟨tag, ?_⟩
  rw [split]
  clear split
  induction before with
  | nil => exact .atName (firstMark_self word)
  | cons a before ih =>
    obtain ⟨name, value⟩ := earlier a List.mem_cons_self
    exact .later name value (ih fun b member => earlier b (List.mem_cons_of_mem _ member))

/-- **When the lookup finds an attribute by its name**: its answer is the value of the attribute
with this name, or that there is none, just when the parts of the element lead there. -/
theorem lookup_answers_iff (e : Element) (cmd : NetCmd) {q : List Byte} (word : IsName q) :
    Answers (protoGetValueByName (e.buffer cmd) q) (e.attrs.lookup q) ↔
      e.Leads q (e.attrs.lookup q) := by
  rw [answers_iff]
  apply e.lookup_iff_leads word cmd
  intro v found
  obtain ⟨front, back, split, -⟩ := List.lookup_eq_some_iff.mp found
  have member : (q, v) ∈ e.attrs := by
    rw [split]
    simp
  exact Nat.le_of_lt (e.values _ member).2.2

instance (name : List Byte) : Decidable (IsName name) := inferInstanceAs (Decidable (_ ∧ _))

/-- `<control name="seek" value="60"/>` -/
def seekElement : Element where
  tag := ascii "control"
  attrs := [(ascii "name", ascii "seek"), (ascii "value", ascii "60")]
  tag_word := by decide
  names := by decide
  distinct := by decide
  values := by decide
  short := by decide

/-- The position of a seek is found. -/
theorem lookup_answers_sample : Answers
    (protoGetValueByName (seekElement.buffer ⟨netFlag, ModuleMsg.controlPlay.code, 0, 34⟩)
      (ascii "value")) (some (ascii "60")) := by
  refine (lookup_answers_iff seekElement _ (by decide)).mpr ?_
  have split : seekElement.attrs =
      [(ascii "name", ascii "seek")] ++ [(ascii "value", ascii "60")] := rfl
  apply Element.leads_of_unmarked split
  · show ¬ ascii "value" <:+: ascii "control"
    decide
  · intro a member
    rw [List.mem_singleton.mp member]
    constructor
    · show ¬ ascii "value" <:+: ascii "name"
      decide
    · show ¬ ascii "value" <:+: ascii "seek"
      decide

/-- `<control filename="a.h264" name="start"/>` -/
def namedElement : Element where
  tag := ascii "control"
  attrs := [(ascii "filename", ascii "a.h264"), (ascii "name", ascii "start")]
  tag_word := by decide
  names := by decide
  distinct := by decide
  values := by decide
  short := by decide

/-- **The wrong attribute is found** where an earlier name ends in the queried one. -/
theorem lookup_finds_other : ¬ Answers
    (protoGetValueByName (namedElement.buffer ⟨netFlag, ModuleMsg.controlPlay.code, 0, 42⟩)
      (ascii "name")) (namedElement.attrs.lookup (ascii "name")) := by
  rw [answers_iff]
  decide +kernel

end GreatEvent
