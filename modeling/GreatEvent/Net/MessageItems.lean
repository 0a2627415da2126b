import GreatEvent.Net.MessageBuilder

/-!
# What a built message says

The body of a message is a list of items (`Lists`): two hexadecimal digits of
name length, six of value length, the name, the value. Adding an item keeps
the layout `Laid`: a head whose last four bytes `PROTO_SetDataPackLen` has
written, the items so far, zeros. The load length has four digits however
long the body is, and before the first item nothing has written it. With the
`acLen` of five bytes that the source declares no item comes that far: the six
digits of its value length overrun it.
-/

namespace GreatEvent

open Lib

/-- The name-value pairs that a message body lists. -/
inductive Lists : List Byte → List (List Byte × List Byte) → Prop where
  | nil : Lists [] []
  | cons {nameDigits valueDigits name value rest : List Byte} {pairs : List (List Byte × List Byte)}
      (two : nameDigits.length = 2) (six : valueDigits.length = 6)
      (nameLen : hexValue nameDigits = some name.length)
      (valueLen : hexValue valueDigits = some value.length) (more : Lists rest pairs) :
      Lists (nameDigits ++ (valueDigits ++ (name ++ (value ++ rest)))) ((name, value) :: pairs)

/-- **A body is read in one way only.** -/
theorem Lists.unique {body : List Byte} {pairs others : List (List Byte × List Byte)}
    (first : Lists body pairs) (second : Lists body others) : pairs = others := by
  induction first generalizing others with
  | nil =>
    generalize eq : [] = body at second
    cases second with
    | nil => rfl
    | cons two =>
      have size := congrArg List.length eq
      simp only [List.length_append, List.length_nil] at size
      omega
  | @cons nameDigits valueDigits name value rest pairs two six nameLen valueLen more ih =>
    generalize eq : nameDigits ++ (valueDigits ++ (name ++ (value ++ rest))) = body at second
    cases second with
    | nil =>
      have size := congrArg List.length eq
      simp only [List.length_append, List.length_nil] at size
      omega
    | cons two' six' nameLen' valueLen' more' =>
      obtain ⟨rfl, fromValueLen⟩ := List.append_inj eq (two.trans two'.symm)
      obtain ⟨rfl, fromName⟩ := List.append_inj fromValueLen (six.trans six'.symm)
      obtain ⟨rfl, fromValue⟩ := List.append_inj fromName (Option.some.inj (nameLen.symm.trans nameLen'))
      obtain ⟨rfl, rfl⟩ := List.append_inj fromValue (Option.some.inj (valueLen.symm.trans valueLen'))
      rw [ih more']

theorem Lists.append {body more : List Byte} {pairs others : List (List Byte × List Byte)}
    (first : Lists body pairs) (second : Lists more others) : Lists (body ++ more) (pairs ++ others) := by
  induction first with
  | nil => exact second
  | cons two six nameLen valueLen _ ih =>
    simp only [List.append_assoc, List.cons_append]
    exact .cons two six nameLen valueLen ih

namespace ProtoStMsg

/-- The number that the load length field spells. -/
def loadField (s : ProtoStMsg) : Option Nat :=
  s.msg.bind fun m => hexValue ((m.drop protocolLoadOffset).take protocolLoadLength)

/-- What lies between the head and `len`. -/
def body (s : ProtoStMsg) : List Byte := ((s.msg.getD []).take s.len.toNat).drop protocolHeadLength.toNat

end ProtoStMsg

namespace Item

/-- The bytes that end up at the value's place; those of a NULL value stay zero. -/
def value (item : Item) : List Byte :=
  match item.pValue with
  | none => List.replicate item.lValueLen.toNat 0
  | some value => value.take item.lValueLen.toNat

/-- The pair that was to be added. -/
def pair (item : Item) : List Byte × List Byte := (item.name, item.value)

/-- The pair that was added: a name longer than an `int` counts is cut. -/
def kept (item : Item) : List Byte × List Byte := (item.name.take item.lNameLen.toNat, item.value)

/-- The room that the item needs. -/
def size (item : Item) : Int := 2 + 6 + item.name.length + item.lValueLen

/-- The item in the message. -/
def encoded (item : Item) : List Byte :=
  (int2hex2str item.lNameLen 2).take 2 ++
    ((int2hex2str item.lValueLen 6).take 6 ++ (item.name.take item.lNameLen.toNat ++ item.value))

/-- The lengths are in the range that the digits are made for. -/
structure Ranged (item : Item) : Prop where
  name : 0 ≤ item.lNameLen
  name_le : item.lNameLen ≤ 0xFF
  value : 0 ≤ item.lValueLen
  value_le : item.lValueLen ≤ 0xFFFFFF

section
variable {item : Item}

theorem length_value (pos : 0 ≤ item.lValueLen) : (item.value.length : Int) = item.lValueLen := by
  unfold value
  have held := item.held
  cases eq : item.pValue with
  | none =>
    simp only [List.length_replicate]
    omega
  | some value =>
    have fits := held value eq
    simp only [List.length_take]
    omega

theorem length_encoded (ranged : item.Ranged) : (item.encoded.length : Int) = item.lNewLen := by
  have name := length_taken ranged.name
  have value := length_value ranged.value
  simp only [encoded, List.length_append, length_field, lNewLen]
  omega

theorem length_bytes_le (item : Item) : item.bytes.length ≤ item.encoded.length := by
  unfold bytes encoded Item.value stored
  cases item.pValue <;> simp

theorem lNewLen_le_size (item : Item) : item.lNewLen ≤ item.size := by
  have taken := strlenInt_le item.name
  rw [lNewLen, size, lNameLen]
  omega

/-- Digits that fill their field. -/
theorem length_digits {n : Int} {width : Nat} (some' : 0 < width) (pos : 0 ≤ n) (small : n < 2 ^ 32)
    (fits : n.toNat < 16 ^ width) : (int2hex2str n width).length = width := by
  rw [int2hex2str, length_printHex_eq_iff some', Int.emod_eq_of_lt pos small]
  exact fits

theorem hexValue_field {n : Int} {width : Nat} (some' : 0 < width) (pos : 0 ≤ n) (small : n < 2 ^ 32)
    (fits : n.toNat < 16 ^ width) : hexValue ((int2hex2str n width).take width) = some n.toNat := by
  have full := length_digits some' pos small fits
  rw [List.take_of_length_le (by omega), int2hex2str, hexValue_printHex width pos small]

/-- The six digits of the value length and their terminator need seven bytes. -/
theorem six_lt_of_printed {s : ProtoStMsg} {array : Nat} (printed : item.Printed array s) : 6 < array := by
  have wide := printed.value
  rw [int2hex2str, printHex, length_zeroPad] at wide
  omega

/-- Seven bytes are enough for every length of a small load. -/
theorem printed_of_small {s : ProtoStMsg} {array : Nat} (ranged : item.Ranged) (seven : 6 < array)
    (low : 0 ≤ s.len + item.lNewLen - protocolHeadLength)
    (small : s.len + item.lNewLen - protocolHeadLength ≤ 0xFFFF) : item.Printed array s := by
  obtain ⟨name, nameLe, value, valueLe⟩ := ranged
  have two : (int2hex2str item.lNameLen 2).length = 2 := length_digits (by decide) name (by omega) (by omega)
  have six : (int2hex2str item.lValueLen 6).length = 6 := length_digits (by decide) value (by omega) (by omega)
  have four : (int2hex2str (s.len + item.lNewLen - protocolHeadLength) protocolLoadLength).length =
      protocolLoadLength := length_digits (by decide) low (by omega) (by rw [protocolLoadLength]; omega)
  rw [protocolLoadLength] at four
  exact ⟨by omega, by omega, by rw [protocolLoadLength]; omega, name, fun _ => value⟩

/-- **An array of less than seven bytes holds the digits of no item**: a call that passes the checks
overruns it. -/
theorem six_lt_of_add {s t : ProtoStMsg} {array : Nat} {ret : Int} (yes : item.Accepted s)
    (added : item.add array s = some (ret, t)) : 6 < array :=
  six_lt_of_printed ((add_eq_some_iff yes).mp added).1

/-- **One item lists one pair.** -/
theorem lists_encoded (ranged : item.Ranged) : Lists item.encoded [item.kept] := by
  have name := length_taken ranged.name
  have value := length_value ranged.value
  obtain ⟨low, high, low', high'⟩ := ranged
  have nameLen : hexValue ((int2hex2str item.lNameLen 2).take 2) =
      some (item.name.take item.lNameLen.toNat).length :=
    (hexValue_field (by decide) low (by omega) (by omega)).trans (congrArg some (by omega))
  have valueLen : hexValue ((int2hex2str item.lValueLen 6).take 6) = some item.value.length :=
    (hexValue_field (by decide) low' (by omega) (by omega)).trans (congrArg some (by omega))
  have listed := Lists.cons (length_field item.lNameLen 2) (length_field item.lValueLen 6) nameLen valueLen .nil
  rwa [List.append_nil] at listed

/-- Zeros behind the item are the value of one that has none. -/
theorem encoded_zeros (item : Item) {k : Nat} (fits : item.encoded.length ≤ k) :
    item.encoded ++ List.replicate (k - item.encoded.length) 0 =
      item.bytes ++ List.replicate (k - item.bytes.length) 0 := by
  cases eq : item.pValue with
  | some value =>
    have same : item.encoded = item.bytes := by
      simp only [encoded, bytes, Item.value, stored, eq]
    rw [same]
  | none =>
    have same : item.encoded = item.bytes ++ List.replicate item.lValueLen.toNat 0 := by
      simp only [encoded, bytes, Item.value, stored, eq, List.append_nil, List.append_assoc]
    rw [same, List.length_append, List.length_replicate] at fits ⊢
    rw [List.append_assoc, List.replicate_append_replicate]
    congr 2
    omega

end

end Item

/-- The items of a message, one behind the other. -/
def bodyOf (items : List Item) : List Byte := items.flatMap Item.encoded

/-- What stands at the load length's place. -/
def loadDigits (items : List Item) : List Byte :=
  if items = [] then [0, 0, 0, 0]
  else (int2hex2str (bodyOf items).length protocolLoadLength).take protocolLoadLength

/-- **What a message being built looks like**: the head, the items, zeros. -/
structure Laid (s : ProtoStMsg) (items : List Item) : Prop where
  len : s.len = protocolHeadLength + (bodyOf items).length
  fits : s.len ≤ s.total
  msg : ∃ head, (head : List Byte).length = 16 ∧ head.drop protocolLoadOffset = loadDigits items ∧
    s.msg = some (head ++ (bodyOf items ++ List.replicate (s.total - s.len.toNat) 0))

section
variable {array : Nat} {s t : ProtoStMsg} {items : List Item} {item : Item} {ret cmd : Int}

theorem bodyOf_concat (items : List Item) (item : Item) :
    bodyOf (items ++ [item]) = bodyOf items ++ item.encoded := by
  simp [bodyOf]

/-- **The head starts a message.** -/
theorem laid_makeDataHead (low : 0 ≤ cmd) (high : cmd ≤ 9999) (msg : s.msg.isSome)
    (room : protocolHeadLength ≤ s.total) :
    ∃ t, protoMakeDataHead s cmd = some (protocolHeadLength, t) ∧ t.total = s.total ∧ Laid t [] := by
  have four : (int2str cmd protocolCmdLength).length = 4 := by
    have digits := length_digitBytes_le (show 0 < 4 by decide) (show cmd.natAbs < 10 ^ 4 by omega)
    rw [int2str, printPadded, if_neg (by omega), length_zeroPad, protocolCmdLength]
    omega
  have sixteen : protocolHeadLength = 16 := rfl
  obtain ⟨t, made, len, total, buf⟩ := makeDataHead_made four msg room
  refine ⟨t, made, total, len.trans (by rfl), by omega, headBytes cmd ++ [0, 0, 0, 0], ?_, ?_, ?_⟩
  · simp [headBytes, protocolVersion, four]
  · have twelve : (headBytes cmd).length = 12 := by
      simp [headBytes, protocolVersion, four]
    rw [protocolLoadOffset, ← twelve, List.drop_left]
    rfl
  · have split : s.total - 12 = 4 + (t.total - t.len.toNat) := by omega
    rw [buf, split, ← List.replicate_append_replicate, List.append_assoc]
    rfl

/-- **An item that is added stands behind those before it.** -/
theorem laid_add (laid : Laid s items) (pos : 0 ≤ item.lValueLen) (room : s.len + item.size ≤ s.total)
    (added : item.add array s = some (ret, t)) (accepted : 0 ≤ ret) :
    t.total = s.total ∧ item.Ranged ∧ Laid t (items ++ [item]) := by
  have checks : item.Accepted s := by
    by_contra no
    rw [Item.add_rejected no] at added
    cases added
    omega
  obtain ⟨printed, -, -, -, newLen, total, m, eq, buf⟩ := (Item.add_eq_some_iff checks).mp added
  have ranged : item.Ranged := ⟨printed.named, checks.name, pos, checks.value⟩
  have size := Item.length_encoded ranged
  have taken := item.lNewLen_le_size
  have sixteen' : protocolHeadLength = 16 := rfl
  obtain ⟨len, fits, front, sixteen, -, msg⟩ := laid
  cases msg.symm.trans eq
  have place : s.len.toNat = (front ++ bodyOf items).length := by
    rw [List.length_append]
    omega
  have whole : (bodyOf (items ++ [item])).length = (bodyOf items).length + item.encoded.length := by
    rw [bodyOf_concat, List.length_append]
  have load : s.len + item.lNewLen - protocolHeadLength = (bodyOf (items ++ [item])).length := by
    omega
  refine ⟨total, ranged, by omega, by omega, poke front protocolLoadOffset
    ((int2hex2str (bodyOf (items ++ [item])).length protocolLoadLength).take protocolLoadLength), ?_, ?_, ?_⟩
  · rw [length_poke (by rw [length_field, sixteen]; decide), sixteen]
  · rw [loadDigits, if_neg (by simp), poke, List.append_assoc, List.drop_left' (by rw [List.length_take, sixteen]; rfl),
      length_field, List.drop_of_length_le (by rw [sixteen]; decide), List.append_nil]
  · have zeros := item.encoded_zeros (k := s.total - s.len.toNat) (by omega)
    have behind : s.total - s.len.toNat - item.encoded.length = t.total - t.len.toNat := by omega
    rw [behind] at zeros
    rw [buf, load, place, ← List.append_assoc front, poke_append_right, List.drop_replicate, ← place, ← zeros,
      bodyOf_concat, List.append_assoc front, poke_append_left _ (by rw [length_field, sixteen]; decide),
      ← List.append_assoc (bodyOf items)]

theorem Laid.grown (before : Laid s items) (after' : Laid t (items ++ [item])) (ranged : item.Ranged) :
    t.len ≤ s.len + item.size := by
  have size := Item.length_encoded ranged
  have taken := item.lNewLen_le_size
  have whole := after'.len
  rw [bodyOf_concat, List.length_append] at whole
  have front := before.len
  omega

/-! ## Whole messages -/

/-- The calls one after another, as long as each returns no negative result. -/
def addItems (array : Nat) : ProtoStMsg → List ItemCall → Option ProtoStMsg
  | stMsg, [] => some stMsg
  | stMsg, call :: calls => do
    let (ret, stMsg) ← call.run array stMsg
    if ret < 0 then none else addItems array stMsg calls

/-- A head for `cmd` and then the items. -/
def buildMessage (array : Nat) (stMsg : ProtoStMsg) (cmd : Int) (calls : List ItemCall) :
    Option ProtoStMsg := do
  let (_, stMsg) ← protoMakeDataHead stMsg cmd
  addItems array stMsg calls

/-- The room that items need. -/
def loadOf : List Item → Int
  | [] => 0
  | item :: items => item.size + loadOf items

theorem loadOf_nonneg (items : List Item) (pos : ∀ item ∈ items, 0 ≤ item.lValueLen) : 0 ≤ loadOf items := by
  induction items with
  | nil => exact Int.le_refl 0
  | cons item items ih =>
    have first := pos item List.mem_cons_self
    have rest := ih fun i member => pos i (List.mem_cons_of_mem item member)
    rw [loadOf, Item.size]
    omega

/-- **The layout is kept by every sequence of calls.** -/
theorem laid_addItems {calls : List ItemCall} {done : List Item} (laid : Laid s done)
    (pos : ∀ call ∈ calls, 0 ≤ call.item.lValueLen) (room : s.len + loadOf (calls.map ItemCall.item) ≤ s.total)
    (built : addItems array s calls = some t) :
    Laid t (done ++ calls.map ItemCall.item) ∧ ∀ call ∈ calls, call.item.Ranged := by
  induction calls generalizing s done with
  | nil =>
    cases built
    simpa using laid
  | cons call calls ih =>
    simp only [addItems, Option.bind_eq_bind, Option.bind_eq_some_iff] at built
    obtain ⟨⟨ret, next⟩, first, built⟩ := built
    rw [ItemCall.run_eq] at first
    have here := pos call List.mem_cons_self
    have later : ∀ c ∈ calls, 0 ≤ c.item.lValueLen := fun c member => pos c (List.mem_cons_of_mem call member)
    have rest := loadOf_nonneg (calls.map ItemCall.item) (by simpa using later)
    rw [List.map_cons, loadOf] at room
    split at built
    case isTrue => cases built
    case isFalse accepted =>
      obtain ⟨total, ranged, next'⟩ := laid_add laid here (by omega) first (by omega)
      have grown := laid.grown next' ranged
      obtain ⟨whole, all⟩ := ih next' later (by omega) built
      rw [List.append_assoc] at whole
      exact ⟨whole, List.forall_mem_cons.mpr ⟨ranged, all⟩⟩

/-- Something is added to an array of seven bytes only. -/
theorem six_lt_of_addItems {calls : List ItemCall} (some' : calls ≠ [])
    (built : addItems array s calls = some t) : 6 < array := by
  cases calls with
  | nil => exact absurd rfl some'
  | cons call calls =>
    simp only [addItems, Option.bind_eq_bind, Option.bind_eq_some_iff] at built
    obtain ⟨⟨ret, next⟩, first, built⟩ := built
    rw [ItemCall.run_eq] at first
    by_cases yes : call.item.Accepted s
    · exact Item.six_lt_of_add yes first
    · rw [Item.add_rejected yes] at first
      cases first
      cases built

/-- **Items of a small load are all added** when the digits of their lengths fit their array. -/
theorem addItems_exists {calls : List ItemCall} {done : List Item} (laid : Laid s done)
    (checked : ∀ call ∈ calls, call.item.pName.isSome ∧ call.item.Ranged) (seven : 6 < array)
    (room : s.len + loadOf (calls.map ItemCall.item) ≤ s.total)
    (small : (bodyOf done).length + loadOf (calls.map ItemCall.item) ≤ 0xFFFF) :
    ∃ t, addItems array s calls = some t := by
  induction calls generalizing s done with
  | nil => exact ⟨s, rfl⟩
  | cons call calls ih =>
    obtain ⟨⟨named, ranged⟩, later⟩ := List.forall_mem_cons.mp checked
    have rest := loadOf_nonneg (calls.map ItemCall.item) (by simpa using fun c member => (later c member).2.value)
    rw [List.map_cons, loadOf] at room small
    have size := Item.length_encoded ranged
    have taken := call.item.lNewLen_le_size
    have bytes := call.item.length_bytes_le
    have sixteen : protocolHeadLength = 16 := rfl
    have four : (protocolLoadLength : Int) = 4 := rfl
    have len := laid.len
    obtain ⟨head, -, -, msg⟩ := laid.msg
    have yes : call.item.Accepted s :=
      ⟨by omega, named, by rw [msg, Option.isSome_some], ranged.name_le, ranged.value_le⟩
    obtain ⟨next, added⟩ := Item.add_exists yes (Item.printed_of_small ranged seven (by omega) (by omega))
      (by omega) (by omega)
    obtain ⟨total, -, laid'⟩ := laid_add laid ranged.value (by omega) added (by omega)
    have grown := laid.grown laid' ranged
    have len' := laid'.len
    obtain ⟨t, built⟩ := ih laid' later (by omega) (by omega)
    refine ⟨t, ?_⟩
    rw [addItems, ItemCall.run_eq, added, Option.bind_eq_bind, Option.bind_some]
    simp only
    rw [if_neg (by omega), built]

/-! ## What it says -/

theorem Laid.body_eq (laid : Laid s items) : s.body = bodyOf items := by
  obtain ⟨len, fits, head, sixteen, -, msg⟩ := laid
  have sixteen' : protocolHeadLength = 16 := rfl
  have place : s.len.toNat = (head ++ bodyOf items).length := by
    rw [List.length_append]
    omega
  rw [ProtoStMsg.body, msg, Option.getD_some, ← List.append_assoc, place, List.take_left,
    List.drop_left' (by rw [sixteen]; rfl)]

theorem Laid.loadField_eq (laid : Laid s items) : s.loadField = hexValue (loadDigits items) := by
  obtain ⟨-, -, head, sixteen, digits, msg⟩ := laid
  have four : (loadDigits items).length = 4 := by
    rw [← digits, List.length_drop, sixteen]
    rfl
  rw [ProtoStMsg.loadField, msg, Option.bind_some, List.drop_append_of_le_length (by rw [sixteen]; decide), digits,
    show protocolLoadLength = 4 from rfl,
    List.take_left' four]

theorem lists_bodyOf (ranged : ∀ item ∈ items, item.Ranged) : Lists (bodyOf items) (items.map Item.kept) := by
  induction items with
  | nil => exact .nil
  | cons item items ih =>
    obtain ⟨first, rest⟩ := List.forall_mem_cons.mp ranged
    exact (Item.lists_encoded first).append (ih rest)

/-- **The load length is right for a body of at least one item that four digits can measure.** -/
theorem loadDigits_iff (items : List Item) :
    hexValue (loadDigits items) = some (bodyOf items).length ↔
      items ≠ [] ∧ (bodyOf items).length ≤ 0xFFFF := by
  unfold loadDigits
  split
  case isTrue none' =>
    rw [none']
    decide
  case isFalse some' =>
    constructor
    · intro value
      have small := hexValue_lt value
      rw [length_field, protocolLoadLength] at small
      exact ⟨some', by omega⟩
    · rintro ⟨-, small⟩
      rw [Item.hexValue_field (by decide) (by omega) (by omega)
        (by rw [protocolLoadLength, Int.toNat_natCast]; omega), Int.toNat_natCast]

theorem strlenInt_of_lt {text : List Byte} (small : text.length < 2 ^ 31) : strlenInt text = text.length := by
  have word : (2 ^ 32 : Nat) = 4294967296 := by decide
  unfold strlenInt
  rw [Int.bmod_def, word]
  split <;> omega

/-- Nothing of the name is lost exactly when its length is what the digits say. -/
theorem Item.kept_eq_pair_iff (ranged : item.Ranged) : item.kept = item.pair ↔ item.lNewLen = item.size := by
  have taken := strlenInt_le item.name
  have ranged := ranged.name
  rw [Item.kept, Item.pair, Prod.mk.injEq, Item.lNewLen, Item.size, List.take_eq_self_iff]
  rw [Item.lNameLen] at ranged ⊢
  constructor
  · rintro ⟨whole, -⟩
    omega
  · intro same
    exact ⟨by omega, rfl⟩

theorem length_bodyOf (ranged : ∀ item ∈ items, item.Ranged) (whole : ∀ item ∈ items, item.kept = item.pair) :
    ((bodyOf items).length : Int) = loadOf items := by
  induction items with
  | nil => rfl
  | cons item items ih =>
    obtain ⟨first, rest⟩ := List.forall_mem_cons.mp ranged
    obtain ⟨first', rest'⟩ := List.forall_mem_cons.mp whole
    have size := Item.length_encoded first
    have same := (Item.kept_eq_pair_iff first).mp first'
    have tail := ih rest rest'
    rw [loadOf, ← tail]
    simp only [bodyOf, List.flatMap_cons, List.length_append]
    omega

/-- Names that are part of a small load are not cut. -/
theorem kept_of_small (pos : ∀ item ∈ items, 0 ≤ item.lValueLen) (ranged : ∀ item ∈ items, item.Ranged)
    (small : loadOf items ≤ 0xFFFF) : ∀ item ∈ items, item.kept = item.pair := by
  induction items with
  | nil => exact fun _ member => nomatch member
  | cons item items ih =>
    obtain ⟨first, rest⟩ := List.forall_mem_cons.mp ranged
    obtain ⟨first', rest'⟩ := List.forall_mem_cons.mp pos
    have tail := loadOf_nonneg items rest'
    rw [loadOf] at small
    refine List.forall_mem_cons.mpr ⟨(Item.kept_eq_pair_iff first).mpr ?_, ih rest' rest ?_⟩
    · have short : item.name.length < 2 ^ 31 := by
        rw [Item.size] at small
        omega
      rw [Item.lNewLen, Item.size, Item.lNameLen, strlenInt_of_lt short]
    · rw [Item.size] at small
      omega

end

/-- The load length is that of the body, and the body lists these pairs and no others. -/
def ProtoStMsg.Says (s : ProtoStMsg) (pairs : List (List Byte × List Byte)) : Prop :=
  (∃ load, s.loadField = some load ∧ (load : Int) = s.len - protocolHeadLength) ∧
    ∀ others, Lists s.body others ↔ others = pairs

theorem says_iff {t : ProtoStMsg} {items : List Item} (laid : Laid t items) (ranged : ∀ item ∈ items, item.Ranged)
    (pos : ∀ item ∈ items, 0 ≤ item.lValueLen) :
    t.Says (items.map Item.pair) ↔ items ≠ [] ∧ loadOf items ≤ 0xFFFF := by
  have listed := lists_bodyOf ranged
  have digits := loadDigits_iff items
  have len := laid.len
  rw [← laid.loadField_eq] at digits
  rw [ProtoStMsg.Says, laid.body_eq]
  constructor
  · rintro ⟨⟨load, field, size⟩, only⟩
    have whole : items.map Item.kept = items.map Item.pair := (only _).mp listed
    have body := length_bodyOf ranged (List.map_inj_left.mp whole)
    rw [show load = (bodyOf items).length by omega] at field
    obtain ⟨some', small⟩ := digits.mp field
    exact ⟨some', by omega⟩
  · rintro ⟨some', small⟩
    have kept := kept_of_small pos ranged small
    have body := length_bodyOf ranged kept
    rw [List.map_congr_left kept] at listed
    refine ⟨⟨_, digits.mpr ⟨some', by omega⟩, by omega⟩, fun others => ⟨fun other => other.unique listed, ?_⟩⟩
    rintro rfl
    exact listed

/-- The calls keep to their memory, none has a negative result, and the message says what they added. -/
def SaysAdded (array : Nat) (s : ProtoStMsg) (cmd : Int) (calls : List ItemCall) : Prop :=
  ∃ t, buildMessage array s cmd calls = some t ∧ t.Says (calls.map fun call => call.item.pair)

section
variable {array : Nat} {s : ProtoStMsg} {cmd : Int} {calls : List ItemCall}

theorem saysAdded_iff (low : 0 ≤ cmd) (high : cmd ≤ 9999) (msg : s.msg.isSome)
    (checked : ∀ call ∈ calls, call.item.pName.isSome ∧ call.item.Ranged)
    (room : protocolHeadLength + loadOf (calls.map ItemCall.item) ≤ s.total) :
    SaysAdded array s cmd calls ↔ calls ≠ [] ∧ 6 < array ∧ loadOf (calls.map ItemCall.item) ≤ 0xFFFF := by
  have pos : ∀ call ∈ calls, 0 ≤ call.item.lValueLen := fun call member => (checked call member).2.value
  have load := loadOf_nonneg (calls.map ItemCall.item) (by simpa using pos)
  obtain ⟨h, made, total, start⟩ := laid_makeDataHead low high msg (by omega)
  have len : h.len = protocolHeadLength := start.len.trans (Int.add_zero _)
  have pairs : (calls.map fun call => call.item.pair) = (calls.map ItemCall.item).map Item.pair := by
    rw [List.map_map]
    rfl
  have spelled : ∀ t, addItems array h calls = some t →
      (t.Says (calls.map fun call => call.item.pair) ↔ calls ≠ [] ∧ loadOf (calls.map ItemCall.item) ≤ 0xFFFF) := by
    intro t built
    obtain ⟨laid, ranged⟩ := laid_addItems start pos (by omega) built
    rw [List.nil_append] at laid
    rw [pairs, says_iff laid (by simpa using ranged) (by simpa using pos), ne_eq, List.map_eq_nil_iff]
  rw [SaysAdded, buildMessage, made, Option.bind_eq_bind, Option.bind_some]
  constructor
  · rintro ⟨t, built, said⟩
    obtain ⟨some', small⟩ := (spelled t built).mp said
    exact ⟨some', six_lt_of_addItems some' built, small⟩
  · rintro ⟨some', seven, small⟩
    obtain ⟨t, built⟩ := addItems_exists start checked seven (by omega)
      (by rwa [bodyOf, List.flatMap_nil, List.length_nil, Int.natCast_zero, Int.zero_add])
    exact ⟨t, built, (spelled t built).mpr ⟨some', small⟩⟩

/-- **A message never says what was added**: before the first item the load field is empty, and the digits
of every item overrun `acLen`. In an array of another size it does exactly when this holds seven bytes,
something was added and the load is at most `0xFFFF` bytes. -/
theorem no_message_says_added (s : ProtoStMsg) (cmd : Int) (calls : List ItemCall)
    (low : 0 ≤ cmd) (high : cmd ≤ 9999) (msg : s.msg.isSome)
    (lengths : ∀ call ∈ calls, 0 ≤ call.item.lValueLen ∧ call.item.lValueLen ≤ 0xFFFFFF)
    (room : protocolHeadLength + loadOf (calls.map ItemCall.item) ≤ s.total) :
    ¬ SaysAdded acLenSize s cmd calls ∧
    ((∀ call ∈ calls, call.item.pName.isSome ∧ call.item.Ranged) → ∀ array,
      (SaysAdded array s cmd calls ↔
        calls ≠ [] ∧ 6 < array ∧ loadOf (calls.map ItemCall.item) ≤ 0xFFFF)) := by
  refine ⟨fun added => ?_, fun checked array => saysAdded_iff low high msg checked room⟩
  by_cases some' : calls = []
  · subst some'
    exact ((saysAdded_iff low high msg (by simp) room).mp added).1 rfl
  · have pos : ∀ call ∈ calls, 0 ≤ call.item.lValueLen := fun call member => (lengths call member).1
    have load := loadOf_nonneg (calls.map ItemCall.item) (by simpa using pos)
    obtain ⟨h, made, -, -⟩ := laid_makeDataHead low high msg (by omega)
    obtain ⟨t, built, -⟩ := added
    rw [buildMessage, made, Option.bind_eq_bind, Option.bind_some] at built
    exact absurd (six_lt_of_addItems some' built) (by decide)

end

/-- A buffer of 32 bytes. -/
def freshMessage : ProtoStMsg := ⟨some (List.replicate 32 0xFF), 0, 32, by rintro m ⟨⟩; rfl⟩

/-- One item named "a". -/
def oneItem : Item := ⟨some [97], some [98, 99], 2, by rintro m ⟨⟩; decide⟩

/-- Not with the five bytes that are declared, and with seven. -/
theorem no_message_says_added_sample : ¬ SaysAdded acLenSize freshMessage 1 [.addOneItem oneItem] ∧
    SaysAdded 7 freshMessage 1 [.addOneItem oneItem] := by
  have rule := no_message_says_added freshMessage 1 [.addOneItem oneItem] (by decide) (by decide) rfl (by decide)
    (by decide)
  refine ⟨rule.1, (rule.2 ?_ 7).mpr (by decide)⟩
  intro call member
  obtain rfl := List.mem_singleton.mp member
  exact ⟨rfl, by decide, by decide, by decide, by decide⟩

/-- Before the first item the four bytes that hold the load length are no digits, and the first item
overruns its array. -/
theorem empty_message_has_no_load : (∃ t, buildMessage acLenSize freshMessage 1 [] = some t ∧ ¬ t.Says []) ∧
    buildMessage acLenSize freshMessage 1 [.addOneItem oneItem] = none := by
  refine ⟨⟨_, rfl, ?_⟩, by decide +kernel⟩
  rintro ⟨⟨load, field, -⟩, -⟩
  cases field

end GreatEvent
