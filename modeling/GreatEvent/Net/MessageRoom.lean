import GreatEvent.Lib.Runs
import GreatEvent.Net.MessageItems

/-!
# What a message builder writes

Neither `PROTO_AddOneItem` nor its callers compare an item with the room
behind `len`: a sequence of calls stays inside its memory exactly when every
item, at the moment it is added, fits there and its printed lengths fit the
array on the stack (`Fits`). In the array that the source declares they never
do, so only a refused item keeps to the memory (`Refused`).
-/

namespace GreatEvent

open Lib

/-- One call on a message. -/
inductive BuilderCall where
  | makeDataHead (cmd : Int)
  | addOneItem (item : Item)
  deriving DecidableEq

namespace BuilderCall

variable (array : Nat)

/-- Its result and the message. -/
def run (stMsg : ProtoStMsg) : BuilderCall → Option (Int × ProtoStMsg)
  | makeDataHead cmd => protoMakeDataHead stMsg cmd
  | addOneItem item => item.add array stMsg

/-- The message after the call. -/
def step (stMsg : ProtoStMsg) (call : BuilderCall) : Option ProtoStMsg := (call.run array stMsg).map Prod.snd

/-- The call writes nowhere outside its memory, leaves `len` inside the buffer, and changes nothing
when it returns -1. -/
def Respects (stMsg : ProtoStMsg) (call : BuilderCall) : Prop :=
  ∃ ret t, call.run array stMsg = some (ret, t) ∧ t.len ≤ t.total ∧ (ret = -1 → t = stMsg)

/-- The numbers fit the arrays they are printed into, and an accepted item fits behind the message. A
NULL value of negative length moves `len` back, and must not move it to -1. -/
def Fits (stMsg : ProtoStMsg) : BuilderCall → Prop
  | makeDataHead cmd => (int2str cmd protocolCmdLength).length < 5
  | addOneItem item => item.Accepted stMsg → item.Printed array stMsg ∧
      stMsg.len + item.bytes.length ≤ stMsg.total ∧ stMsg.len + item.lNewLen ≤ stMsg.total ∧
      stMsg.len + item.lNewLen ≠ -1

/-- The command fits its array, and an item fails the checks. -/
def Refused (stMsg : ProtoStMsg) : BuilderCall → Prop
  | makeDataHead cmd => (int2str cmd protocolCmdLength).length < 5
  | addOneItem item => ¬ item.Accepted stMsg

section
variable {array : Nat} {s t : ProtoStMsg} {cmd ret : Int} {item : Item} {call : BuilderCall}

/-- What `PROTO_MakeDataHead` can do. -/
theorem head_cases (room : protocolHeadLength ≤ s.total) (made : protoMakeDataHead s cmd = some (ret, t)) :
    (int2str cmd protocolCmdLength).length < 5 ∧ t.total = s.total ∧ ret ≠ -1 ∧
      (t.len = s.len ∨ t.len = 0 ∨ t.len = protocolHeadLength) := by
  have fits : (int2str cmd protocolCmdLength).length < 5 := by
    by_contra long
    rw [protoMakeDataHead, onStack, if_neg (by omega)] at made
    cases made
  by_cases four : (int2str cmd protocolCmdLength).length = 4
  · cases eq : s.msg with
    | none =>
      rw [makeDataHead_null four eq] at made
      cases made
      exact ⟨fits, rfl, by decide, .inr (.inl rfl)⟩
    | some m =>
      obtain ⟨t', made', len, total, -⟩ := makeDataHead_made four (eq ▸ rfl) room
      rw [made'] at made
      cases made
      exact ⟨fits, total, by decide, .inr (.inr len)⟩
  · rw [makeDataHead_refused fits four] at made
    cases made
    exact ⟨fits, rfl, by decide, .inl rfl⟩

/-- A head is made whenever its command fits its array. -/
theorem head_exists (room : protocolHeadLength ≤ s.total)
    (fits : (int2str cmd protocolCmdLength).length < 5) :
    ∃ ret t, protoMakeDataHead s cmd = some (ret, t) := by
  by_cases four : (int2str cmd protocolCmdLength).length = 4
  · cases eq : s.msg with
    | none => exact ⟨_, _, makeDataHead_null four eq⟩
    | some m =>
      obtain ⟨t, made, -⟩ := makeDataHead_made four (eq ▸ rfl) room
      exact ⟨_, t, made⟩
  · exact ⟨_, _, makeDataHead_refused fits four⟩

/-- **One call keeps to its memory exactly when it fits.** -/
theorem respects_iff (room : protocolHeadLength ≤ s.total) (len : s.len ≤ s.total) :
    call.Respects array s ↔ call.Fits array s := by
  have sixteen : protocolHeadLength = 16 := rfl
  cases call with
  | makeDataHead cmd =>
    constructor
    · rintro ⟨ret, t, made, -⟩
      exact (head_cases room made).1
    · intro fits
      obtain ⟨ret, t, made⟩ := head_exists room fits
      obtain ⟨-, total, result, newLen⟩ := head_cases room made
      exact ⟨ret, t, made, by omega, fun same => absurd same result⟩
  | addOneItem item =>
    by_cases yes : item.Accepted s
    · have head := yes.head
      have four : (protocolLoadLength : Int) = 4 := rfl
      constructor
      · rintro ⟨ret, t, added, inside, unchanged⟩ -
        obtain ⟨printed, fits, -, result, newLen, total, -⟩ := (Item.add_eq_some_iff yes).mp added
        refine ⟨printed, fits, by omega, fun minus => ?_⟩
        have same := unchanged (by omega)
        rw [same] at newLen
        omega
      · intro fits
        obtain ⟨printed, inside, inside', result⟩ := fits yes
        obtain ⟨t, added⟩ := Item.add_exists yes printed inside room
        obtain ⟨-, -, -, -, newLen, total, -⟩ := (Item.add_eq_some_iff yes).mp added
        exact ⟨_, t, added, by omega, fun same => absurd same result⟩
    · have rejected : item.add array s = some (-1, s) := Item.add_rejected yes
      exact ⟨fun _ yes' => absurd yes' yes, fun _ => ⟨-1, s, rejected, len, fun _ => rfl⟩⟩

/-- With the arrays as they are declared an item keeps to its memory only when it is refused. -/
theorem fits_declared_iff : call.Fits acLenSize s ↔ call.Refused s := by
  cases call with
  | makeDataHead cmd => exact Iff.rfl
  | addOneItem item =>
    constructor
    · intro fits yes
      exact absurd (Item.six_lt_of_printed (fits yes).1) (by decide)
    · intro refused yes
      exact absurd yes refused

/-- No call changes the size of the buffer. -/
theorem step_total (room : protocolHeadLength ≤ s.total) (taken : call.step array s = some t) :
    t.total = s.total := by
  obtain ⟨⟨ret, next⟩, run, rfl⟩ := Option.map_eq_some_iff.mp taken
  cases call with
  | makeDataHead cmd => exact (head_cases room run).2.1
  | addOneItem item =>
    by_cases yes : item.Accepted s
    · obtain ⟨-, -, -, -, -, total, -⟩ := (Item.add_eq_some_iff yes).mp run
      exact total
    · have same := (Item.add_rejected yes).symm.trans run
      cases same
      rfl

end

/-- The property of a call in every state in which a run along `calls` makes it. -/
def Always (P : ProtoStMsg → BuilderCall → Prop) (stMsg : ProtoStMsg) (calls : List BuilderCall) : Prop :=
  ∀ done call t, done ++ [call] <+: calls →
    Runs (step array) (fun _ _ _ => True) stMsg done t → P t call

section
variable {array : Nat} {s t : ProtoStMsg} {calls done : List BuilderCall}
  {P : ProtoStMsg → BuilderCall → Prop}

theorem Always.runs (always : Always array P s calls) (front : done <+: calls)
    (run : Runs (step array) (fun _ _ _ => True) s done t) : Runs (step array) (fun a call _ => P a call) s done t := by
  induction run with
  | nil => exact .nil
  | @snoc es u call t' before taken _ ih =>
    exact .snoc (ih ((List.prefix_append es [call]).trans front)) taken (always es call u front before)

/-- A property that keeps `len` inside the buffer keeps it there along a run. -/
theorem Always.inside (room : protocolHeadLength ≤ s.total) (len : s.len ≤ s.total)
    (keeps : ∀ a call, protocolHeadLength ≤ a.total → a.len ≤ a.total → P a call → call.Respects array a)
    (always : Always array P s calls) (front : done <+: calls)
    (run : Runs (step array) (fun _ _ _ => True) s done t) : t.total = s.total ∧ t.len ≤ t.total := by
  refine (always.runs front run).invariant (P := fun b => b.total = s.total ∧ b.len ≤ b.total) ⟨rfl, len⟩ ?_
  rintro a call b ⟨total, inside⟩ taken holds
  have room' : protocolHeadLength ≤ a.total := by omega
  obtain ⟨ret, b', made, inside', -⟩ := keeps a call room' inside holds
  have next := step_total room' taken
  rw [step, made] at taken
  cases taken
  exact ⟨next.trans total, inside'⟩

theorem Always.nil : Always array P s [] := by
  intro done call t front _
  simp at front

/-- The first call and those behind it. -/
theorem Always.cons {call : BuilderCall} (here : P s call)
    (rest : ∀ t, call.step array s = some t → Always array P t calls) : Always array P s (call :: calls) := by
  intro done last t front run
  cases done with
  | nil =>
    cases run.of_nil rfl
    obtain rfl : last = call := by simpa using front
    exact here
  | cons first done =>
    obtain ⟨rfl, behind⟩ := List.cons_prefix_cons.mp front
    obtain ⟨next, taken, -, run⟩ := run.of_cons rfl
    exact rest next taken done last t behind run

/-- **A run keeps to its memory exactly when every call fits where it is made.** -/
theorem always_iff (room : protocolHeadLength ≤ s.total) (len : s.len ≤ s.total) :
    Always array (Respects array) s calls ↔ Always array (Fits array) s calls := by
  constructor
  · intro always done call t front run
    obtain ⟨total, inside⟩ := always.inside room len (fun _ _ _ _ holds => holds)
      ((List.prefix_append done [call]).trans front) run
    exact (respects_iff (by omega) inside).mp (always done call t front run)
  · intro always done call t front run
    obtain ⟨total, inside⟩ := always.inside room len (fun a call room len => (respects_iff room len).mpr)
      ((List.prefix_append done [call]).trans front) run
    exact (respects_iff (by omega) inside).mpr (always done call t front run)

end

/-- What came out is the message after a front of these calls. -/
def Follows (stMsg : ProtoStMsg) (calls : List BuilderCall) (out : Option (Int × ProtoStMsg)) : Prop :=
  ∃ done, done <+: calls ∧ out.map Prod.snd = done.foldlM (step array) stMsg

section
variable {array : Nat} {s : ProtoStMsg} {call : BuilderCall} {calls : List BuilderCall}

/-- No more calls. -/
theorem Follows.stop (ret : Int) : Follows array s calls (some (ret, s)) :=
  ⟨[], List.nil_prefix, rfl⟩

/-- One call and what comes behind it. -/
theorem Follows.cons {next : Int × ProtoStMsg → Option (Int × ProtoStMsg)}
    (rest : ∀ ret t, Follows array t calls (next (ret, t))) :
    Follows array s (call :: calls) ((call.run array s).bind next) := by
  cases eq : call.run array s with
  | none => exact ⟨[call], by simp, by simp [step, eq]⟩
  | some out =>
    obtain ⟨done, front, same⟩ := rest out.1 out.2
    exact ⟨call :: done, List.cons_prefix_cons.mpr ⟨rfl, front⟩, by simpa [step, eq] using same⟩

/-- The last call gives the result. -/
theorem Follows.last : Follows array s [call] (call.run array s) := by
  refine ⟨[call], List.prefix_refl _, ?_⟩
  cases eq : call.run array s <;> simp [step, eq]

end

end BuilderCall

/-- An item whose value is a string. -/
def stringItem (name : String) (value : List Byte) : Item where
  pName := some (ascii name)
  pValue := some value
  lValueLen := strlenInt value
  held := by
    intro v eq
    cases eq
    exact strlenInt_le value

/-- The item `Ret`. -/
def retItem : Item := ⟨some (ascii "Ret"), some (ascii "1"), 1, by rintro v ⟨⟩; decide⟩

/-- The calls of `PROTO_MakeRegistMsg`. -/
def registCalls (pcDeviceSerial pcDeviceName : List Byte) : List BuilderCall :=
  [.makeDataHead protocolRegist, .addOneItem (stringItem "DeviceSerial" pcDeviceSerial),
    .addOneItem (stringItem "DeviceName" pcDeviceName)]

/-- The calls of `PROTO_MakeSdpMsg`. -/
def sdpCalls (sdp : Option (List Byte)) (sdpLen : Int) (held : ∀ v ∈ sdp, sdpLen ≤ v.length) :
    List BuilderCall :=
  [.makeDataHead protocolReplyAsksdp, .addOneItem retItem, .addOneItem ⟨some (ascii "Data"), sdp, sdpLen, held⟩]

/-- The calls of `PROTO_MakeAVDataMsg`. -/
def avDataCalls (data : Option (List Byte)) (type : List Byte) (dataLen : Int)
    (held : ∀ v ∈ data, dataLen ≤ v.length) : List BuilderCall :=
  [.makeDataHead protocolReplyAskdata, .addOneItem retItem, .addOneItem (stringItem "Type" type),
    .addOneItem ⟨some (ascii "Data"), data, dataLen, held⟩]

section
variable (array : Nat) (s : ProtoStMsg)

theorem run_stringItem (name : String) (value : List Byte) :
    (BuilderCall.addOneItem (stringItem name value)).run array s =
      protoAddOneItem array s (some (ascii name)) (some value) (strlenInt value) := by
  rw [BuilderCall.run, Item.add, stringItem]

theorem follows_makeRegistMsg (pcDeviceSerial pcDeviceName : List Byte) :
    BuilderCall.Follows array s (registCalls pcDeviceSerial pcDeviceName)
      (protoMakeRegistMsg array s pcDeviceSerial pcDeviceName) := by
  unfold protoMakeRegistMsg registCalls
  simp only [← run_stringItem]
  exact .cons fun _ _ => .cons fun _ _ => .last

theorem follows_makeSdpMsg (sdp : Option (List Byte)) (sdpLen : Int) (held : ∀ v ∈ sdp, sdpLen ≤ v.length) :
    BuilderCall.Follows array s (sdpCalls sdp sdpLen held) (protoMakeSdpMsg array s sdp sdpLen) :=
  .cons fun _ _ => .cons fun _ _ => .last

/-- It stops early when an item is refused. -/
theorem follows_makeAVDataMsg (data : Option (List Byte)) (type : List Byte) (dataLen : Int)
    (held : ∀ v ∈ data, dataLen ≤ v.length) :
    BuilderCall.Follows array s (avDataCalls data type dataLen held)
      (protoMakeAVDataMsg array s data type dataLen) := by
  unfold protoMakeAVDataMsg avDataCalls
  simp only [← run_stringItem]
  refine .cons fun _ _ => .cons fun ret t => ?_
  by_cases refused : ret < 0
  · simp only [refused, if_true]
    exact .stop (-1)
  · simp only [refused, if_false]
    refine .cons fun ret t => ?_
    by_cases refused : ret < 0
    · simp only [refused, if_true]
      exact .stop (-2)
    · simp only [refused, if_false]
      refine .cons fun ret t => ?_
      split <;> exact .stop _

end

/-- **A sequence of calls keeps to its memory exactly when every command fits its array and every item is
refused where it is added**; the builders of several items are such sequences. In an array of another size
an item must fit that array and the room behind the message. -/
theorem messages_inside_iff (s : ProtoStMsg) (room : protocolHeadLength ≤ s.total) (len : s.len ≤ s.total) :
    (∀ calls, BuilderCall.Always acLenSize (BuilderCall.Respects acLenSize) s calls ↔
      BuilderCall.Always acLenSize BuilderCall.Refused s calls) ∧
    (∀ array calls, BuilderCall.Always array (BuilderCall.Respects array) s calls ↔
      BuilderCall.Always array (BuilderCall.Fits array) s calls) ∧
    (∀ pcDeviceSerial pcDeviceName, BuilderCall.Follows acLenSize s (registCalls pcDeviceSerial pcDeviceName)
      (protoMakeRegistMsg acLenSize s pcDeviceSerial pcDeviceName)) ∧
    (∀ sdp sdpLen held, BuilderCall.Follows acLenSize s (sdpCalls sdp sdpLen held)
      (protoMakeSdpMsg acLenSize s sdp sdpLen)) ∧
    ∀ data type dataLen held, BuilderCall.Follows acLenSize s (avDataCalls data type dataLen held)
      (protoMakeAVDataMsg acLenSize s data type dataLen) := by
  refine ⟨fun calls => ?_, fun array calls => BuilderCall.always_iff room len, follows_makeRegistMsg acLenSize s,
    follows_makeSdpMsg acLenSize s, follows_makeAVDataMsg acLenSize s⟩
  have declared : BuilderCall.Fits acLenSize = BuilderCall.Refused := by
    funext a call
    exact propext BuilderCall.fits_declared_iff
  rw [BuilderCall.always_iff room len, declared]

/-- An item whose value is longer than six digits can say. -/
def longItem : Item := ⟨some [97], none, 0x1000000, nofun⟩

/-- A head and a refused item keep to the memory as it is declared; with two more bytes in `acLen` an item
that ends before the buffer does too. -/
theorem messages_inside_sample :
    BuilderCall.Always acLenSize (BuilderCall.Respects acLenSize) freshMessage
      [.makeDataHead 1, .addOneItem longItem] ∧
    BuilderCall.Always 7 (BuilderCall.Respects 7) freshMessage [.makeDataHead 1, .addOneItem oneItem] := by
  have rule := messages_inside_iff freshMessage (by decide) (by decide)
  have four : (int2str 1 protocolCmdLength).length < 5 := by decide
  refine ⟨(rule.1 _).mpr (.cons four fun t _ => .cons (fun yes => absurd yes.value (by decide)) fun _ _ => .nil),
    (rule.2.1 7 _).mpr (.cons four fun t made =>
      .cons (fun yes => ?_) fun _ _ => .nil)⟩
  cases made
  exact ⟨⟨by decide, by decide, by decide, by decide, by decide⟩, by decide, by decide, by decide⟩

/-- A registration in a buffer of 32 bytes overruns `acLen` with its first item, and with two more bytes
there the end of the buffer. -/
theorem regist_overruns : protoMakeRegistMsg acLenSize freshMessage [65] [66] = none ∧
    protoMakeRegistMsg 7 freshMessage [65] [66] = none ∧
    ¬ BuilderCall.Always acLenSize (BuilderCall.Respects acLenSize) freshMessage (registCalls [65] [66]) := by
  have stops : ∃ t, BuilderCall.step acLenSize freshMessage (.makeDataHead protocolRegist) = some t ∧
      (BuilderCall.addOneItem (stringItem "DeviceSerial" [65])).run acLenSize t = none :=
    ⟨_, rfl, by decide +kernel⟩
  obtain ⟨t, head, overrun⟩ := stops
  refine ⟨by decide +kernel, by decide +kernel, fun always => ?_⟩
  obtain ⟨ret, next, run, -⟩ := always [.makeDataHead protocolRegist] (.addOneItem (stringItem "DeviceSerial" [65])) t
    (by simp [registCalls]) (.single head trivial)
  cases overrun.symm.trans run

end GreatEvent
