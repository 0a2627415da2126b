import GreatEvent.Server.Login

/-!
# What a login decision depends on

`mReadBuff` is not initialised, and a payload brings no terminator along. A
lookup that ends inside the payload finds the same whatever lies behind it
(`getValue_append`); one that does not runs into what was there before, and
then on past the buffer if that is like `stale` (`getValue_stale`). So a
decision depends on the frame alone just when the lookups it takes end inside
the payload (`login_decided_iff`).
-/

namespace GreatEvent

open Lib FrameReader

/-- Memory in which no lookup ends: no NUL, no quote, no byte of a name. -/
def stale (n : Nat) : List Byte := (61 :: List.replicate n 255).take n

theorem length_stale (n : Nat) : (stale n).length = n := by
  rw [stale, List.length_take, List.length_cons, List.length_replicate]
  omega

theorem mem_stale {n : Nat} {b : Byte} (member : b ∈ stale n) : b = 61 ∨ b = 255 := by
  rcases List.mem_cons.mp (List.mem_of_mem_take member) with equals | later
  · exact .inl equals
  · exact .inr (List.eq_of_mem_replicate later)

theorem quote_stale (n : Nat) : (34 : Byte) ∉ stale n := by
  intro member
  rcases mem_stale member with impossible | impossible <;> exact absurd impossible (by decide)

theorem head_stale {n : Nat} {c : Byte} {rest : List Byte} (split : stale n = c :: rest) : c = 61 := by
  cases n with
  | zero => cases split
  | succ n => exact (List.cons.inj split).1.symm

/-- A name that does not occur in such memory. -/
structure ApartFromStale (pName : List Byte) : Prop where
  some' : pName ≠ []
  nul : 0 ∉ pName
  equals : 61 ∉ pName
  filler : 255 ∉ pName

section
variable {pData pName : List Byte}

/-- What a value is closed by behind some memory was in front of it. -/
theorem closed_before {tail value more : List Byte} {n : Nat}
    (split : tail ++ stale n = value ++ 34 :: more) : ∃ more', tail = value ++ 34 :: more' := by
  rcases List.append_eq_append_iff.mp split with ⟨between, rfl, behind⟩ | ⟨between, rfl, behind⟩
  · exact absurd (by rw [behind]; simp) (quote_stale n)
  · cases between with
    | nil => exact absurd (by rw [← List.nil_append (stale n), ← behind]; simp) (quote_stale n)
    | cons b between =>
      obtain ⟨rfl, -⟩ := List.cons.inj behind
      exact ⟨between, rfl⟩

/-- A lookup that finds something with the fillers behind finds something without them. -/
theorem comes_of_stale (proper : ApartFromStale pName) (long : packHeadLen ≤ pData.length) {n : Nat} {l : Lookup}
    (outcome : protoGetValueByName (pData ++ stale n) pName = some l) : ∃ l, Comes pData pName l := by
  have behind : (pData ++ stale n).drop packHeadLen = pData.drop packHeadLen ++ stale n :=
    List.drop_append_of_le_length long
  have apart : ∀ b ∈ stale n, b ∉ pName ∧ b ≠ 0 := by
    intro b member
    rcases mem_stale member with rfl | rfl
    · exact ⟨proper.equals, by decide⟩
    · exact ⟨proper.filler, by decide⟩
  cases search : strstr pName (pData.drop packHeadLen) with
  | none =>
    -- no occurrence before the payload ends, and none behind it
    have none' := strstr_append_none search proper.some' apart
    rw [← behind] at none'
    rcases getValue_iff.mp outcome with search' | ⟨search', -⟩ | ⟨search', -, -⟩
    all_goals
      rw [none'] at search'
      cases search'
  | some answer =>
    cases answer with
    | none => exact ⟨_, .absent search⟩
    | some p =>
      obtain ⟨tail, rfl⟩ := prefix_of_strstr search
      have same := strstr_append search proper.nul (stale n)
      rw [← behind, Option.map_some, List.append_assoc] at same
      have rest : ∀ {more}, strstr pName ((pData ++ stale n).drop packHeadLen) = some (some (pName ++ more)) →
          tail ++ stale n = more := by
        intro more search'
        exact List.append_cancel_left (Option.some.inj (Option.some.inj (same.symm.trans search')))
      rcases getValue_iff.mp outcome with search' | ⟨search', differs⟩ | ⟨search', closed, fits⟩
      · rw [same] at search'
        cases search'
      · have split := rest search'
        cases tail with
        | nil => exact absurd (head_stale split) differs
        | cons c tail =>
          obtain ⟨rfl, -⟩ := List.cons.inj split
          exact ⟨_, .other search differs⟩
      · have split := rest search'
        cases tail with
        | nil => exact absurd (by rw [show stale n = _ from split]; simp) (quote_stale n)
        | cons c tail =>
          obtain ⟨rfl, behind'⟩ := List.cons.inj split
          cases tail with
          | nil => exact absurd (by rw [show stale n = _ from behind']; simp) (quote_stale n)
          | cons skipped tail =>
            obtain ⟨rfl, value'⟩ := List.cons.inj behind'
            obtain ⟨more, rfl⟩ := closed_before value'
            exact ⟨_, .found search closed fits⟩

/-- **A lookup that does not end in the text** runs past the buffer on such memory. -/
theorem getValue_stale (proper : ApartFromStale pName) (long : packHeadLen ≤ pData.length)
    (lost : protoGetValueByName pData pName = none) (n : Nat) :
    protoGetValueByName (pData ++ stale n) pName = none := by
  cases outcome : protoGetValueByName (pData ++ stale n) pName with
  | none => rfl
  | some l =>
    obtain ⟨l', comes⟩ := comes_of_stale proper long outcome
    rw [getValue_iff.mpr comes] at lost
    cases lost

end

/-! ## The decision -/

/-- A value that leaves `acValue` a string. -/
def StaysString (value : List Byte) : Prop := value.length ≤ acValueLen ∧ (value.length = acValueLen → 0 ∈ value)

/-- The lookups that the payload of a login leads to end inside it. -/
def EndsInside (body : List Byte) : Prop :=
  Closes StaysString (ascii "play path") body ∧
    (NamesNothing (ascii "play path") body → Closes StaysString (ascii "get path") body)

/-- What a login asks for when `mReadBuff` held `mem` before it: a path, and the task that is to be created
for it if there is one. -/
def loginDecision (f : Frame) (mem : List Byte) : Option (List Byte × Option TaskKind) :=
  Session.requestIn (f.bytes ++ mem.drop f.bytes.length)

/-- A value that fits leaves a string in an `acValue` whose last byte is 0, and one that does not leaves
none. -/
theorem nul_mem_iff {l : Lookup} (short : l.value.length ≤ acValueLen) {front : List Byte}
    (length : front.length + 1 = acValueLen) : 0 ∈ l.store (front ++ [0]) ↔ StaysString l.value := by
  have all : (front ++ [0]).length = acValueLen := by simpa using length
  rw [Lookup.store, poke_zero]
  by_cases full : l.value.length = acValueLen
  · rw [List.drop_eq_nil_of_le (by omega), List.append_nil]
    exact ⟨fun nul => ⟨short, fun _ => nul⟩, fun fits => fits.2 full⟩
  · rw [List.drop_append_of_le_length (by omega)]
    exact ⟨fun _ => ⟨short, fun same => absurd same full⟩, fun _ => by simp⟩

/-- With a value that does not fill it, `acValue` ends in a 0. -/
theorem store_zero {l : Lookup} (short : l.value.length < acValueLen) :
    ∃ front, front.length + 1 = acValueLen ∧ l.store acValueZero = front ++ [0] := by
  refine ⟨l.value ++ List.replicate (acValueLen - l.value.length - 1) 0, ?_, ?_⟩
  · rw [List.length_append, List.length_replicate]
    omega
  · obtain ⟨n, room⟩ : ∃ n, acValueLen - l.value.length = n + 1 := ⟨acValueLen - l.value.length - 1, by omega⟩
    rw [Lookup.store, poke_zero, acValueZero, List.drop_replicate, room, Nat.add_sub_cancel,
      List.replicate_succ', List.append_assoc]

theorem acValueZero_eq : ∃ front, front.length + 1 = acValueLen ∧ acValueZero = front ++ [0] :=
  ⟨List.replicate 255 0, by rw [List.length_replicate]; rfl, List.replicate_succ'⟩

theorem stringIn_eq_some {buf : List Byte} : (∃ s, stringIn buf = some s) ↔ 0 ∈ buf := by
  unfold stringIn
  split
  case isTrue nul => exact ⟨fun _ => nul, fun _ => ⟨_, rfl⟩⟩
  case isFalse open' =>
    constructor
    · rintro ⟨s, none'⟩
      cases none'
    · exact fun nul => absurd nul open'

namespace Session

section
variable {buff : List Byte} {f : Frame}

/-- **A request is found** just when the lookups end in the text. -/
theorem requestIn_some_iff : (∃ d, requestIn buff = some d) ↔ EndsInside (buff.drop packHeadLen) := by
  have ends : ∀ name, Closes StaysString name (buff.drop packHeadLen) ↔
      ∃ l, protoGetValueByName buff name = some l ∧ (l.value.length = acValueLen → 0 ∈ l.value) :=
    fun name => closes_iff fun full => absurd full (by decide)
  have fits : ∀ {name l}, protoGetValueByName buff name = some l → l.value.length ≤ acValueLen := by
    intro name l found
    rcases getValue_iff.mp found with search | ⟨search, differs⟩ | ⟨search, closed, fits⟩
    · exact Nat.zero_le _
    · exact Nat.zero_le _
    · exact fits
  obtain ⟨front, length, zeroed⟩ := acValueZero_eq
  rw [EndsInside, ends, ends, namesNothing_iff]
  constructor
  · rintro ⟨d, request⟩
    obtain ⟨play, found, request⟩ := Option.bind_eq_some_iff.mp request
    split at request
    case isTrue some' =>
      obtain ⟨filename, string, -⟩ := Option.bind_eq_some_iff.mp request
      have nul := stringIn_eq_some.mp ⟨_, string⟩
      rw [zeroed] at nul
      refine ⟨⟨play, found, ((nul_mem_iff (fits found) length).mp nul).2⟩, ?_⟩
      rintro ⟨play', found', none'⟩
      cases found.symm.trans found'
      omega
    case isFalse none' =>
      have short := (pValueLen_le_iff found).mp (by omega)
      obtain ⟨get, found', request⟩ := Option.bind_eq_some_iff.mp request
      obtain ⟨filename, string, -⟩ := Option.bind_eq_some_iff.mp request
      have nul := stringIn_eq_some.mp ⟨_, string⟩
      obtain ⟨front', length', zeroed'⟩ := store_zero (l := play) (by rw [acValueLen]; omega)
      rw [zeroed'] at nul
      exact ⟨⟨play, found, fun full => absurd (full.symm.trans_le short) (by decide)⟩,
        fun _ => ⟨get, found', ((nul_mem_iff (fits found') length').mp nul).2⟩⟩
  · rintro ⟨⟨play, found, terminated⟩, later⟩
    rw [requestIn, found]
    simp only [Option.bind_eq_bind, Option.bind_some]
    split
    case isTrue some' =>
      have nul := (nul_mem_iff (fits found) length).mpr ⟨fits found, terminated⟩
      rw [← zeroed] at nul
      obtain ⟨filename, string⟩ := stringIn_eq_some.mpr nul
      exact ⟨_, by rw [string]; rfl⟩
    case isFalse none' =>
      have short := (pValueLen_le_iff found).mp (by omega)
      obtain ⟨get, found', terminated'⟩ := later ⟨play, found, by omega⟩
      obtain ⟨front', length', zeroed'⟩ := store_zero (l := play) (by rw [acValueLen]; omega)
      have nul := (nul_mem_iff (fits found') length').mpr ⟨fits found', terminated'⟩
      rw [← zeroed'] at nul
      obtain ⟨filename, string⟩ := stringIn_eq_some.mpr nul
      exact ⟨_, by rw [found', Option.bind_some, string]; rfl⟩

/-- It is found in any memory behind the text. -/
theorem requestIn_append {d : List Byte × Option TaskKind} (request : requestIn buff = some d)
    (long : packHeadLen ≤ buff.length) (t : List Byte) : requestIn (buff ++ t) = some d := by
  obtain ⟨play, found, request⟩ := Option.bind_eq_some_iff.mp request
  rw [requestIn, getValue_append found long (by decide) t]
  simp only [Option.bind_eq_bind, Option.bind_some]
  split at request
  case isTrue some' =>
    rw [if_pos some']
    exact request
  case isFalse none' =>
    obtain ⟨get, found', request⟩ := Option.bind_eq_some_iff.mp request
    rw [if_neg none', getValue_append found' long (by decide) t]
    exact request

/-- One that is not found in the text is lost in stale memory behind it. -/
theorem requestIn_stale (request : requestIn buff = none) (long : packHeadLen ≤ buff.length) (n : Nat) :
    requestIn (buff ++ stale n) = none := by
  have same : ∀ name, ApartFromStale name → protoGetValueByName (buff ++ stale n) name = protoGetValueByName buff name := by
    intro name proper
    cases found : protoGetValueByName buff name with
    | none => exact getValue_stale proper long found n
    | some l => exact getValue_append found long proper.nul _
  have play : ApartFromStale (ascii "play path") := ⟨by decide, by decide, by decide, by decide⟩
  have get : ApartFromStale (ascii "get path") := ⟨by decide, by decide, by decide, by decide⟩
  rw [← request, requestIn, requestIn, same _ play, same _ get]

end

/-! ## Two calls with the same frame -/

/-- The tasks created, in order. -/
def createdIn (trace : List Obs) : List (TaskKind × List Byte) :=
  trace.filterMap fun
    | .create kind path => some (kind, path)
    | _ => none

/-- What a host lets a decision create. -/
def grants (host : Host) (d : List Byte × Option TaskKind) : List (TaskKind × List Byte) :=
  if host.access d.1 then d.2.toList.map fun kind => (kind, d.1) else []

/-- This call of `recvPackData` takes the decision `d`: it creates what the host grants of it, and returns 0
for a path that does not exist. If it does not come back it has got as far as the new task. -/
def Takes (w : World Session) (d : List Byte × Option TaskKind) : Prop :=
  wp (recvPackData dispatch)
    (fun ret t => createdIn (t.trace.drop w.trace.length) = grants w.obj.host d ∧
      (w.obj.host.access d.1 = false → ret = 0))
    (fun _ t => createdIn (t.trace.drop w.trace.length) = grants w.obj.host d ∧ grants w.obj.host d ≠ []) w

/-- **The decision depends on the frame alone**: two calls that complete it take the same, whatever was in
`mReadBuff` before. -/
def Decided (f : Frame) : Prop :=
  ∀ (w w' : World Session) (mem mem' p q p' q' : List Byte), LastPart w f mem p q → LastPart w' f mem' p' q' →
    w.obj.host = w'.obj.host → ∃ d, Takes w d ∧ Takes w' d

section
variable {w : World Session} {f : Frame} {mem p q : List Byte} {d : List Byte × Option TaskKind}

theorem createdIn_reading {obs : List Obs} (reading : AllReading obs) : createdIn obs = [] := by
  refine List.filterMap_eq_nil_iff.mpr fun o member => ?_
  have isReading := reading o member
  cases o <;> first | rfl | cases isReading

/-- With a request in the buffer the decision is taken. -/
theorem dispatch_takes {old obs : List Obs} (log : w.trace = old ++ obs) (reading : AllReading obs)
    (request : requestIn w.obj.mRead.buff = some d) :
    wp dispatch
      (Finishes fun ret t => createdIn (t.trace.drop old.length) = grants w.obj.host d ∧
        (w.obj.host.access d.1 = false → ret = 0))
      (fun _ t => createdIn (t.trace.drop old.length) = grants w.obj.host d ∧ grants w.obj.host d ≠ []) w := by
  have logged : ∀ more, createdIn ((w.trace ++ more).drop old.length) = createdIn more := by
    intro more
    rw [log, List.append_assoc, List.drop_left, createdIn, List.filterMap_append, ← createdIn, ← createdIn,
      createdIn_reading reading, List.nil_append]
  have still : createdIn (w.trace.drop old.length) = [] := by
    rw [← List.append_nil w.trace, logged]
    rfl
  -- what the constructors log besides creates nothing
  have created : ∀ {kind path}, d = (path, some kind) → w.obj.host.access path = true → ∀ more, createdIn more = [] →
      createdIn ((w.trace ++ (Obs.create kind path :: more)).drop old.length) = grants w.obj.host d := by
    rintro kind path rfl granted more quiet
    rw [logged, grants, if_pos granted, createdIn, List.filterMap_cons, ← createdIn, quiet]
    rfl
  have some' : ∀ {kind path}, d = (path, some kind) → w.obj.host.access path = true →
      grants w.obj.host d ≠ [] := by
    rintro kind path rfl granted
    rw [grants, if_pos granted]
    exact List.cons_ne_nil _ _
  refine wp_dispatch (fun none' => ?_) (fun path kind request' denied => ?_) (fun path request' granted => ?_)
    (fun path request' granted => ?_) (fun path request' granted => ?_)
  · rw [request] at none'
    cases none'
  all_goals obtain rfl := Option.some.inj (request.symm.trans request')
  · refine ⟨?_, fun _ => rfl⟩
    rw [still, grants, denied]
    rfl
  · intro ret pos
    refine ⟨?_, fun denied => ?_⟩
    · show createdIn (w.trace.drop old.length) = _
      rw [still, grants, if_pos granted]
      rfl
    · rw [granted] at denied
      cases denied
  · have known : ∀ more, createdIn more = [] →
        createdIn ((w.trace ++ (Obs.create .playback path :: more)).drop old.length) = _ := created rfl granted
    refine wp_newPlayback _ (fun _ => ?_) (fun mFfmpeg b wire sends _ _ => ?_)
      (fun mFfmpeg b wire sends _ => ?_)
    · exact ⟨known [] rfl, some' rfl granted⟩
    · intro ret pos
      exact ⟨known [_] rfl, fun denied => absurd (granted.symm.trans denied) (by decide)⟩
    · exact ⟨known [_] rfl, some' rfl granted⟩
  · have known : ∀ more, createdIn more = [] →
        createdIn ((w.trace ++ (Obs.create .fileSend path :: more)).drop old.length) = _ := created rfl granted
    refine wp_newFileSend _ (fun b wire sends _ => ?_) (fun b wire sends _ => ?_)
    · intro ret pos
      exact ⟨known [_] rfl, fun denied => absurd (granted.symm.trans denied) (by decide)⟩
    · exact ⟨known [_] rfl, some' rfl granted⟩

/-- A frame without a body is never completed. -/
theorem LastPart.body_ne_nil (last : LastPart w f mem p q) : f.body ≠ [] := by
  intro empty
  have length := congrArg List.length last.frame
  have more := List.length_pos_iff.mpr last.waiting
  rw [Frame.bytes, List.length_append, List.length_append, NetCmd.length_bytes, empty, List.length_nil] at length
  cases last.holds with
  | head _ inHead =>
    rw [last.inBody] at inHead
    cases inHead
  | body _ _ _ long => omega

/-- The last part of a login is read in front of what was in the buffer. -/
theorem buffer_last (last : LastPart w f mem p q) {b : RecvBuffer}
    (stored : b.buff = (p ++ q) ++ mem.drop (p ++ q).length) :
    requestIn b.buff = loginDecision f mem := by
  rw [stored, last.frame, loginDecision]

theorem takes_of_decision (last : LastPart w f mem p q) (decision : loginDecision f mem = some d) :
    Takes w d := by
  obtain ⟨rest, arrived⟩ := last.arrived
  obtain ⟨n, result, all⟩ := last.taken
  refine wp_recvPackData_last last.holds last.inBody last.sized (last.frame ▸ f.whole) last.waiting
    arrived.symm result all fun b recvs obs reading stored => ?_
  exact dispatch_takes (w := w.read b rest recvs obs) rfl reading ((buffer_last last stored).trans decision)

/-- Without a request no decision is taken. -/
theorem not_takes (last : LastPart w f mem p q) (lost : loginDecision f mem = none) : ¬ Takes w d := by
  intro takes
  obtain ⟨rest, arrived⟩ := last.arrived
  obtain ⟨n, result, all⟩ := last.taken
  have faults : wp (recvPackData dispatch) (fun _ _ => False)
      (fun _ t => createdIn (t.trace.drop w.trace.length) = []) w := by
    refine wp_recvPackData_last last.holds last.inBody last.sized (last.frame ▸ f.whole) last.waiting
      arrived.symm result all fun b recvs obs reading stored => ?_
    have none' : requestIn (w.read b rest recvs obs).obj.mRead.buff = none :=
      (buffer_last last stored).trans lost
    have quiet : createdIn ((w.trace ++ obs).drop w.trace.length) = [] := by
      rw [List.drop_left, createdIn_reading reading]
    refine wp_dispatch (fun _ => quiet) (fun _ _ request _ => ?_) (fun _ request _ => ?_)
      (fun _ request _ => ?_) (fun _ request _ => ?_)
    all_goals cases none'.symm.trans request
  refine (takes.and faults).mono ?_ ?_ |>.endState (P := fun _ => False)
  · exact fun _ _ both => both.2
  · exact fun _ _ ⟨⟨same, some'⟩, nothing⟩ => some' (same.symm.trans nothing)

end

section
variable {f : Frame}

/-- A frame without a settled payload is refused a decision by stale memory. -/
theorem not_decided (fits : f.bytes.length ≤ cmdLen) (some' : f.body ≠ []) (open' : ¬ EndsInside f.body) :
    ¬ Decided f := by
  intro decided
  have text : f.bytes.drop packHeadLen = f.body := List.drop_left' f.cmd.length_bytes
  have long : packHeadLen ≤ f.bytes.length := by
    rw [Frame.bytes, List.length_append, NetCmd.length_bytes]
    omega
  let raw : RawBuffer := ⟨List.replicate f.bytes.length 0 ++ stale (cmdLen - f.bytes.length), by
    rw [List.length_append, List.length_replicate, length_stale]
    omega⟩
  have lost : loginDecision f raw.1 = none := by
    have behind : raw.1.drop f.bytes.length = stale (cmdLen - f.bytes.length) :=
      List.drop_left' List.length_replicate
    rw [loginDecision, behind]
    refine requestIn_stale ?_ long _
    rw [← text, ← requestIn_some_iff] at open'
    exact Option.eq_none_iff_forall_ne_some.mpr fun d request => open' ⟨d, request⟩
  have last := bodyWaiting_lastPart sampleHost raw fits some'
  obtain ⟨d, takes, -⟩ := decided _ _ _ _ _ _ _ _ last last rfl
  exact not_takes last lost takes

/-- **When the login decision depends on the frame alone**: the lookups that its payload leads to end
inside the payload. -/
theorem login_decided_iff (fits : f.bytes.length ≤ cmdLen) : Decided f ↔ f.body = [] ∨ EndsInside f.body := by
  constructor
  · intro decided
    by_contra neither
    have neither := not_or.mp neither
    exact not_decided fits neither.1 neither.2 decided
  · rintro (empty | settled) w w' mem mem' p q p' q' last last' -
    · exact absurd last.body_ne_nil (not_not_intro empty)
    · have text : f.bytes.drop packHeadLen = f.body := List.drop_left' f.cmd.length_bytes
      have long : packHeadLen ≤ f.bytes.length := by
        rw [Frame.bytes, List.length_append, NetCmd.length_bytes]
        omega
      rw [← text] at settled
      obtain ⟨d, request⟩ := requestIn_some_iff.mpr settled
      exact ⟨d, takes_of_decision last (requestIn_append request long _),
        takes_of_decision last' (requestIn_append request long _)⟩

theorem login_decided_sample : Decided (loginFrame .playback twoBytes) ↔
    (loginFrame .playback twoBytes).body = [] ∨ EndsInside (loginFrame .playback twoBytes).body :=
  login_decided_iff (by decide)

/-- **A download is searched past its payload** for the name of a play request. -/
theorem download_not_decided : ¬ Decided (loginFrame .fileSend twoBytes) := by
  refine not_decided (by decide) (by decide) fun settled => ?_
  have lost : strstr (ascii "play path") (loginFrame .fileSend twoBytes).body = none := by decide +kernel
  rcases settled.1 with absent | ⟨c, rest, found, -⟩
  · rw [lost] at absent
    cases absent
  · rw [lost] at found
    cases found

end

end Session

end GreatEvent
