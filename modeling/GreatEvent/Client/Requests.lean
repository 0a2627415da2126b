import GreatEvent.Client.PlayBackClient
import GreatEvent.Net.NetProtocol

/-!
# The texts of the player's requests

`Start`, `SetPlayPause` and `Seek` print their requests, numbers as `%d` of
an unsigned value. Here is what each puts on the wire, and that the lookups
of `PROTO_GetValueByName` find its attributes again, whatever lies behind the
request in the receive buffer.
-/

namespace GreatEvent

open Lib

/-- A request of the player. -/
inductive Request where
  | start (dwStart dwEnd : UInt32)
  | setpause (bPause : Bool)
  | seek (dwStart : UInt32)

namespace Request

/-- The call that makes the request: whether it has been sent. -/
def issue (accepts : Nat) : Request → PlayBackClient → Bool × PlayBackClient
  | start dwStart dwEnd, c => c.start accepts dwStart dwEnd
  | setpause bPause, c => c.setPlayPause accepts bPause
  | seek dwStart, c => ((c.seek accepts dwStart).1.isSome, (c.seek accepts dwStart).2)

/-- What it sends. -/
def payload : Request → List Byte
  | start dwStart dwEnd => startText dwStart dwEnd ++ [0]
  | setpause bPause => setpauseText bPause
  | seek dwStart => seekText dwStart ++ [0]

/-- The index it is sent under. -/
def index : Request → PlayBackClient → UInt32
  | seek _, c => (NetDataClient.getIndex c.net.m_nIndex).toUInt64.toUInt32
  | _, _ => 0

/-- The texts fit the player's `char szCmd[100]`. -/
theorem length_payload_le (r : Request) : r.payload.length ≤ 100 := by
  have printed : ∀ v, (printInt (asInt v)).length ≤ 11 := fun v =>
    length_printInt_le (asInt_range v).1 (asInt_range v).2
  cases r with
  | start dwStart dwEnd =>
    have first := printed dwStart
    have second := printed dwEnd
    have front : (ascii "<control name=\"start\" tmstart=\"").length = 31 := by decide
    have middle : (ascii "\" tmend=\"").length = 9 := by decide
    have back : (ascii "\" />").length = 4 := by decide
    simp only [payload, startText, List.length_append, List.length_singleton]
    omega
  | setpause bPause => cases bPause <;> decide
  | seek dwStart =>
    have only := printed dwStart
    have front : (ascii "<control name=\"seek\" value=\"").length = 28 := by decide
    have back : (ascii "\"/>").length = 3 := by decide
    simp only [payload, seekText, List.length_append, List.length_singleton]
    omega

theorem payload_ne_nil (r : Request) : r.payload ≠ [] := by
  cases r with
  | start dwStart dwEnd => exact List.cons_ne_nil _ _
  | setpause bPause => cases bPause <;> exact List.cons_ne_nil _ _
  | seek dwStart => exact List.cons_ne_nil _ _

/-- The frame it sends. -/
def frame (r : Request) (index : UInt32) : Frame where
  cmd := ⟨netFlag, ModuleMsg.controlPlay.code, index, UInt32.ofNat r.payload.length⟩
  body := r.payload
  body_len := by
    have short := r.length_payload_le
    exact (UInt32.toNat_ofNat_of_lt' (by simp only [UInt32.size]; omega)).symm

end Request

/-! ## What is sent -/

namespace NetDataClient

section
variable {accepts : Nat} {c : NetDataClient}

/-- What `Send` reports as sent is on the wire. -/
theorem send_sent {bytes : List Byte} (sent : (c.send accepts bytes).1 = true) :
    (c.send accepts bytes).2 = { c with wire := c.wire ++ bytes } := by
  unfold send at sent ⊢
  split at sent
  case isFalse => cases sent
  case isTrue isOpen =>
    rw [if_pos isOpen, List.take_of_length_le (of_decide_eq_true sent)]

/-- A message that `SendCmd` reports as sent is on the wire. -/
theorem sendCmd_sent {dwCmd : ModuleMsg} {dwIndex : UInt32} {lpData : List Byte}
    (some : lpData ≠ []) (sent : (c.sendCmd accepts dwCmd dwIndex lpData).1 = true) :
    (c.sendCmd accepts dwCmd dwIndex lpData).2 = { c with wire := c.wire ++
      ((⟨netFlag, dwCmd.code, dwIndex, UInt32.ofNat lpData.length⟩ : NetCmd).bytes ++ lpData) } := by
  have long : lpData.length ≠ 0 := fun none' => some (List.eq_nil_of_length_eq_zero none')
  unfold sendCmd at sent ⊢
  dsimp only at sent ⊢
  split at sent
  case isFalse => cases sent
  case isTrue head =>
    rw [if_pos head, if_neg long, send_sent sent, send_sent head, List.append_assoc]

end

end NetDataClient

namespace Request

/-- **What a request puts on the wire.** -/
theorem issue_puts {r : Request} {accepts : Nat} {c c' : PlayBackClient} {f : List Byte}
    (issued : r.issue accepts c = (true, c')) (put : c'.net.wire = c.net.wire ++ f) (sent : f ≠ []) :
    f = (r.frame (r.index c)).bytes := by
  cases r with
  | start dwStart dwEnd =>
    obtain ⟨ok, rfl⟩ := Prod.mk.inj issued
    have text : startText dwStart dwEnd ++ [0] ≠ [] := payload_ne_nil (.start dwStart dwEnd)
    dsimp only at put
    rw [NetDataClient.sendCmd_sent text ok] at put
    exact (List.append_cancel_left put).symm
  | setpause bPause =>
    have text : setpauseText bPause ≠ [] := payload_ne_nil (.setpause bPause)
    change c.setPlayPause accepts bPause = _ at issued
    unfold PlayBackClient.setPlayPause at issued
    split at issued
    · obtain ⟨-, rfl⟩ := Prod.mk.inj issued
      exact absurd (List.self_eq_append_right.mp put) sent
    · split at issued
      · cases (Prod.mk.inj issued).1
      · split at issued
        · cases (Prod.mk.inj issued).1
        · obtain ⟨ok, rfl⟩ := Prod.mk.inj issued
          dsimp only at put
          rw [NetDataClient.sendCmd_sent text ok] at put
          exact (List.append_cancel_left put).symm
  | seek dwStart =>
    obtain ⟨ok, rfl⟩ := Prod.mk.inj issued
    have text : seekText dwStart ++ [0] ≠ [] := payload_ne_nil (.seek dwStart)
    unfold PlayBackClient.seek NetDataClient.execCmd at ok put
    dsimp only at ok put
    split at ok
    case isFalse => cases ok
    case isTrue all =>
      rw [if_pos all, NetDataClient.sendCmd_sent text all] at put
      exact (List.append_cancel_left put).symm

/-! ## What the server finds in it -/

/-- A printed number holds no quote, no NUL and no `t`, and fits `acValue`. -/
theorem printed_text (v : UInt32) : (34 : Byte) ∉ printInt (asInt v) ∧ (0 : Byte) ∉ printInt (asInt v) ∧
    (116 : Byte) ∉ printInt (asInt v) ∧ (printInt (asInt v)).length < acValueLen := by
  have absent : ∀ b : Byte, b ≠ 45 → isDigit b = false → b ∉ printInt (asInt v) := by
    intro b minus other member
    rcases mem_printInt member with same | digit
    · exact minus same
    · rw [other] at digit
      cases digit
  refine ⟨absent 34 (by decide) (by decide), absent 0 (by decide) (by decide),
    absent 116 (by decide) (by decide), ?_⟩
  have short := length_printInt_le (asInt_range v).1 (asInt_range v).2
  unfold acValueLen
  omega

section
variable {buff stale : List Byte}

/-- The three lookups in a start request. -/
theorem start_found {dwStart dwEnd : UInt32}
    (text : buff.drop packHeadLen = (start dwStart dwEnd).payload ++ stale) :
    attrValue buff (ascii "name") = some (ascii "start") ∧
    attrValue buff (ascii "tmstart") = some (printInt (asInt dwStart)) ∧
    attrValue buff (ascii "tmend") = some (printInt (asInt dwEnd)) := by
  have whole : buff.drop packHeadLen = ascii "<control name=\"start\" tmstart=\"" ++
      (printInt (asInt dwStart) ++ (34 :: (ascii " tmend=\"" ++
        (printInt (asInt dwEnd) ++ (34 :: (ascii " />" ++ 0 :: stale)))))) := by
    rw [text]
    simp only [payload, startText, List.append_assoc]
    rfl
  obtain ⟨quote, nul, head, short⟩ := printed_text dwStart
  obtain ⟨quote', nul', -, short'⟩ := printed_text dwEnd
  have name : strstr (ascii "name") (buff.drop packHeadLen) = some (some (ascii "name" ++
      61 :: 34 :: (ascii "start" ++ 34 :: (ascii " tmstart=\"" ++
        (printInt (asInt dwStart) ++ (34 :: (ascii " tmend=\"" ++
          (printInt (asInt dwEnd) ++ (34 :: (ascii " />" ++ 0 :: stale)))))))))) := by
    rw [whole]
    rfl
  have tmstart : strstr (ascii "tmstart") (buff.drop packHeadLen) = some (some (ascii "tmstart" ++
      61 :: 34 :: (printInt (asInt dwStart) ++ 34 :: (ascii " tmend=\"" ++
        (printInt (asInt dwEnd) ++ (34 :: (ascii " />" ++ 0 :: stale))))))) := by
    rw [whole]
    rfl
  have tmend : strstr (ascii "tmend") (buff.drop packHeadLen) = some (some (ascii "tmend" ++
      61 :: 34 :: (printInt (asInt dwEnd) ++ 34 :: (ascii " />" ++ 0 :: stale)))) := by
    -- the search passes `tmstart`, then the number, in which no `t` occurs
    have passes : strstr (ascii "tmend") (buff.drop packHeadLen) =
        strstr (ascii "tmend") (printInt (asInt dwStart) ++ (34 :: (ascii " tmend=\"" ++
          (printInt (asInt dwEnd) ++ (34 :: (ascii " />" ++ 0 :: stale)))))) := by
      rw [whole]
      rfl
    rw [passes]
    exact strstr_append_of_not_mem head nul
  exact ⟨attrValue_found name (by decide) (by decide) (by decide),
    attrValue_found tmstart quote nul short, attrValue_found tmend quote' nul' short'⟩

/-- The two lookups in a pause request. -/
theorem setpause_found {bPause : Bool}
    (text : buff.drop packHeadLen = (setpause bPause).payload ++ stale) :
    attrValue buff (ascii "name") = some (ascii "setpause") ∧
    attrValue buff (ascii "value") = some (if bPause then ascii "1" else ascii "0") := by
  generalize same : (if bPause then ascii "1" else ascii "0") = digit
  have quote : (34 : UInt8) ∉ digit := by rw [← same]; cases bPause <;> decide
  have nul : (0 : UInt8) ∉ digit := by rw [← same]; cases bPause <;> decide
  have short : digit.length < acValueLen := by rw [← same]; cases bPause <;> decide
  have whole : buff.drop packHeadLen = ascii "<control name=\"setpause\" value=\"" ++
      (digit ++ (34 :: (ascii "/>" ++ stale))) := by
    have parts : setpauseText bPause = ascii "<control name=\"setpause\" value=\"" ++ (digit ++ 34 :: ascii "/>") := by
      rw [← same]
      cases bPause <;> decide
    rw [text, payload, parts]
    simp only [List.append_assoc, List.cons_append]
  have name : strstr (ascii "name") (buff.drop packHeadLen) = some (some (ascii "name" ++
      61 :: 34 :: (ascii "setpause" ++ 34 :: (ascii " value=\"" ++
        (digit ++ (34 :: (ascii "/>" ++ stale))))))) := by
    rw [whole]
    rfl
  have value : strstr (ascii "value") (buff.drop packHeadLen) = some (some (ascii "value" ++
      61 :: 34 :: (digit ++ 34 :: (ascii "/>" ++ stale)))) := by
    rw [whole]
    rfl
  exact ⟨attrValue_found name (by decide) (by decide) (by decide), attrValue_found value quote nul short⟩

/-- The two lookups in a seek request. -/
theorem seek_found {dwStart : UInt32}
    (text : buff.drop packHeadLen = (seek dwStart).payload ++ stale) :
    attrValue buff (ascii "name") = some (ascii "seek") ∧
    attrValue buff (ascii "value") = some (printInt (asInt dwStart)) := by
  have whole : buff.drop packHeadLen = ascii "<control name=\"seek\" value=\"" ++
      (printInt (asInt dwStart) ++ (34 :: (ascii "/>" ++ 0 :: stale))) := by
    rw [text]
    simp only [payload, seekText, List.append_assoc]
    rfl
  obtain ⟨quote, nul, -, short⟩ := printed_text dwStart
  have name : strstr (ascii "name") (buff.drop packHeadLen) = some (some (ascii "name" ++
      61 :: 34 :: (ascii "seek" ++ 34 :: (ascii " value=\"" ++
        (printInt (asInt dwStart) ++ (34 :: (ascii "/>" ++ 0 :: stale))))))) := by
    rw [whole]
    rfl
  have value : strstr (ascii "value") (buff.drop packHeadLen) = some (some (ascii "value" ++
      61 :: 34 :: (printInt (asInt dwStart) ++ 34 :: (ascii "/>" ++ 0 :: stale)))) := by
    rw [whole]
    rfl
  exact ⟨attrValue_found name (by decide) (by decide) (by decide),
    attrValue_found value quote nul short⟩

end

end Request

end GreatEvent
