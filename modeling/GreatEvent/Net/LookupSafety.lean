import GreatEvent.Net.AttributeLookup
import GreatEvent.Server.RecvBuffer

/-!
# What a command can make the lookup read and write

The tasks look their attributes up in a zero-filled receive buffer. The scan
for the closing quote ends at a quote and at nothing else, and what it has
scanned is copied into `acValue` whatever its length. `lookup_safe_iff` says
which commands keep both inside.
-/

namespace GreatEvent

open Lib

/-- The names that `TaskPlayback` and `TaskFileSend` look up. -/
def queriedNames : List (List Byte) := [ascii "name", ascii "tmstart", ascii "tmend", ascii "value"]

/-- The text behind the header of a command in a zero-filled receive buffer. -/
def commandText (payload : List Byte) : List Byte :=
  payload ++ List.replicate (textRoom - payload.length) 0

/-- The receive buffer with a command in it. -/
def commandBuffer (cmd : NetCmd) (payload : List Byte) : List Byte := cmd.bytes ++ commandText payload

/-- The lookup comes back without having read past the buffer, and the value it has copied leaves
`acValue` its terminator. -/
def LookupSafe (pData pName : List Byte) : Prop :=
  ∃ l, protoGetValueByName pData pName = some l ∧ l.value.length ≤ 255 ∧ 0 ∈ l.store acValueZero

/-- A value of up to 255 bytes is terminated. -/
theorem nul_mem_store {l : Lookup} (short : l.value.length ≤ 255) : 0 ∈ l.store acValueZero := by
  obtain ⟨n, room⟩ : ∃ n, acValueLen - l.value.length = n + 1 :=
    ⟨255 - l.value.length, by rw [acValueLen]; omega⟩
  rw [Lookup.store, poke_zero, acValueZero, List.drop_replicate, room, List.replicate_succ]
  simp

/-- **Which lookups are safe**: the first occurrence of the name in the text, if it has an `=` behind it,
has a value that is closed in the text and has at most 255 bytes. -/
theorem lookup_safe_iff (cmd : NetCmd) (payload pName : List Byte) :
    LookupSafe (commandBuffer cmd payload) pName ↔
      Closes (fun value => value.length ≤ 255) pName (commandText payload) := by
  have text : (commandBuffer cmd payload).drop packHeadLen = commandText payload :=
    List.drop_left' (NetCmd.length_bytes cmd)
  have fits : Closes (fun value => value.length ≤ 255) pName (commandText payload) ↔
      Closes (fun value => value.length ≤ acValueLen ∧ value.length ≤ 255) pName (commandText payload) :=
    ⟨fun closes => closes.imp fun _ short => ⟨Nat.le_succ_of_le short, short⟩,
      fun closes => closes.imp fun _ => And.right⟩
  rw [fits, ← text, closes_iff (Nat.zero_le _)]
  constructor
  · exact fun ⟨l, result, short, _⟩ => ⟨l, result, short⟩
  · exact fun ⟨l, result, short⟩ => ⟨l, result, short, nul_mem_store short⟩

/-- Every lookup of a command stays inside its buffers. -/
def CommandSafe (cmd : NetCmd) (payload : List Byte) : Prop :=
  ∀ pName ∈ queriedNames, LookupSafe (commandBuffer cmd payload) pName

/-- **A value that is not closed** is scanned past the end of the buffer. -/
theorem command_unsafe :
    ¬ ∀ (cmd : NetCmd) (payload : List Byte), payload.length ≤ 1483 → CommandSafe cmd payload := by
  intro safe
  have unclosed : protoGetValueByName
      (commandBuffer ⟨netFlag, ModuleMsg.controlPlay.code, 0, 20⟩ (ascii "<control name=\"start"))
      (ascii "name") = none := by
    decide +kernel
  obtain ⟨l, result, -⟩ := safe _ (ascii "<control name=\"start") (by decide) (ascii "name") List.mem_cons_self
  rw [unclosed] at result
  cases result

end GreatEvent
