/-!
# Messages going out over a byte stream

A sender queues messages one after the other and its transport accepts them
in pieces. `Transmits wire messages unsent` says what has gone out so far:
with what is still to be sent it is the messages in their order, and all of
them but the last are out. Queueing a message when nothing is left
(`Transmits.queue`) and having some bytes accepted (`Transmits.send`) keep
it, so a receiver sees whole messages and at most one unfinished one.
-/

namespace Lib

variable {α : Type}

/-- `wire` has gone out of `messages`, `unsent` has not. -/
structure Transmits (wire : List α) (messages : List (List α)) (unsent : List α) : Prop where
  whole : wire ++ unsent = messages.flatten
  last : messages.dropLast.flatten <+: wire

namespace Transmits

variable {wire unsent sent : List α} {messages : List (List α)}

theorem nil : Transmits ([] : List α) [] [] := ⟨rfl, List.nil_prefix⟩

/-- With nothing left to send, a message is queued. -/
theorem queue (done : Transmits wire messages []) (message : List α) :
    Transmits wire (messages ++ [message]) message where
  whole := by
    have all : wire = messages.flatten := by simpa using done.whole
    simp [all]
  last := by
    have all : wire = messages.flatten := by simpa using done.whole
    simp [all]

/-- Some bytes are accepted. -/
theorem send (busy : Transmits wire messages (sent ++ unsent)) :
    Transmits (wire ++ sent) messages unsent where
  whole := by rw [List.append_assoc, busy.whole]
  last := busy.last.trans (List.prefix_append wire sent)

/-- Everything is accepted. -/
theorem send_all (busy : Transmits wire messages unsent) : Transmits (wire ++ unsent) messages [] := by
  refine send ?_
  rwa [List.append_nil]

/-- The front of what is left is accepted. -/
theorem send_prefix {part : List α} (busy : Transmits wire messages unsent) (front : part <+: unsent) :
    ∃ rest, Transmits (wire ++ part) messages rest := by
  obtain ⟨rest, rfl⟩ := front
  exact ⟨rest, busy.send⟩

theorem wire_prefix (busy : Transmits wire messages unsent) : wire <+: messages.flatten :=
  ⟨unsent, busy.whole⟩

theorem wire_eq (done : Transmits wire messages []) : wire = messages.flatten := by
  simpa using done.whole

end Transmits

end Lib
