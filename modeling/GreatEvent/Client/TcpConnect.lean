import GreatEvent.Net.Protocol

/-!
# `CTcpConnect::Recv`: a number of bytes off the socket

`Recv` waits for input and receives what there is until it has all it was
asked for. How much one `recv` returns is the network's choice: the list
`cuts` says it for the coming calls, past its end a `recv` returns all that
has arrived. A `select` times out when nothing is left to arrive.
-/

namespace GreatEvent

open Lib

/-- What a `Recv` returns and leaves: the bytes it stored, what has not been read, and how the
following `recv` calls are cut. -/
structure Received where
  ok : Bool
  data : List Byte
  inp : List Byte
  cuts : List Nat

/-- `Recv(lpData, nLength)` with `inp` arriving. -/
def tcpRecv : List Nat → Nat → List Byte → Received
  | [], nLength, inp =>
    let got := inp.take nLength
    ⟨0 < got.length && nLength ≤ got.length, got, inp.drop nLength, []⟩
  | cut :: cuts, nLength, inp =>
    let got := inp.take (min nLength (cut + 1))
    if got.length = 0 then ⟨false, [], inp, cuts⟩  -- nRet <= 0
    else if got.length < nLength then
      let more := tcpRecv cuts (nLength - got.length) (inp.drop got.length)
      { more with data := got ++ more.data }
    else ⟨true, got, inp.drop got.length, cuts⟩

/-- No more is stored than was asked for. -/
theorem length_tcpRecv_le (cuts : List Nat) (nLength : Nat) (inp : List Byte) :
    (tcpRecv cuts nLength inp).data.length ≤ nLength := by
  induction cuts generalizing nLength inp with
  | nil => exact List.length_take_le _ _
  | cons cut cuts ih =>
    rw [tcpRecv]
    dsimp only
    split
    · exact Nat.zero_le _
    · split
      · rename_i short
        have more := ih (nLength - (inp.take (min nLength (cut + 1))).length)
          (inp.drop (inp.take (min nLength (cut + 1))).length)
        rw [List.length_append]
        omega
      · exact Nat.le_trans (List.length_take_le _ _) (Nat.min_le_left _ _)

/-- **`Recv` gets what it asks for**, however the bytes come, if there are as many. -/
theorem tcpRecv_all (cuts : List Nat) (nLength : Nat) (inp : List Byte) (some : 0 < nLength)
    (arrives : nLength ≤ inp.length) :
    ∃ cuts', tcpRecv cuts nLength inp = ⟨true, inp.take nLength, inp.drop nLength, cuts'⟩ := by
  induction cuts generalizing nLength inp with
  | nil =>
    have count : (inp.take nLength).length = nLength := List.length_take_of_le arrives
    refine ⟨[], ?_⟩
    simp [tcpRecv, count, some]
  | cons cut cuts ih =>
    have count : (inp.take (min nLength (cut + 1))).length = min nLength (cut + 1) :=
      List.length_take_of_le (Nat.le_trans (Nat.min_le_left _ _) arrives)
    rw [tcpRecv]
    simp only [count]
    rw [if_neg (by omega)]
    by_cases short : min nLength (cut + 1) < nLength
    · obtain ⟨cuts', rest⟩ := ih (nLength - min nLength (cut + 1))
        (inp.drop (min nLength (cut + 1))) (by omega) (by rw [List.length_drop]; omega)
      refine ⟨cuts', ?_⟩
      have all : min nLength (cut + 1) + (nLength - min nLength (cut + 1)) = nLength := by omega
      rw [if_pos short, rest]
      simp only [← List.take_add, List.drop_drop, all]
    · have all : min nLength (cut + 1) = nLength := by omega
      refine ⟨cuts, ?_⟩
      rw [if_neg short, all]

/-- Asked for nothing, `Recv` takes the `recv` that returns nothing for an error. -/
theorem tcpRecv_nothing (cuts : List Nat) (inp : List Byte) : (tcpRecv cuts 0 inp).ok = false := by
  cases cuts <;> simp [tcpRecv]

end GreatEvent
