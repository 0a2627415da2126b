import GreatEvent.Udt.SeqNo

/-!
# `CSndLossList`: the packets to be sent again

Runs of lost packets are the nodes of a linked list whose cells lie in arrays:
a run is at the place of its first number, counted from the head around the
end of the array. An index is a cell and `none` is -1, for an index as for a
number. The functions give `none` where a number is read that is not there, or
outside the arrays.
-/

namespace GreatEvent.Udt

open CSeqNo

structure SndLossList where
  m_piData1 : Nat → Option Int
  m_piData2 : Nat → Option Int
  m_piNext : Nat → Option Nat
  m_iHead : Option Nat
  m_iLength : Int
  m_iSize : Nat
  m_iLastInsertPos : Option Nat

namespace SndLossList

/-- `CSndLossList(size)`; `m_piNext` is not initialized. -/
def init (size : Nat) (next : Nat → Option Nat) : SndLossList where
  m_piData1 := fun _ => none
  m_piData2 := fun _ => none
  m_piNext := next
  m_iHead := none
  m_iLength := 0
  m_iSize := size
  m_iLastInsertPos := none

/-- `(m_iHead + offset + m_iSize) % m_iSize` -/
def place (st : SndLossList) (head : Nat) (offset : Int) : Option Nat :=
  if head + offset + st.m_iSize < 0 then none
  else some ((head + offset + st.m_iSize).toNat % st.m_iSize)

/-- `m_piData1[loc] = seqno1; if (seqno2 != seqno1) m_piData2[loc] = seqno2`, and the length. -/
def fill (st : SndLossList) (loc : Nat) (seqno1 seqno2 : Int) : SndLossList :=
  { st with
    m_piData1 := Function.update st.m_piData1 loc (some seqno1)
    m_piData2 := if seqno2 = seqno1 then st.m_piData2 else Function.update st.m_piData2 loc (some seqno2)
    m_iLength := st.m_iLength + seqlen seqno1 seqno2 }

/-- `m_piData2[loc] = seqno2`, with what is added to the length. -/
def stretch (st : SndLossList) (loc : Nat) (seqno2 more : Int) : SndLossList :=
  { st with
    m_piData2 := Function.update st.m_piData2 loc (some seqno2)
    m_iLength := st.m_iLength + more }

/-- The nodes have the same first number, and the second ones are compared; `none`, nothing is new. -/
def compare2 (st : SndLossList) (loc : Nat) (seqno1 seqno2 : Int) : Option SndLossList :=
  match st.m_piData2 loc with
  | none => some (if seqno2 = seqno1 then st
      else st.stretch loc seqno2 (seqlen seqno1 seqno2 - 1))
  | some data2 => if 0 < seqcmp seqno2 data2 then
      some (st.stretch loc seqno2 (seqlen data2 seqno2 - 1)) else none

/-- The search for the prior node from `i` on. -/
def prior (st : SndLossList) (seqno : Int) : Nat → Nat → Option Nat
  | fuel, i => match st.m_piNext i with
    | none => some i
    | some j => match st.m_piData1 j, fuel with
      | none, _ => none
      | some data1, fuel =>
        if seqcmp data1 seqno < 0 then
          match fuel with
          | 0 => none
          | fuel + 1 => prior st seqno fuel j
        else some i

/-- One round of the loop that coalesces the node `loc` with the next one, `i`, which begins with
`data1`; `data2` is where `loc` ends. -/
def absorb (st : SndLossList) (loc i : Nat) (data2 data1 : Int) : SndLossList :=
  let st := match st.m_piData2 i with
    | some last =>
      if 0 < seqcmp last data2 then
        st.stretch loc last (if 0 ≤ seqcmp data2 data1 then -seqlen data1 data2 else 0)
      else { st with m_iLength := st.m_iLength - seqlen data1 last }
    | none =>
      if data1 = incseq data2 then st.stretch loc data1 0
      else { st with m_iLength := st.m_iLength - 1 }
  { st with
    m_piData1 := Function.update st.m_piData1 i none
    m_piData2 := Function.update st.m_piData2 i none
    m_piNext := Function.update st.m_piNext loc (st.m_piNext i) }

/-- The loop that coalesces the node `loc` with the next ones. -/
def coalesce (loc : Nat) : Nat → SndLossList → Option SndLossList
  | fuel, st => match st.m_piNext loc, st.m_piData2 loc with
    | some i, some data2 => match st.m_piData1 i, fuel with
      | none, _ => none
      | some data1, fuel =>
        if seqcmp data1 (incseq data2) ≤ 0 then
          match fuel with
          | 0 => none
          | fuel + 1 => coalesce loc fuel (st.absorb loc i data2 data1)
        else some st
    | _, _ => some st

/-- The end of `insert`, which returns how many numbers are new. -/
def finish (st : SndLossList) (loc : Nat) (origlen : Int) : Option (Int × SndLossList) :=
  (coalesce loc st.m_iSize st).map fun st => (st.m_iLength - origlen, st)

/-- `insert` into an empty list. -/
def insertEmpty (st : SndLossList) (seqno1 seqno2 : Int) : SndLossList :=
  { st.fill 0 seqno1 seqno2 with
    m_iHead := some 0
    m_piNext := Function.update st.m_piNext 0 none
    m_iLastInsertPos := some 0 }

/-- `insert` before the head. -/
def insertHead (st : SndLossList) (head loc : Nat) (seqno1 seqno2 : Int) : SndLossList :=
  { st.fill loc seqno1 seqno2 with
    m_iHead := some loc
    m_piNext := Function.update st.m_piNext loc (some head)
    m_iLastInsertPos := some loc }

/-- `insert` of a new node behind the node `i`. -/
def insertBehind (st : SndLossList) (i loc : Nat) (seqno1 seqno2 : Int) : SndLossList :=
  { st.fill loc seqno1 seqno2 with
    m_piNext := Function.update (Function.update st.m_piNext loc (st.m_piNext i)) i (some loc)
    m_iLastInsertPos := some loc }

/-- Where the search begins: at the last node inserted, if it is prior. -/
def searchFrom (st : SndLossList) (head : Nat) (seqno1 : Int) : Option Nat :=
  match st.m_iLastInsertPos with
  | none => some head
  | some last => (st.m_piData1 last).map fun data1 => if seqcmp data1 seqno1 < 0 then last else head

/-- `insert` where no node begins with `seqno1`, behind the prior node `i`. -/
def insertAfter (st : SndLossList) (i loc : Nat) (seqno1 seqno2 : Int) : Option (Int × SndLossList) :=
  match st.m_piData2 i with
  | none => (st.insertBehind i loc seqno1 seqno2).finish loc st.m_iLength
  | some data2 =>
    if seqcmp data2 seqno1 < 0 then (st.insertBehind i loc seqno1 seqno2).finish loc st.m_iLength
    else if seqcmp data2 seqno2 < 0 then
      ({ st with m_iLastInsertPos := some i }.stretch i seqno2 (seqlen data2 seqno2 - 1)).finish i
        st.m_iLength
    else some (0, { st with m_iLastInsertPos := some i })

/-- `insert` -/
def insert (st : SndLossList) (seqno1 seqno2 : Int) : Option (Int × SndLossList) :=
  if st.m_iLength = 0 then
    some ((st.insertEmpty seqno1 seqno2).m_iLength, st.insertEmpty seqno1 seqno2)
  else do
    let head ← st.m_iHead
    let first ← st.m_piData1 head
    let offset := seqoff first seqno1
    let loc ← st.place head offset
    if offset < 0 then (st.insertHead head loc seqno1 seqno2).finish loc st.m_iLength
    else if 0 < offset then
      if st.m_piData1 loc = some seqno1 then
        match compare2 { st with m_iLastInsertPos := some loc } loc seqno1 seqno2 with
        | none => some (0, { st with m_iLastInsertPos := some loc })
        | some st' => st'.finish loc st.m_iLength
      else do
        let from' ← st.searchFrom head seqno1
        let i ← st.prior seqno1 st.m_iSize from'
        st.insertAfter i loc seqno1 seqno2
    else if seqno2 = seqno1 then some (0, { st with m_iLastInsertPos := some head })
    else
      match compare2 { st with m_iLastInsertPos := some head } loc seqno1 seqno2 with
      | none => some (0, { st with m_iLastInsertPos := some head })
      | some st' => st'.finish loc st.m_iLength

/-- A node begins with `seqno` and ends with `data2`: what is behind `seqno` becomes a node of its own,
at `loc`. -/
def shift (st : SndLossList) (loc : Nat) (seqno data2 : Int) : SndLossList :=
  { st with
    m_piData1 := Function.update st.m_piData1 loc (some (incseq seqno))
    m_piData2 := if 0 < seqcmp data2 (incseq seqno) then
        Function.update st.m_piData2 loc (some data2) else st.m_piData2 }

/-- `if (m_iLastInsertPos == h) m_iLastInsertPos = -1` -/
def forget (st : SndLossList) (h : Nat) : SndLossList :=
  { st with m_iLastInsertPos := if st.m_iLastInsertPos = some h then none else st.m_iLastInsertPos }

/-- The head node without its first number, `seqno`. -/
def removeFirst (st : SndLossList) (head : Nat) (seqno : Int) : SndLossList :=
  let loc := (head + 1) % st.m_iSize
  match st.m_piData2 head with
  | none =>
    { st with
      m_piData1 := Function.update st.m_piData1 head none
      m_iHead := st.m_piNext head
      m_iLength := st.m_iLength - 1 }
  | some data2 =>
    let st' := st.shift loc seqno data2
    { st' with
      m_piData1 := Function.update st'.m_piData1 head none
      m_piData2 := Function.update st'.m_piData2 head none
      m_piNext := Function.update st.m_piNext loc (st.m_piNext head)
      m_iHead := some loc
      m_iLength := st.m_iLength - 1 }

/-- The node `i` is cut behind `seqno`, and the rest of it becomes the head. -/
def cut (st : SndLossList) (i loc : Nat) (seqno data2 : Int) (left : Option Int) : SndLossList :=
  let st' := st.shift loc seqno data2
  { st' with
    m_piData2 := Function.update st'.m_piData2 i left
    m_piNext := Function.update (Function.update st.m_piNext loc (st.m_piNext i)) i (some loc)
    m_iHead := some loc }

/-- `remove` of a number behind the head: where the list begins from then on. -/
def removeFrom (st : SndLossList) (head loc : Nat) (seqno : Int) : Option SndLossList :=
  let loc' := (loc + 1) % st.m_iSize
  if st.m_piData1 loc = some seqno then
    match st.m_piData2 loc with
    | none => some { st with m_iHead := st.m_piNext loc }
    | some data2 => some (st.cut loc loc' seqno data2 none)
  else do
    let i ← st.prior seqno st.m_iSize head
    match st.m_piData2 i with
    | none => some { st with m_iHead := st.m_piNext i }
    | some data2 =>
      if 0 < seqcmp data2 seqno then some (st.cut i loc' seqno data2 (some seqno))
      else some { st with m_iHead := st.m_piNext i }

/-- One round of the loop that removes the nodes prior to the new head. -/
def removeNode (st : SndLossList) (h : Nat) (data1 : Int) : SndLossList :=
  let st := match st.m_piData2 h with
    | some data2 =>
      { st with
        m_iLength := st.m_iLength - seqlen data1 data2
        m_piData2 := Function.update st.m_piData2 h none }
    | none => { st with m_iLength := st.m_iLength - 1 }
  { st with m_piData1 := Function.update st.m_piData1 h none }.forget h

/-- The loop that removes the nodes prior to the new head, from the node `h` on. -/
def removePrior : Nat → Option Nat → SndLossList → Option SndLossList
  | fuel, h, st =>
    if h = st.m_iHead then some st
    else match h, fuel with
      | none, _ => none
      | _, 0 => none
      | some h, fuel + 1 => (st.m_piData1 h).bind fun data1 =>
        removePrior fuel (st.m_piNext h) (st.removeNode h data1)

/-- `remove`: the numbers up to `seqno`. -/
def remove (st : SndLossList) (seqno : Int) : Option SndLossList :=
  if st.m_iLength = 0 then some st
  else do
    let head ← st.m_iHead
    let first ← st.m_piData1 head
    let offset := seqoff first seqno
    if offset < 0 then some st
    else if offset = 0 then some ((st.removeFirst head seqno).forget head)
    else
      let st' ← st.removeFrom head ((head + offset.toNat + st.m_iSize) % st.m_iSize) seqno
      removePrior st.m_iSize (some head) st'

/-- `getLossLength` -/
def getLossLength (st : SndLossList) : Int := st.m_iLength

/-- `getLostSeq` -/
def getLostSeq (st : SndLossList) : Option (Int × SndLossList) :=
  if st.m_iLength = 0 then some (-1, st)
  else do
    let head ← st.m_iHead
    let seqno ← st.m_piData1 head
    some (seqno, (st.forget head).removeFirst head seqno)

end SndLossList

end GreatEvent.Udt
