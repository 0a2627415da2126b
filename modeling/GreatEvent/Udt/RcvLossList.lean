import GreatEvent.Udt.LossCells

/-!
# `CRcvLossList`: the packets that have not come

Runs of numbers lie in arrays as in a `CSndLossList`, linked both ways. New
losses come behind all others; what is removed may lie anywhere. An index is a
cell and `none` is -1, for an index as for a number. The functions give `none`
where a number or an index is read that is not there, or outside the arrays.
-/

namespace GreatEvent.Udt

open CSeqNo

structure RcvLossList where
  m_piData1 : Nat → Option Int
  m_piData2 : Nat → Option Int
  m_piNext : Nat → Option Nat
  m_piPrior : Nat → Option Nat
  m_iHead : Option Nat
  m_iTail : Option Nat
  m_iLength : Int
  m_iSize : Nat

namespace RcvLossList

/-- `CRcvLossList(size)`; `m_piNext` and `m_piPrior` are not initialized. -/
def init (size : Nat) (next prior : Nat → Option Nat) : RcvLossList where
  m_piData1 := fun _ => none
  m_piData2 := fun _ => none
  m_piNext := next
  m_piPrior := prior
  m_iHead := none
  m_iTail := none
  m_iLength := 0
  m_iSize := size

/-- `(m_iHead + offset) % m_iSize` -/
def place (st : RcvLossList) (head : Nat) (offset : Int) : Option Nat :=
  if head + offset < 0 then none else some ((head + offset).toNat % st.m_iSize)

/-- `m_piData1[loc] = seqno1; if (seqno2 != seqno1) m_piData2[loc] = seqno2` -/
def fill (st : RcvLossList) (loc : Nat) (seqno1 seqno2 : Int) : RcvLossList :=
  { st with
    m_piData1 := Function.update st.m_piData1 loc (some seqno1)
    m_piData2 := if seqno2 = seqno1 then st.m_piData2 else Function.update st.m_piData2 loc (some seqno2) }

/-- `insert` into an empty list. -/
def insertEmpty (st : RcvLossList) (seqno1 seqno2 : Int) : RcvLossList :=
  { st.fill 0 seqno1 seqno2 with
    m_iHead := some 0
    m_iTail := some 0
    m_piNext := Function.update st.m_piNext 0 none
    m_piPrior := Function.update st.m_piPrior 0 none
    m_iLength := st.m_iLength + seqlen seqno1 seqno2 }

/-- `insert` of a new node behind the tail. -/
def insertTail (st : RcvLossList) (tail loc : Nat) (seqno1 seqno2 : Int) : RcvLossList :=
  { st.fill loc seqno1 seqno2 with
    m_piNext := Function.update (Function.update st.m_piNext tail (some loc)) loc none
    m_piPrior := Function.update st.m_piPrior loc (some tail)
    m_iTail := some loc
    m_iLength := st.m_iLength + seqlen seqno1 seqno2 }

/-- `insert` of numbers that continue the tail. -/
def extendTail (st : RcvLossList) (tail : Nat) (seqno1 seqno2 : Int) : RcvLossList :=
  { st with
    m_piData2 := Function.update st.m_piData2 tail (some seqno2)
    m_iLength := st.m_iLength + seqlen seqno1 seqno2 }

/-- `insert` -/
def insert (st : RcvLossList) (seqno1 seqno2 : Int) : Option RcvLossList :=
  if st.m_iLength = 0 then some (st.insertEmpty seqno1 seqno2)
  else do
    let head ← st.m_iHead
    let first ← st.m_piData1 head
    let loc ← st.place head (seqoff first seqno1)
    let tail ← st.m_iTail
    match st.m_piData2 tail with
    | none => some (st.insertTail tail loc seqno1 seqno2)
    | some data2 =>
      if incseq data2 = seqno1 then some (st.extendTail tail seqno1 seqno2)
      else some (st.insertTail tail loc seqno1 seqno2)

/-- The node at `loc`, of one number, leaves the list; `m_piPrior` of a node behind the head is there. -/
def unlink (st : RcvLossList) (head loc : Nat) : Option RcvLossList :=
  if head = loc then
    some { st with
      m_iHead := st.m_piNext head
      m_piPrior := match st.m_piNext head with
        | some i => Function.update st.m_piPrior i none
        | none => st.m_piPrior }
  else do
    let prior ← st.m_piPrior loc
    some { st with
      m_piNext := Function.update st.m_piNext prior (st.m_piNext loc)
      m_piPrior := match st.m_piNext loc with
        | some i => Function.update st.m_piPrior i (some prior)
        | none => st.m_piPrior
      m_iTail := match st.m_piNext loc with
        | some _ => st.m_iTail
        | none => some prior }

/-- `if (m_iHead == loc) m_iHead = i; else m_piNext[m_piPrior[i]] = i` -/
def turnHead (st : RcvLossList) (loc i : Nat) : Option RcvLossList :=
  if st.m_iHead = some loc then some { st with m_iHead := some i }
  else (st.m_piPrior i).map fun prior => { st with m_piNext := Function.update st.m_piNext prior (some i) }

/-- `if (m_iTail == loc) m_iTail = i; else m_piPrior[m_piNext[i]] = i` -/
def turnTail (st : RcvLossList) (loc i : Nat) : Option RcvLossList :=
  if st.m_iTail = some loc then some { st with m_iTail := some i }
  else (st.m_piNext i).map fun next => { st with m_piPrior := Function.update st.m_piPrior next (some i) }

/-- The node at `loc` moves to the next cell, `i`, where it begins with the next number. -/
def move (st : RcvLossList) (loc i : Nat) (seqno data2 : Int) : RcvLossList :=
  { st with
    m_piData1 := Function.update (Function.update st.m_piData1 i (some (incseq seqno))) loc none
    m_piData2 := Function.update
      (if 0 < seqcmp data2 (incseq seqno) then Function.update st.m_piData2 i (some data2)
        else st.m_piData2) loc none
    m_piNext := Function.update st.m_piNext i (st.m_piNext loc)
    m_piPrior := Function.update st.m_piPrior i (st.m_piPrior loc) }

/-- The node at `loc` moves, and what shows it is turned. -/
def advance (st : RcvLossList) (loc i : Nat) (seqno data2 : Int) : Option RcvLossList :=
  ((st.move loc i seqno data2).turnHead loc i).bind fun st' => st'.turnTail loc i

/-- The search for the node that `seqno` may be in: down the cells from `i` on. -/
def below (st : RcvLossList) : Nat → Nat → Option (Nat × Int)
  | 0, _ => none
  | fuel + 1, i => match st.m_piData1 i with
    | some data1 => some (i, data1)
    | none => below st fuel ((i + st.m_iSize - 1) % st.m_iSize)

/-- Where a run that begins with `data1` and has ended with `seqno` ends without it. -/
def before (data1 seqno : Int) : Option Int :=
  if seqno = incseq data1 then none else some (decseq seqno)

/-- The node `i` ends before `seqno`, and what is behind it becomes a node at `loc`. -/
def part (st : RcvLossList) (i loc : Nat) (data1 seqno data2 : Int) : RcvLossList :=
  { st with
    m_piData1 := Function.update st.m_piData1 loc (some (incseq seqno))
    m_piData2 := Function.update
      (if 0 < seqcmp data2 (incseq seqno) then Function.update st.m_piData2 loc (some data2)
        else st.m_piData2) i (before data1 seqno)
    m_piNext := Function.update (Function.update st.m_piNext loc (st.m_piNext i)) i (some loc)
    m_piPrior := Function.update st.m_piPrior loc (some i) }

/-- The node `i` is split around `seqno`. -/
def split (st : RcvLossList) (i loc : Nat) (data1 seqno data2 : Int) : Option RcvLossList :=
  (st.part i loc data1 seqno data2).turnTail i loc

/-- `-- m_iLength` -/
def less (st : RcvLossList) : RcvLossList := { st with m_iLength := st.m_iLength - 1 }

/-- `remove(seqno)`: whether it was there. -/
def remove (st : RcvLossList) (seqno : Int) : Option (Bool × RcvLossList) :=
  if st.m_iLength = 0 then some (false, st)
  else do
    let head ← st.m_iHead
    let first ← st.m_piData1 head
    let offset := seqoff first seqno
    if offset < 0 then some (false, st)
    else
      let loc := (head + offset.toNat) % st.m_iSize
      if st.m_piData1 loc = some seqno then
        match st.m_piData2 loc with
        | none =>
          let st' ← st.unlink head loc
          some (true, { st' with m_piData1 := Function.update st'.m_piData1 loc none }.less)
        | some data2 =>
          let st' ← st.advance loc ((loc + 1) % st.m_iSize) seqno data2
          some (true, st'.less)
      else do
        let (i, data1) ← st.below st.m_iSize ((loc + st.m_iSize - 1) % st.m_iSize)
        match st.m_piData2 i with
        | none => some (false, st)
        | some data2 =>
          if 0 < seqcmp seqno data2 then some (false, st)
          else if seqno = data2 then
            some (true, { st with m_piData2 := Function.update st.m_piData2 i (before data1 seqno) }.less)
          else
            let st' ← st.split i ((loc + 1) % st.m_iSize) data1 seqno data2
            some (true, st'.less)

/-- `getLossLength` -/
def getLossLength (st : RcvLossList) : Int := st.m_iLength

/-- `getFirstLostSeq` -/
def getFirstLostSeq (st : RcvLossList) : Option Int :=
  if st.m_iLength = 0 then some (-1) else st.m_iHead.bind st.m_piData1

/-- `seqno | 0x80000000`, as an `int32_t`: another number follows. -/
def flag (seqno : Int) : Int := seqno - 0x80000000

end RcvLossList

end GreatEvent.Udt
