import GreatEvent.Net.EventCalls

/-!
# `epoll.c`: the table of the descriptors

For each descriptor the table says which event waits for input on it and
which for output. The kernel has a list of its own: the conditions it was
asked for with `epoll_ctl`.
-/

namespace GreatEvent.Evsys

/-- `EPOLLIN` and `EPOLLOUT` -/
structure EpollBits where
  input : Bool
  output : Bool
  deriving DecidableEq, Repr

/-- `struct evepoll` -/
structure Evepoll where
  evread : Option EvId
  evwrite : Option EvId
  deriving DecidableEq, Repr

namespace Evepoll

def empty : Evepoll := ⟨none, none⟩

/-- What the kernel is to be asked for. -/
def bits (evep : Evepoll) : EpollBits := ⟨evep.evread.isSome, evep.evwrite.isSome⟩

/-- No event waits. -/
def idle (evep : Evepoll) : Bool := evep.evread.isNone && evep.evwrite.isNone

/-- The entry of the kernel's list that belongs to this one of the table. -/
def interest (evep : Evepoll) : Option EpollBits := if evep.idle then none else some evep.bits

end Evepoll

/-- `struct epollop`: the table has `nfds` entries. `interest` is the kernel's list for `epfd`, and
`refuses` are the descriptors it does not take. -/
structure Epollop where
  fds : List Evepoll
  interest : Int → Option EpollBits
  refuses : Int → Bool
  evsigmask : List Int
  needrecalc : Bool

/-- `EPOLL_CTL_ADD`, `EPOLL_CTL_MOD` and `EPOLL_CTL_DEL` -/
inductive EpollCtl
  | add
  | mod
  | del
  deriving DecidableEq, Repr

namespace Epollop

/-- `epoll_ctl`: `none` is -1. -/
def ctl (op : Epollop) (request : EpollCtl) (fd : Int) (events : EpollBits) : Option Epollop :=
  if op.refuses fd then none
  else match request, op.interest fd with
    | .add, none => some { op with interest := Function.update op.interest fd (some events) }
    | .mod, some _ => some { op with interest := Function.update op.interest fd (some events) }
    | .del, some _ => some { op with interest := Function.update op.interest fd none }
    | _, _ => none

/-- `nfds <<= 1` until it is not less than `max`. -/
def grow (max : Int) : Nat → Nat → Nat
  | 0, nfds => nfds
  | fuel + 1, nfds => if (nfds : Int) < max then grow max fuel (2 * nfds) else nfds

/-- `epoll_recalc`, as far as the table goes. -/
def recalc (op : Epollop) (max : Int) : Epollop :=
  if max > op.fds.length then
    let nfds := grow max max.toNat op.fds.length
    { op with fds := op.fds ++ List.replicate (nfds - op.fds.length) .empty }
  else op

/-- `evsignal_add` -/
def evsignalAdd (op : Epollop) (ev : Event) : Option (Int × Epollop) :=
  if ev.ev_events.io then none
  else some (0, { op with evsigmask := ev.ev_fd :: op.evsigmask })

/-- `evsignal_del` -/
def evsignalDel (op : Epollop) (ev : Event) : Int × Epollop :=
  (0, { op with evsigmask := op.evsigmask.filter (· ≠ ev.ev_fd), needrecalc := true })

/-- `&epollop->fds[fd]`, where the table has it. -/
def entry (op : Epollop) (fd : Int) : Option Evepoll :=
  if fd < 0 then none else op.fds[fd.toNat]?

/-- The table with another entry for `fd`. -/
def setEntry (op : Epollop) (fd : Int) (evep : Evepoll) : Epollop :=
  { op with fds := op.fds.set fd.toNat evep }

/-- `epoll_add` -/
def epollAdd (op : Epollop) (id : EvId) (ev : Event) : Option (Int × Epollop) :=
  if ev.ev_events.signal then op.evsignalAdd ev
  else do
    let fd := ev.ev_fd
    let op := if fd ≥ op.fds.length then op.recalc fd else op
    let evep ← op.entry fd
    let events : EpollBits :=
      ⟨evep.evread.isSome || ev.ev_events.read, evep.evwrite.isSome || ev.ev_events.write⟩
    match op.ctl (if evep.idle then .add else .mod) fd events with
    | none => some (-1, op)
    | some op => some (0, op.setEntry fd
        { evread := if ev.ev_events.read then some id else evep.evread
          evwrite := if ev.ev_events.write then some id else evep.evwrite })

/-- `epoll_del`: the request to the kernel, and which of the two pointers stays. -/
def delRequest (evep : Evepoll) (events : EvMask) : EpollCtl × EpollBits × Evepoll :=
  if events.read && events.write then (.del, ⟨true, true⟩, .empty)
  else if events.read && evep.evwrite.isSome then
    (.mod, ⟨false, true⟩, { evep with evread := none })
  else if events.write && evep.evread.isSome then
    (.mod, ⟨true, false⟩, { evep with evwrite := none })
  else (.del, ⟨events.read, events.write⟩, .empty)

/-- `epoll_del` -/
def epollDel (op : Epollop) (ev : Event) : Option (Int × Epollop) :=
  if ev.ev_events.signal then some (op.evsignalDel ev)
  else
    let fd := ev.ev_fd
    if fd ≥ op.fds.length then some (0, op)
    else do
      let evep ← op.entry fd
      let (request, events, left) := delRequest evep ev.ev_events
      let op := op.setEntry fd left
      match op.ctl request fd events with
      | none => some (-1, op)
      | some op => some (0, op)

/-- `epollops` -/
def epollops : EventOp Epollop where
  add op id ev := op.epollAdd id ev
  del op _ ev := op.epollDel ev

end Epollop

end GreatEvent.Evsys
