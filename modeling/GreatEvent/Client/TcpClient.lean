import GreatEvent.Server.LoopSafety

/-!
# `TcpClient`: who owns the client's session

`connect` creates the session, `registerEvent` hands its read event to the
loop, `disConnect` takes it back and the destructor deletes the session. The
loop calls `EventCall::onRead` for it as for a session of the server, and
there `readBuffer` returning zero deletes the session as well. The client
never learns of that, and two of the three events deleted there were never
set.
-/

namespace GreatEvent

open Lib

/-- How far the use of the client has come. -/
inductive ClientStage where
  | created
  | connected
  | registered
  | destroyed
  deriving DecidableEq, Repr

/-- A `TcpClient` and the session its `mSession` points to; `mSession`, the pointer is not `NULL`. -/
structure TcpClient where
  stage : ClientStage
  mSockId : Int
  mSession : Bool
  /-- `connect` has created the session -/
  created : Bool
  /-- the session, the table and what has been done to them -/
  scope : Scope
  misuse : Option Misuse

/-- A step: one of the client's operations, or the loop's. `connect none` fails. -/
inductive ClientStep where
  | connect (sockid : Option Nat)
  | registerEvent
  | ready (cause : Cause)
  | onRead (ret : Int)
  | disConnect
  | destroy
  deriving DecidableEq, Repr

namespace TcpClient

open LoopAct Lifecycle

/-- `TcpClient()` -/
def init : TcpClient where
  stage := .created
  mSockId := 0
  mSession := false
  created := false
  scope := ⟨0, ⟨none, fun _ => none⟩, .init, []⟩
  misuse := none

/-- An operation on the session and what it leaves. -/
def run (w : TcpClient) (act : LoopAct Unit) : TcpClient :=
  match act.run w.scope with
  | .ok _ s => { w with scope := s }
  | .error e s => { w with scope := s, misuse := some e }

/-- `connect` -/
def connect (w : TcpClient) : Option Nat → TcpClient
  | some sockid =>
    { w with
      stage := .connected
      mSockId := sockid
      mSession := true
      created := true
      scope := { w.scope with slot := .new (key sockid) } }
  | none => { w with stage := .connected }

/-- `registerEvent`, with the session there. -/
def register (mSockId : Int) : LoopAct Unit := do
  modify fun s => { s with manager := (s.manager.put (key mSockId) s.this).1 }
  modifySession fun c => { c with mArg := true }
  eventSet .read mSockId evReadPersist
  addEvent evRead mSockId

/-- `registerEvent` -/
def registerEvent (w : TcpClient) : TcpClient :=
  let w := { w with stage := .registered }
  if w.mSession then w.run (register w.mSockId) else w

/-- `disConnect`, with a socket open. -/
def leave (mSockId : Int) : LoopAct Unit := do
  arg
  remove mSockId
  eventDel .read
  eventDel .read
  close mSockId

/-- `disConnect` -/
def disConnect (w : TcpClient) : TcpClient :=
  if 0 < w.mSockId then { w.run (leave w.mSockId) with mSockId := 0 } else w

/-- The socket part of `~TcpClient`. -/
def hangUp (w : TcpClient) : TcpClient :=
  if 0 < w.mSockId then { w.run (close w.mSockId) with mSockId := 0 } else w

/-- `~TcpClient` -/
def destroy (w : TcpClient) : TcpClient :=
  let w := { w.hangUp with stage := .destroyed }
  if w.mSession then { w.run delete with mSession := false } else w

/-- A step, where it is allowed: `connect` first, then `registerEvent`, the destructor last; the loop
calls an active event. -/
def step (w : TcpClient) (e : ClientStep) : Option TcpClient :=
  if w.misuse = none then
    match e, w.stage with
    | .connect sockid, .created => some (w.connect sockid)
    | .registerEvent, .connected => some w.registerEvent
    | .ready cause, .registered => do
      let ev ← w.scope.slot.events .read
      let ev ← LoopState.comesUp .read ev cause
      some { w with scope := w.scope.setEvent .read ev }
    | .onRead ret, .registered => do
      let ev ← w.scope.slot.events .read
      if ev.active = true then
        some ({ w with scope := w.scope.setEvent .read ev.leave }.run
          (Lifecycle.onRead ev.ev_fd ev.ev_res ⟨[], ret⟩))
      else none
    | .disConnect, .registered => some w.disConnect
    | .destroy, .registered => some w.destroy
    | _, _ => none
  else none

/-- The client owns its session: no operation was applied to it after its deletion, no event deleted
that was not set, and with the client gone the session has been deleted exactly once. -/
def Owned (w : TcpClient) : Prop :=
  w.misuse = none ∧ w.scope.log.count (.deleted 0) ≤ 1 ∧
    (w.stage = .destroyed → w.scope.log.count (.deleted 0) = if w.created then 1 else 0)

/-- The callback that will find `readBuffer` returning zero. -/
def ReadsZero (w : TcpClient) : ClientStep → Prop
  | .onRead ret => ret = 0 ∧ (w.scope.slot.events .read).any (fun ev => ev.ev_res.read) = true
  | _ => False

/-- What holds in a run whose callbacks leave the session to its client, by the stage reached. -/
inductive Stands (w : TcpClient) : Prop where
  | absent (closed : w.mSockId = 0) (null : w.mSession = false) (never : w.created = false)
      (unset : w.scope.slot.events .read = none)
  | fresh (stage : w.stage = .connected) (pointer : w.mSession = true) (socket : 0 ≤ w.mSockId)
      (new : w.scope.slot = .new (key w.mSockId))
  | hooked {c : SessionLife} (stage : w.stage = .registered) (pointer : w.mSession = true)
      (guarded : Guarded w.scope.slot c)
      (read : ∃ ev, w.scope.slot.events .read = some ev ∧ 0 ≤ ev.ev_fd)
      (write : w.scope.slot.events .write = none)
  | parted {c : SessionLife} {ev : Ev} (stage : w.stage = .registered) (pointer : w.mSession = true)
      (closed : w.mSockId = 0) (alive : w.scope.slot.session = some c)
      (read : w.scope.slot.events .read = some ev) (free : ev.queued = false)

/-- The session is where its client left it. -/
structure Keeps (w : TcpClient) : Prop where
  fine : w.misuse = none
  this : w.scope.this = 0
  whole : w.scope.log.count (.deleted 0) = 0
  stands : w.stage ≠ .destroyed ∧ Stands w
  created : w.created = w.mSession

/-- The client is gone, and its session with it. -/
structure Gone (w : TcpClient) : Prop where
  fine : w.misuse = none
  stage : w.stage = .destroyed
  once : w.scope.log.count (.deleted 0) = if w.created then 1 else 0

section
variable {w w' : TcpClient}

theorem run_of_wp {P : TcpClient → Prop} {act : LoopAct Unit}
    (h : wp act (fun _ s => P { w with scope := s }) (fun e s => P { w with scope := s, misuse := some e })
      w.scope) : P (w.run act) := by
  unfold wp at h
  unfold run
  split at h <;> rename_i ran <;> rw [ran] <;> exact h

/-- The session whose read event `registerEvent` has added. -/
theorem guarded_registered {slot : Slot} {fd : Int}
    (alive : slot.session = some ⟨key fd, .eNormal, false, true, true⟩)
    (read : slot.events .read = some (Ev.set fd evRead).add) (write : slot.events .write = none)
    (time : slot.events .time = none) : Guarded slot ⟨key fd, .eNormal, false, true, true⟩ where
  alive := alive
  arg := rfl
  busy k io := by
    cases k with
    | read => rw [Slot.queued, read]; rfl
    | write => rw [Slot.queued, write]; rfl
    | time => exact absurd rfl io
  once k ev found := by
    cases k with
    | read => cases read.symm.trans found; exact .add (.set rfl) rfl
    | write => cases write.symm.trans found
    | time => cases time.symm.trans found
  fd k ev io found := by
    cases k with
    | read => cases read.symm.trans found; rfl
    | write => cases write.symm.trans found
    | time => exact absurd rfl io

theorem wp_register {s : Scope} {fd : Int} {Q : Unit → Scope → Prop} {E : Misuse → Scope → Prop}
    (new : s.slot = .new (key fd)) (socket : 0 ≤ fd)
    (post : ∀ slot manager, Guarded slot ⟨key fd, .eNormal, false, true, true⟩ →
      (∃ ev, slot.events .read = some ev ∧ 0 ≤ ev.ev_fd) → slot.events .write = none → Q () ⟨s.this, slot, manager, s.log⟩) :
    wp (register fd) Q E s := by
  obtain ⟨this, slot, manager, log⟩ := s
  obtain rfl : slot = .new (key fd) := new
  have given : ¬ fd < 0 := by omega
  simp only [register, wp_bind, wp_modify]
  rw [wp_modifySession rfl, wp_eventSet (k := .read) rfl rfl]
  simp only [addEvent, arm, eventFd, wp_bind, wp_ite, wp_pure, if_neg given]
  rw [wp_session (c := ⟨key fd, .eNormal, false, false, true⟩) rfl,
    if_neg (show ¬ (evRead.write && !SessionLife.busy _ .write) = true from Bool.false_ne_true),
    wp_session (c := ⟨key fd, .eNormal, false, false, true⟩) rfl,
    if_pos (show (evRead.read && !SessionLife.busy _ .read) = true from rfl),
    wp_modifySession (c := ⟨key fd, .eNormal, false, false, true⟩) rfl,
    wp_eventSet (c := ⟨key fd, .eNormal, false, true, true⟩) (k := .read) rfl rfl,
    wp_arg (c := ⟨key fd, .eNormal, false, true, true⟩) rfl rfl,
    wp_eventBaseSet (c := ⟨key fd, .eNormal, false, true, true⟩) (k := .read) rfl rfl rfl,
    wp_eventAdd (c := ⟨key fd, .eNormal, false, true, true⟩) (k := .read) rfl rfl rfl]
  apply post
  · exact guarded_registered rfl rfl rfl rfl
  · exact ⟨_, rfl, socket⟩
  · rfl

theorem keeps_connect (keeps : Keeps w) (stage : w.stage = .created) (sockid : Option Nat) :
    Keeps (w.connect sockid) := by
  cases keeps.stands.2 with
  | absent closed null never unset =>
    cases sockid with
    | none =>
      exact ⟨keeps.fine, keeps.this, keeps.whole, ⟨by simp [connect], .absent closed null never unset⟩,
        keeps.created⟩
    | some sockid =>
      exact ⟨keeps.fine, keeps.this, keeps.whole,
        ⟨by simp [connect], .fresh rfl rfl (Int.natCast_nonneg _) rfl⟩, rfl⟩
  | fresh stage' => cases stage.symm.trans stage'
  | hooked stage' => cases stage.symm.trans stage'
  | parted stage' => cases stage.symm.trans stage'

theorem keeps_register (keeps : Keeps w) (stage : w.stage = .connected) : Keeps w.registerEvent := by
  unfold registerEvent
  cases keeps.stands.2 with
  | absent closed null never unset =>
    rw [if_neg (by rw [null]; decide)]
    exact ⟨keeps.fine, keeps.this, keeps.whole, ⟨by simp, .absent closed null never unset⟩, keeps.created⟩
  | fresh _ pointer socket new =>
    rw [if_pos pointer]
    apply run_of_wp
    apply wp_register new socket
    intro slot manager guarded read write
    exact ⟨keeps.fine, keeps.this, keeps.whole, ⟨by simp, .hooked rfl pointer guarded read write⟩, keeps.created⟩
  | hooked stage' => cases stage.symm.trans stage'
  | parted stage' => cases stage.symm.trans stage'

/-- The deeds of `disConnect` delete nothing. -/
theorem count_left (log : List Deed) (found : Option Nat) (fd : Int) :
    (log ++ (found.map Deed.removed).toList ++ [Deed.closed fd]).count (Deed.deleted 0) =
      log.count (Deed.deleted 0) := by
  cases found <;> simp [List.count_append]

/-- `disConnect` takes the read event off its queues. -/
theorem keeps_disConnect (keeps : Keeps w) (stage : w.stage = .registered) : Keeps w.disConnect := by
  unfold disConnect
  split
  case isFalse => exact keeps
  case isTrue open' =>
    cases keeps.stands.2 with
    | absent closed => rw [closed] at open'; cases open'
    | fresh stage' => cases stage.symm.trans stage'
    | parted _ _ closed => rw [closed] at open'; cases open'
    | @hooked c _ pointer guarded read write =>
      obtain ⟨ev, found, -⟩ := read
      have first : (w.scope.withRemoved w.mSockId).slot.session = some c := guarded.alive
      have second : ((w.scope.withRemoved w.mSockId).setEvent .read ev.del).slot.session = some c :=
        guarded.alive
      apply run_of_wp (P := fun t => Keeps { t with mSockId := 0 })
      simp only [leave, wp_bind, wp_arg guarded.alive guarded.arg, remove, wp_modify, close]
      rw [wp_eventDel first found, wp_eventDel (k := .read) second rfl]
      have whole := (count_left w.scope.log (w.scope.manager.remove (key w.mSockId)).2 w.mSockId).trans keeps.whole
      exact ⟨keeps.fine, keeps.this, whole, ⟨keeps.stands.1, .parted stage pointer rfl guarded.alive rfl rfl⟩,
        keeps.created⟩

/-- Only a session that the loop still serves has its read event on a queue. -/
theorem Keeps.hooked {ev : Ev} (keeps : Keeps w) (found : w.scope.slot.events .read = some ev)
    (queued : ev.queued = true) :
    ∃ c, w.stage = .registered ∧ w.mSession = true ∧ Guarded w.scope.slot c ∧ 0 ≤ ev.ev_fd ∧
      w.scope.slot.events .write = none := by
  cases keeps.stands.2 with
  | absent closed null never unset => cases unset.symm.trans found
  | fresh stage pointer socket new =>
    rw [new] at found
    cases found
  | parted stage pointer closed alive read free =>
    cases read.symm.trans found
    cases queued.symm.trans free
  | @hooked c stage pointer guarded read write =>
    obtain ⟨_, found', socket⟩ := read
    cases found.symm.trans found'
    exact ⟨c, stage, pointer, guarded, socket, write⟩

theorem keeps_ready {cause : Cause} {ev ev' : Ev} (keeps : Keeps w)
    (found : w.scope.slot.events .read = some ev) (up : LoopState.comesUp .read ev cause = some ev') :
    Keeps { w with scope := w.scope.setEvent .read ev' } := by
  obtain ⟨queued, queued', once, fd⟩ := LoopState.comesUp_queued up
  obtain ⟨c, stage, pointer, guarded, socket, write⟩ := keeps.hooked found queued
  have guarded' := guarded.replace .read (once (guarded.once .read ev found))
    (fun io => by rw [fd]; exact guarded.fd .read ev io found)
    (fun _ => by rw [Slot.queued, found, queued']; exact queued)
  exact ⟨keeps.fine, keeps.this, keeps.whole,
    ⟨keeps.stands.1, .hooked stage pointer guarded' ⟨_, rfl, fd ▸ socket⟩ write⟩, keeps.created⟩

/-- A read callback that leaves the session alone. -/
theorem keeps_onRead {ret : Int} {ev : Ev} (keeps : Keeps w) (found : w.scope.slot.events .read = some ev)
    (active : ev.active = true) (spared : ret = 0 → ev.ev_res.read = false) :
    Keeps ({ w with scope := w.scope.setEvent .read ev.leave }.run (onRead ev.ev_fd ev.ev_res ⟨[], ret⟩)) := by
  obtain ⟨c, stage, pointer, guarded, socket, write⟩ := keeps.hooked found (by simp [Ev.queued, active])
  have left := guarded.leave found active
  have own : key ev.ev_fd = c.mKey := guarded.fd .read ev (by decide) found
  have names : Names ((w.scope.setEvent .read ev.leave).withSession (c.mark false .read))
      (c.mark false .read) ev.ev_fd := by
    unfold Names
    rw [if_neg (by omega)]
    exact own
  apply run_of_wp
  have rearm : wp (addEvent evRead ev.ev_fd) (fun _ s => Keeps { w with scope := s })
      (fun e s => Keeps { w with scope := s, misuse := some e })
      ((w.scope.setEvent .read ev.leave).withSession (c.mark false .read)) := by
    apply wp_addRead left names rfl
    intro t d arms others own'
    have write' : t.slot.events .write = none := (others .write (by decide)).trans write
    obtain ⟨ev', found'', same⟩ := own' socket
    exact ⟨keeps.fine, arms.this.trans keeps.this, (congrArg _ arms.log).trans keeps.whole,
      ⟨keeps.stands.1, .hooked stage pointer arms.guarded ⟨ev', found'', same ▸ socket⟩ write'⟩, keeps.created⟩
  simp only [onRead, method, wp_bind, wp_ite, wp_pure, List.forM]
  have alive : (w.scope.setEvent .read ev.leave).slot.session = some c := guarded.alive
  rw [wp_modifySession alive]
  split
  case isTrue readable =>
    have nonzero : ret ≠ 0 := by
      intro zero
      rw [spared zero] at readable
      cases readable
    rw [if_neg nonzero]
    exact rearm
  case isFalse => exact rearm

/-- A read callback that finds `readBuffer` returning zero deletes an event that was never set. -/
theorem misused_onRead {ev : Ev} (keeps : Keeps w) (found : w.scope.slot.events .read = some ev)
    (active : ev.active = true) (readable : ev.ev_res.read = true) :
    ({ w with scope := w.scope.setEvent .read ev.leave }.run
      (onRead ev.ev_fd ev.ev_res ⟨[], 0⟩)).misuse = some .unset := by
  obtain ⟨c, stage, pointer, guarded, socket, write⟩ := keeps.hooked found (by simp [Ev.queued, active])
  have alive : (w.scope.setEvent .read ev.leave).slot.session = some c := guarded.alive
  let s := (w.scope.setEvent .read ev.leave).withSession (c.mark false .read)
  have alive' : s.slot.session = some (c.mark false .read) := rfl
  have removed : (s.withRemoved ev.ev_fd).slot.session = some (c.mark false .read) := rfl
  have deleted : ((s.withRemoved ev.ev_fd).setEvent .read ev.leave.del).slot.session =
      some (c.mark false .read) := rfl
  have never : ((s.withRemoved ev.ev_fd).setEvent .read ev.leave.del).slot.events .write = none := write
  apply run_of_wp (P := fun t => t.misuse = some .unset)
  simp only [onRead, method, wp_bind, wp_ite, wp_pure, List.forM]
  rw [wp_modifySession alive, if_pos readable, if_pos True.intro]
  simp only [teardown, wp_bind, remove, wp_modify]
  rw [wp_arg alive' guarded.arg, wp_eventDel (k := .read) removed rfl, wp_eventDel_unset deleted never]

theorem hangUp_keeps (w : TcpClient) : w.hangUp.misuse = w.misuse ∧ w.hangUp.mSession = w.mSession ∧
    w.hangUp.created = w.created ∧ w.hangUp.scope.slot = w.scope.slot ∧ w.hangUp.scope.this = w.scope.this ∧
    w.hangUp.scope.log.count (.deleted 0) = w.scope.log.count (.deleted 0) := by
  unfold hangUp
  split
  · have same := count_left w.scope.log none w.mSockId
    rw [Option.map_none, Option.toList_none, List.append_nil] at same
    exact ⟨rfl, rfl, rfl, rfl, rfl, same⟩
  · exact ⟨rfl, rfl, rfl, rfl, rfl, rfl⟩

/-- The destructor deletes the session, if there is one. -/
theorem gone_destroy (keeps : Keeps w) (stage : w.stage = .registered) : Gone w.destroy := by
  obtain ⟨misuse, pointer', created, slot, this, count⟩ := hangUp_keeps w
  have whole := count.trans keeps.whole
  have alive : w.mSession = true → ∃ c, w.hangUp.scope.slot.session = some c := by
    intro pointer
    rw [slot]
    cases keeps.stands.2 with
    | absent closed null never unset => cases null.symm.trans pointer
    | fresh stage' => cases stage.symm.trans stage'
    | hooked _ _ guarded => exact ⟨_, guarded.alive⟩
    | parted _ _ _ alive => exact ⟨_, alive⟩
  unfold destroy
  by_cases there : w.hangUp.mSession = true
  · rw [if_pos there]
    obtain ⟨c, alive⟩ := alive (pointer'.symm.trans there)
    apply run_of_wp (P := fun t => Gone { t with mSession := false })
    rw [wp_delete (c := c) alive]
    have made : w.hangUp.created = true := created.trans (keeps.created.trans (pointer'.symm.trans there))
    refine ⟨misuse.trans keeps.fine, rfl, ?_⟩
    change (w.hangUp.scope.log ++ [Deed.deleted w.hangUp.scope.this]).count (Deed.deleted 0) =
      if w.hangUp.created then 1 else 0
    rw [List.count_append, whole, this, keeps.this, made]
    rfl
  · rw [if_neg there]
    have absent : w.hangUp.mSession = false := Bool.eq_false_iff.mpr there
    have made : w.hangUp.created = false := created.trans (keeps.created.trans (pointer'.symm.trans absent))
    refine ⟨misuse.trans keeps.fine, rfl, ?_⟩
    change w.hangUp.scope.log.count (.deleted 0) = if w.hangUp.created then 1 else 0
    rw [whole, made]
    rfl

/-- The loop calls an active read event. -/
theorem step_onRead {ret : Int} (fine : w.misuse = none) (stepped : w.step (.onRead ret) = some w') :
    ∃ ev, w.scope.slot.events .read = some ev ∧ ev.active = true ∧
      w' = { w with scope := w.scope.setEvent .read ev.leave }.run (onRead ev.ev_fd ev.ev_res ⟨[], ret⟩) := by
  unfold step at stepped
  rw [if_pos fine] at stepped
  cases stage : w.stage with
  | registered =>
    simp only [stage, Option.bind_eq_bind, Option.bind_eq_some_iff] at stepped
    obtain ⟨ev, found, stepped⟩ := stepped
    obtain ⟨active, stepped⟩ := (Option.ite_none_right_eq_some ..).mp stepped
    exact ⟨ev, found, active, (Option.some.inj stepped).symm⟩
  | _ =>
    rw [stage] at stepped
    cases stepped

/-- **A step that reads no zero leaves the session to its client.** -/
theorem keeps_step {e : ClientStep} (keeps : Keeps w) (stepped : w.step e = some w') (spared : ¬ ReadsZero w e) :
    Keeps w' ∨ Gone w' := by
  have served := stepped
  unfold step at stepped
  rw [if_pos keeps.fine] at stepped
  split at stepped
  case h_1 sockid stage =>
    cases stepped
    exact .inl (keeps_connect keeps stage sockid)
  case h_2 stage =>
    cases stepped
    exact .inl (keeps_register keeps stage)
  case h_3 cause stage =>
    simp only [Option.bind_eq_bind, Option.bind_eq_some_iff] at stepped
    obtain ⟨ev, found, ev', up, stepped⟩ := stepped
    cases stepped
    exact .inl (keeps_ready keeps found up)
  case h_4 ret stage =>
    obtain ⟨ev, found, active, rfl⟩ := step_onRead keeps.fine served
    apply Or.inl
    apply keeps_onRead keeps found active
    intro zero
    apply Bool.eq_false_iff.mpr
    intro readable
    exact spared ⟨zero, by rw [found]; exact readable⟩
  case h_5 stage =>
    cases stepped
    exact .inl (keeps_disConnect keeps stage)
  case h_6 stage =>
    cases stepped
    exact .inr (gone_destroy keeps stage)
  case h_7 => cases stepped

/-- Nothing happens to a client that is gone. -/
theorem Gone.no_step {e : ClientStep} (gone : Gone w) : w.step e = none := by
  unfold step
  rw [if_pos gone.fine, gone.stage]
  cases e <;> rfl

/-- A callback that reads zero ends the client's ownership. -/
theorem not_owned_step {e : ClientStep} (keeps : Keeps w) (stepped : w.step e = some w')
    (zero : ReadsZero w e) : ¬ Owned w' := by
  cases e with
  | onRead ret =>
    obtain ⟨rfl, readable⟩ := zero
    obtain ⟨ev, found, active, rfl⟩ := step_onRead keeps.fine stepped
    rw [found] at readable
    intro owned
    cases owned.1.symm.trans (misused_onRead keeps found active readable)
  | _ => cases zero

theorem Keeps.owned (keeps : Keeps w) : Owned w :=
  ⟨keeps.fine, by rw [keeps.whole]; decide, fun gone => absurd gone keeps.stands.1⟩

theorem Gone.owned (gone : Gone w) : Owned w := by
  refine ⟨gone.fine, ?_, fun _ => gone.once⟩
  rw [gone.once]
  split <;> decide

end

theorem keeps_init : Keeps init :=
  ⟨rfl, rfl, rfl, ⟨by decide, .absent rfl rfl rfl rfl⟩, rfl⟩

/-- A run without a read of zero leaves the session to its client. -/
theorem keeps_run {es : List ClientStep} {w : TcpClient}
    (run : Runs step (fun a e _ => ¬ ReadsZero a e) init es w) : Keeps w ∨ Gone w := by
  apply run.invariant (.inl keeps_init)
  rintro a e b (keeps | gone) stepped spared
  · exact keeps_step keeps stepped spared
  · rw [gone.no_step] at stepped
    cases stepped

/-- **When the client owns its session**: in every state of a run, just if no read callback of the run
finds `readBuffer` returning zero. -/
theorem session_owned (es : List ClientStep) (w : TcpClient) :
    Runs step (fun _ _ b => Owned b) init es w ↔
      Runs step (fun a e _ => ¬ ReadsZero a e) init es w := by
  constructor
  · intro run
    induction run with
    | nil => exact .nil
    | snoc _ stepped owned ih =>
      apply Runs.snoc ih stepped
      intro zero
      rcases keeps_run ih with keeps | gone
      · exact not_owned_step keeps stepped zero owned
      · rw [gone.no_step] at stepped
        cases stepped
  · intro run
    induction run with
    | nil => exact .nil
    | snoc run stepped spared ih =>
      apply Runs.snoc ih stepped
      rcases keeps_run (.snoc run stepped spared) with keeps | gone
      · exact keeps.owned
      · exact gone.owned

/-- **A peer's close takes the session from its client.** -/
theorem session_not_owned :
    ¬ ∀ es w, Runs step (fun _ _ _ => True) init es w → Owned w := by
  intro always
  have finished : (exec step (fun _ _ _ => True) init
      [.connect (some 5), .registerEvent, .ready .ready, .onRead 0]).map (fun w => w.misuse) =
      some (some .unset) := by
    decide +kernel
  obtain ⟨w, ran, misuse⟩ := Option.map_eq_some_iff.mp finished
  cases (always _ w (.of_exec ran)).1.symm.trans misuse

end TcpClient

end GreatEvent
