import GreatEvent.Server.Lifecycle
import GreatEvent.Server.SessionInput
import GreatEvent.Server.SessionStart

/-!
# The connection limit

The server with all its sessions: `onAccept` puts each into the table and
marks it `eExit` when there are more than `mMaxConnections`. A marked session
is to be closed by its write event, without having been served. But no
callback looks at the mark: `onWrite` of a session without a task does
nothing, and `onRead` serves it like any other. `refuses_iff` says which runs
refuse their surplus connections all the same: those that never call a
marked session to write and never read a whole frame from one.
-/

namespace GreatEvent

open Lib FrameReader

/-! ## Serving a session -/

/-- A frame processed, or a task created. -/
def Obs.serves : Obs → Bool
  | .frame _ => true
  | .create .. => true
  | _ => false

/-- No frame of the peer has been processed, no task created for it. -/
structure Unserved (c : Core Session) : Prop where
  task : c.obj.mTaskBase = none
  trace : ∀ o ∈ c.trace, o.serves = false

/-- The callbacks of the write event. -/
def Event.forWrite : Event → Bool
  | .write _ => true
  | .writeTimeout => true
  | _ => false

/-- The read callback that will serve the session. -/
def ServesNext (w : World Session) : Event → Prop
  | .read recvs _ => FrameDone cmdLen w.obj.mRead w.inp recvs
  | _ => False

section
variable {w w' : World Session} {e : Event}

theorem Unserved.logged {c : Core Session} (unserved : Unserved c) {obs : List Obs}
    (silent : ∀ o ∈ obs, o.serves = false) : Unserved { c with trace := c.trace ++ obs } := by
  refine ⟨unserved.task, ?_⟩
  intro o member
  rcases List.mem_append.mp member with old | new
  · exact unserved.trace o old
  · exact silent o new

theorem AllWindows.silent {obs : List Obs} (windows : AllWindows obs) : ∀ o ∈ obs, o.serves = false := by
  intro o member
  obtain ⟨size, off, len, rfl⟩ := windows o member
  rfl

/-- A turn that completes no frame does not serve. -/
theorem unserved_fire (fired : fire w e = some w') (unserved : Unserved w.core)
    (spared : ¬ ServesNext w e) : Unserved w'.core := by
  apply fire_keeps fired (P := Unserved)
  · intro c by' unserved
    apply unserved.logged
    intro o member
    rw [List.mem_singleton.mp member]
    rfl
  · intro d same results _ _
    have task : d.obj.mTaskBase = none := by
      rw [show d.obj = w.obj from congrArg Core.obj same]
      exact unserved.task
    have start : Unserved d.core := same ▸ unserved
    apply Session.wp_method_none task fun _ => start
    rintro ⟨recvs, sends, rfl⟩
    apply wp_readBuffer_done
    · intro _ ret b rest recvs' obs windows
      have kept : Unserved (d.read b rest recvs' obs).core :=
        ⟨start.task, (start.logged windows.silent).trace⟩
      exact ⟨kept, kept⟩
    · intro done
      rw [results] at done
      rw [show d.inp = w.inp from congrArg Core.inp same] at done
      rw [show d.obj = w.obj from congrArg Core.obj same] at done
      exact absurd done spared

/-- A turn that completes a frame does. -/
theorem served_fire (fired : fire w e = some w') (task : w.obj.mTaskBase = none) (next : ServesNext w e) :
    ¬ Unserved w'.core := by
  have found : ∃ o ∈ w'.core.trace, o.serves = true := by
    apply fire_keeps fired (P := fun c => ∃ o ∈ c.trace, o.serves = true)
    · rintro c by' ⟨o, member, serves⟩
      exact ⟨o, List.mem_append_left _ member, serves⟩
    · intro d same results _ _
      cases e with
      | read recvs sends =>
        have obj : d.obj = w.obj := congrArg Core.obj same
        have inp : d.inp = w.inp := congrArg Core.inp same
        simp only [Event.method, Callbacks.readBuffer, Session.readBuffer, wp_bind, wp_self, obj, task]
        apply wp_readBuffer_done
        · intro open'
          rw [results, inp, obj] at open'
          exact absurd next open'
        · intro _ b rest recvs' obs f _ _
          have logged : ∀ t : World Session,
              Onward (d.read b rest recvs' (obs ++ [.frame f])) t → ∃ o ∈ t.trace, o.serves = true := by
            intro t onward
            refine ⟨.frame f, onward.trace.subset ?_, rfl⟩
            exact List.mem_append_right _ (List.mem_append_right _ (List.mem_singleton.mpr rfl))
          apply (Session.dispatch_onward _).mono
          · intro r t onward
            cases r with
            | some r => exact logged t onward
            | none => exact fun _ _ => logged t onward
          · exact fun _ t onward => logged t onward
      | _ => cases next
  intro unserved
  obtain ⟨o, member, serves⟩ := found
  rw [unserved.trace o member] at serves
  cases serves

/-- A write callback of a session without a task leaves it there. -/
theorem open_after_write (fired : fire w e = some w') (task : w.obj.mTaskBase = none)
    (writes : e.forWrite = true) : w'.closed = false := by
  have live := live_of_fire fired
  cases e with
  | write sends =>
    apply fire_write fired (P := fun t => t.closed = false)
    simp only [Callbacks.writeBuffer, Session.writeBuffer, wp_bind, wp_self]
    rw [show (w.writing sends).obj.mTaskBase = none from task]
    exact live.1
  | writeTimeout =>
    apply fire_writeTimeout (P := fun t => t.closed = false) fired
    exact live.1
  | _ => cases writes

end

/-! ## The server -/

/-- A connection: its session and what the server knows of it. -/
structure Conn where
  world : World Session
  fd : Int
  mStatus : SessionStatus

/-- All connections, in the order they were accepted, and the table. -/
structure Server where
  conns : List Conn
  manager : SessionManager Nat

/-- A connection is accepted from a peer that will send `inp`, or an event of one is called. -/
inductive ServerStep where
  | accept (clientFD : Int) (host : Host) (raw : Session.RawBuffer) (inp : List Byte)
  | turn (p : Nat) (e : Event)

/-- A connection as `onAccept` leaves it; beyond the limit it is marked and its write event added. -/
def Conn.new (full : Bool) (clientFD : Int) (host : Host) (raw : Session.RawBuffer) (inp : List Byte) : Conn :=
  let w := accepted (Session.init host raw) inp
  if full then ⟨w.armWrite, clientFD, .eExit⟩ else ⟨w, clientFD, .eNormal⟩

section
variable (full : Bool) (clientFD : Int) (host : Host) (raw : Session.RawBuffer) (inp : List Byte)

@[simp] theorem Conn.new_fd : (Conn.new full clientFD host raw inp).fd = clientFD := by cases full <;> rfl

@[simp] theorem Conn.new_closed : (Conn.new full clientFD host raw inp).world.closed = false := by
  cases full <;> rfl

@[simp] theorem Conn.new_mStatus :
    (Conn.new full clientFD host raw inp).mStatus = if full then .eExit else .eNormal := by
  cases full <;> rfl

theorem Conn.new_unserved : Unserved (Conn.new full clientFD host raw inp).world.core := by
  cases full
  · exact ⟨rfl, fun o member => by cases member⟩
  · exact ⟨rfl, fun o member => by cases member⟩

end

namespace Server

def init : Server := ⟨[], .init⟩

/-- `onAccept` -/
def onAccept (mMaxConnections : Nat) (s : Server) (clientFD : Int) (host : Host)
    (raw : Session.RawBuffer) (inp : List Byte) : Server :=
  let manager := (s.manager.put (key clientFD) s.conns.length).1
  let full := decide ((mMaxConnections : Int) < manager.getCount)
  ⟨s.conns ++ [.new full clientFD host raw inp], manager⟩

/-- A callback of a connection; the teardown takes it out of the table. -/
def onEvent (s : Server) (p : Nat) (c : Conn) (w : World Session) : Server :=
  ⟨s.conns.set p { c with world := w },
    if w.closed then (s.manager.remove (key c.fd)).1 else s.manager⟩

/-- A step of the server, as long as no callback is stuck. -/
def step (mMaxConnections : Nat) (s : Server) (e : ServerStep) : Option Server :=
  if ∀ c ∈ s.conns, c.world.halted = none then
    match e with
    | .accept clientFD host raw inp => some (s.onAccept mMaxConnections clientFD host raw inp)
    | .turn p e => do
      let c ← s.conns[p]?
      if c.world.Registered e then
        let w ← fire c.world e
        some (s.onEvent p c w)
      else none
  else none

/-- The sessions that exist. -/
def live (s : Server) : Nat := s.conns.countP fun c => !c.world.closed

/-- The sessions that exist and were accepted below the limit. -/
def served (s : Server) : Nat := s.conns.countP fun c => !c.world.closed && c.mStatus != .eExit

/-- What a step owes its surplus connections: none of them has been served; one whose write event has
been called is gone; and when all of them are gone, no more than `mMaxConnections` are left. -/
def Refuses (mMaxConnections : Nat) (_ : Server) (e : ServerStep) (s' : Server) : Prop :=
  (∀ c ∈ s'.conns, c.mStatus = .eExit → Unserved c.world.core) ∧
  (∀ p ev c, e = .turn p ev → ev.forWrite = true → s'.conns[p]? = some c → c.mStatus = .eExit →
    c.world.closed = true) ∧
  ((∀ c ∈ s'.conns, c.mStatus = .eExit → c.world.closed = true) → s'.live ≤ mMaxConnections)

/-- The steps that leave the surplus connections alone: none is called to write, none has a frame
completed. -/
def Spares (s : Server) : ServerStep → Prop
  | .accept .. => True
  | .turn p e => ∀ c, s.conns[p]? = some c → c.mStatus = .eExit →
      e.forWrite = false ∧ ¬ ServesNext c.world e

/-- The count of the table is the number of sessions, and the limit holds of those below it. -/
structure Counts (mMaxConnections : Nat) (s : Server) : Prop where
  count : s.manager.getCount = s.live
  rows : ∀ c ∈ s.conns, s.manager.Allocated (key c.fd)
  limit : s.served ≤ mMaxConnections

section
variable {mMaxConnections : Nat} {s s' : Server} {e : ServerStep}

theorem served_le_live (s : Server) : s.served ≤ s.live := by
  apply List.countP_mono_left
  intro c _ both
  rw [Bool.and_eq_true] at both
  exact both.1

/-- A new connection exists, and is below the limit just when it is not marked. -/
theorem counts_accept (counts : Counts mMaxConnections s) (clientFD : Int) (host : Host)
    (raw : Session.RawBuffer) (inp : List Byte) :
    Counts mMaxConnections (s.onAccept mMaxConnections clientFD host raw inp) := by
  have count := counts.count
  have bound := served_le_live s
  have limit := counts.limit
  have grown := SessionManager.getCount_put s.manager (key clientFD) s.conns.length
  have own := SessionManager.allocated_put s.manager (key clientFD) s.conns.length
  have rows : ∀ c ∈ s.conns, (s.manager.put (key clientFD) s.conns.length).1.Allocated (key c.fd) :=
    fun c old => (counts.rows c old).put _ _
  change Counts mMaxConnections ⟨s.conns ++ [.new (decide ((mMaxConnections : Int) <
    (s.manager.put (key clientFD) s.conns.length).1.getCount)) clientFD host raw inp], _⟩
  generalize test : decide ((mMaxConnections : Int) <
    (s.manager.put (key clientFD) s.conns.length).1.getCount) = full
  constructor
  · rw [grown, count, live, live, List.countP_append, List.countP_singleton, Conn.new_closed]
    rfl
  · intro c member
    rcases List.mem_append.mp member with old | new
    · exact rows c old
    · rw [List.mem_singleton.mp new, Conn.new_fd]
      exact own
  · rw [served] at limit bound ⊢
    rw [List.countP_append, List.countP_singleton, Conn.new_closed, Conn.new_mStatus]
    cases full with
    | true => exact limit
    | false =>
      have room := of_decide_eq_false test
      change _ + 1 ≤ mMaxConnections
      omega

theorem counts_turn {p : Nat} {c : Conn} {ev : Event} {w : World Session} (counts : Counts mMaxConnections s)
    (at' : s.conns[p]? = some c) (fired : fire c.world ev = some w) :
    Counts mMaxConnections (s.onEvent p c w) := by
  have open' : c.world.closed = false := (live_of_fire fired).1
  obtain ⟨inside, own⟩ := List.getElem?_eq_some_iff.mp at'
  have member : c ∈ s.conns := List.mem_of_getElem? at'
  have live : (s.onEvent p c w).live + 1 = s.live + if w.closed then 0 else 1 := by
    have some' : 0 < s.live := List.countP_pos_iff.mpr ⟨c, member, by rw [open']; rfl⟩
    unfold Server.live at some' ⊢
    rw [onEvent, List.countP_set inside, own, open']
    cases w.closed <;> simp <;> omega
  have same : ∀ c' ∈ (s.onEvent p c w).conns, ∃ c'' ∈ s.conns, c'.fd = c''.fd := by
    intro c' member'
    rcases List.mem_or_eq_of_mem_set member' with old | rfl
    · exact ⟨c', old, rfl⟩
    · exact ⟨c, member, rfl⟩
  have row := counts.rows c member
  have count := counts.count
  constructor
  · cases closed : w.closed with
    | true =>
      have table : (s.onEvent p c w).manager.getCount = s.manager.getCount - 1 := by
        rw [onEvent, closed, if_pos rfl]
        exact SessionManager.getCount_remove row
      rw [closed] at live
      simp only [if_true] at live
      omega
    | false =>
      have table : (s.onEvent p c w).manager.getCount = s.manager.getCount := by
        rw [onEvent, closed]
        rfl
      rw [closed] at live
      simp only [Bool.false_eq_true, if_false] at live
      omega
  · intro c' member'
    obtain ⟨c'', old, fd⟩ := same c' member'
    rw [fd]
    have kept := counts.rows c'' old
    unfold onEvent
    split
    · exact kept.remove _
    · exact kept
  · have fewer : (s.onEvent p c w).served ≤ s.served := by
      unfold served
      rw [onEvent, List.countP_set inside, own, open']
      by_cases marked : c.mStatus = .eExit
      · simp [marked]
      · have own' : (!false && c.mStatus != SessionStatus.eExit) = true := by simp [marked]
        have some' : 0 < s.conns.countP fun c => !c.world.closed && c.mStatus != .eExit :=
          List.countP_pos_iff.mpr ⟨c, member, by rw [open']; exact own'⟩
        rw [if_pos own']
        split
        · omega
        · omega
    exact Nat.le_trans fewer counts.limit

/-- What a step can be. -/
theorem step_cases (stepped : s.step mMaxConnections e = some s') :
    (∃ clientFD host raw inp, e = .accept clientFD host raw inp ∧
      s' = s.onAccept mMaxConnections clientFD host raw inp) ∨
    ∃ p ev c w, e = .turn p ev ∧ s.conns[p]? = some c ∧ fire c.world ev = some w ∧ s' = s.onEvent p c w := by
  unfold step at stepped
  obtain ⟨-, stepped⟩ := (Option.ite_none_right_eq_some ..).mp stepped
  cases e with
  | accept clientFD host raw inp =>
    exact .inl ⟨clientFD, host, raw, inp, rfl, (Option.some.inj stepped).symm⟩
  | turn p ev =>
    simp only [Option.bind_eq_bind, Option.bind_eq_some_iff] at stepped
    obtain ⟨c, at', stepped⟩ := stepped
    obtain ⟨-, stepped⟩ := (Option.ite_none_right_eq_some ..).mp stepped
    obtain ⟨w, fired, stepped⟩ := Option.bind_eq_some_iff.mp stepped
    exact .inr ⟨p, ev, c, w, rfl, at', fired, (Option.some.inj stepped).symm⟩

theorem counts_step (counts : Counts mMaxConnections s) (stepped : s.step mMaxConnections e = some s') :
    Counts mMaxConnections s' := by
  rcases step_cases stepped with ⟨clientFD, host, raw, inp, -, rfl⟩ | ⟨p, ev, c, w, -, at', fired, rfl⟩
  · exact counts_accept counts clientFD host raw inp
  · exact counts_turn counts at' fired

/-- No surplus connection has been served. -/
def Refusing (s : Server) : Prop := ∀ c ∈ s.conns, c.mStatus = .eExit → Unserved c.world.core

/-- With every surplus connection gone, the sessions left are those below the limit. -/
theorem Counts.live_le (counts : Counts mMaxConnections s)
    (gone : ∀ c ∈ s.conns, c.mStatus = .eExit → c.world.closed = true) : s.live ≤ mMaxConnections := by
  have same : s.live = s.served := by
    apply List.countP_congr
    intro c member
    cases closed : c.world.closed with
    | true => simp
    | false =>
      have unmarked : c.mStatus ≠ .eExit := by
        intro marked
        rw [gone c member marked] at closed
        cases closed
      simp [unmarked]
  rw [same]
  exact counts.limit

/-- **A step that leaves the surplus connections alone refuses them.** -/
theorem refuses_of_spares (counts : Counts mMaxConnections s) (refusing : Refusing s)
    (stepped : s.step mMaxConnections e = some s') (spares : Spares s e) : Refuses mMaxConnections s e s' := by
  have limit := (counts_step counts stepped).live_le
  rcases step_cases stepped with ⟨clientFD, host, raw, inp, rfl, rfl⟩ | ⟨p, ev, c, w, rfl, at', fired, rfl⟩
  · refine ⟨?_, ?_, limit⟩
    · intro c member marked
      rcases List.mem_append.mp member with old | new
      · exact refusing c old marked
      · rw [List.mem_singleton.mp new]
        exact Conn.new_unserved _ _ _ _ _
    · intro p ev c same
      cases same
  · have inside := (List.getElem?_eq_some_iff.mp at').1
    refine ⟨?_, ?_, limit⟩
    · intro c' member marked
      rcases List.mem_or_eq_of_mem_set member with old | rfl
      · exact refusing c' old marked
      · exact unserved_fire fired (refusing c (List.mem_of_getElem? at') marked) (spares c at' marked).2
    · intro p' ev' c' same writes at'' marked
      cases same
      cases (List.getElem?_set_self inside).symm.trans at''
      rw [(spares c at' marked).1] at writes
      cases writes

/-- A step that refuses its surplus connections has left them alone. -/
theorem spares_of_refuses (refusing : Refusing s) (stepped : s.step mMaxConnections e = some s')
    (refuses : Refuses mMaxConnections s e s') : Spares s e := by
  rcases step_cases stepped with ⟨clientFD, host, raw, inp, rfl, rfl⟩ | ⟨p, ev, c, w, rfl, at', fired, rfl⟩
  · trivial
  · intro c' at'' marked
    cases at'.symm.trans at''
    have inside := (List.getElem?_eq_some_iff.mp at').1
    have task := (refusing c (List.mem_of_getElem? at') marked).task
    have after' : (s.onEvent p c w).conns[p]? = some { c with world := w } := List.getElem?_set_self inside
    constructor
    · apply Bool.eq_false_iff.mpr
      intro writes
      have closed := refuses.2.1 p ev _ rfl writes after' marked
      rw [show w.closed = false from open_after_write fired task writes] at closed
      cases closed
    · intro next
      exact served_fire fired task next (refuses.1 _ (List.mem_of_getElem? after') marked)

end

theorem counts_init (mMaxConnections : Nat) : Counts mMaxConnections init where
  count := rfl
  rows c member := by cases member
  limit := Nat.zero_le _

/-- Along a run that leaves them alone no surplus connection is served. -/
theorem refusing_run {mMaxConnections : Nat} {es : List ServerStep} {s : Server}
    (run : Runs (step mMaxConnections) (fun s e _ => Spares s e) init es s) :
    Counts mMaxConnections s ∧ Refusing s := by
  apply run.invariant (P := fun s => Counts mMaxConnections s ∧ Refusing s)
  · exact ⟨counts_init _, fun c member => by cases member⟩
  · rintro a e b ⟨counts, refusing⟩ stepped spares
    exact ⟨counts_step counts stepped, (refuses_of_spares counts refusing stepped spares).1⟩

/-- **When the server refuses its surplus connections**: in every step of a run, just if no step of
it calls the write event of one or completes a frame of one. -/
theorem refuses_iff (mMaxConnections : Nat) (es : List ServerStep) (s : Server) :
    Runs (step mMaxConnections) (Refuses mMaxConnections) init es s ↔
      Runs (step mMaxConnections) (fun s e _ => Spares s e) init es s := by
  constructor
  · intro run
    induction run with
    | nil => exact .nil
    | snoc _ stepped refuses ih =>
      exact .snoc ih stepped (spares_of_refuses (refusing_run ih).2 stepped refuses)
  · intro run
    induction run with
    | nil => exact .nil
    | snoc run stepped spares ih =>
      obtain ⟨counts, refusing⟩ := refusing_run run
      exact .snoc ih stepped (refuses_of_spares counts refusing stepped spares)

/-- **A surplus connection outlives its write event**: the second one where one is allowed. -/
theorem surplus_stays : ¬ ∀ mMaxConnections es s e s', 0 < mMaxConnections →
    Runs (step mMaxConnections) (fun _ _ _ => True) init es s → s.step mMaxConnections e = some s' →
      Refuses mMaxConnections s e s' := by
  intro always
  have finished : ((exec (step 1) (fun _ _ _ => True) init
      [.accept 5 Session.sampleHost Session.sampleRaw [], .accept 6 Session.sampleHost Session.sampleRaw []]).map
      fun s => (s.step 1 (.turn 1 (.write []))).map fun s' =>
        (s'.conns[1]?).map fun c => (c.mStatus, c.world.closed)) = some (some (some (.eExit, false))) := by
    decide +kernel
  obtain ⟨s, ran, finished⟩ := Option.map_eq_some_iff.mp finished
  obtain ⟨s', stepped, finished⟩ := Option.map_eq_some_iff.mp finished
  obtain ⟨c, at', facts⟩ := Option.map_eq_some_iff.mp finished
  have refuses := always 1 _ s _ s' Nat.one_pos (.of_exec ran) stepped
  have closed := refuses.2.1 1 _ c rfl rfl at' (congrArg Prod.fst facts)
  cases (congrArg Prod.snd facts).symm.trans closed

end Server

end GreatEvent
