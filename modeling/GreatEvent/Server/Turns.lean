import GreatEvent.Server.EventCall

/-!
# One turn of the event loop

`fire` is a callback of `EventCall` around one method of the session. The
callbacks themselves only touch event flags, which no invariant here is
about: `Core` is what is left of a session when the flags are dropped, and
`fire_returns` reduces a turn to the method it calls.
-/

namespace GreatEvent

open Lib

/-- A session without its event flags and the kernel's coming answers. -/
structure Core (τ : Type) where
  obj : τ
  inp : List Byte
  wire : List Byte
  trace : List Obs

namespace World

variable {τ : Type}

def core (w : World τ) : Core τ := ⟨w.obj, w.inp, w.wire, w.trace⟩

/-- Stopped inside a callback. -/
def Halted (w : World τ) : Prop := w.halted ≠ none

end World

section
variable {τ : Type} [Callbacks τ]

/-- The method of the session that an event's callback calls; a timeout calls none. -/
def Event.method : Event → Act τ Int
  | .read .. => Callbacks.readBuffer
  | .write _ => Callbacks.writeBuffer
  | .timer => Callbacks.setHeartBeat
  | .readTimeout => pure 0
  | .writeTimeout => pure 0

theorem live_of_fire {w w' : World τ} {e : Event} (fired : fire w e = some w') : w.Live := by
  unfold fire at fired
  split at fired
  case isTrue live => exact live
  case isFalse => cases fired

/-- The teardown that follows when the method of the event has returned `ret`. -/
def Event.tearsDown : Event → Int → Option Teardown
  | .read .., ret => if ret = 0 then some .onRead else none
  | .write _, ret => if ret = ownSockExit then some .onWrite else none
  | _, _ => none

theorem Event.ret_of_tearsDown {e : Event} {ret : Int} (tears : e.tearsDown ret = some .onRead) :
    ret = 0 ∧ ∃ recvs sends, e = .read recvs sends := by
  cases e with
  | read recvs sends =>
    refine ⟨Classical.byContradiction fun more => ?_, recvs, sends, rfl⟩
    rw [tearsDown, if_neg more] at tears
    cases tears
  | write sends =>
    rw [tearsDown] at tears
    split at tears <;> cases tears
  | _ => cases tears

/-- **A turn is its method.** In a world that differs from the one before in event flags only, the
event's method returns or stops; what it establishes of the session's core is left as it is, but for
the log of a teardown. -/
theorem fire_returns {w w' : World τ} {e : Event} (fired : fire w e = some w')
    {R : Int → Core τ → Prop} {H : Core τ → Prop}
    (method : ∀ d : World τ, d.core = w.core → d.recvs = e.recvs → d.sends = e.sends → d.Live →
      wp (e.method : Act τ Int) (fun ret t => R ret t.core) (fun _ t => H t.core) d) :
    (∃ ret, e.tearsDown ret = none ∧ R ret w'.core) ∨
    (∃ ret by' c, e.tearsDown ret = some by' ∧ R ret c ∧ w'.closed = true ∧
      w'.core = { c with trace := c.trace ++ [.teardown by'] }) ∨
    (w'.Halted ∧ H w'.core) := by
  have live := live_of_fire fired
  rw [fire, if_pos live] at fired
  obtain rfl := Option.some.inj fired
  refine after_of_wp (P := fun t => (∃ ret, e.tearsDown ret = none ∧ R ret t.core) ∨
    (∃ ret by' c, e.tearsDown ret = some by' ∧ R ret c ∧ t.closed = true ∧
      t.core = { c with trace := c.trace ++ [.teardown by'] }) ∨ (t.Halted ∧ H t.core)) ?_
  have stopped : ∀ (s : Stop) (t : World τ), H t.core →
      (({ t with halted := some s } : World τ).Halted ∧
        H ({ t with halted := some s } : World τ).core) :=
    fun s t h => ⟨Option.some_ne_none s, h⟩
  cases e with
  | read recvs sends =>
    simp only [Event.callback, EventCall.onRead, wp_bind, wp_modify, if_true]
    refine (method { w.deliver (.read recvs sends) with mReading := false } rfl rfl rfl
      live).mono (fun ret t post => ?_) (fun s t post => .inr (.inr (stopped s t post)))
    simp only [wp_ite, EventCall.teardown, wp_bind, wp_emit, wp_modify, wp_addReadEvent]
    split
    case isTrue zero => exact .inr (.inl ⟨ret, .onRead, t.core, if_pos zero, post, trivial, rfl⟩)
    case isFalse more =>
      split <;> exact .inl ⟨ret, if_neg more, post⟩
  | readTimeout =>
    simp only [Event.callback, EventCall.onRead, wp_bind, wp_modify, Bool.false_eq_true, if_false,
      wp_addReadEvent]
    exact .inl ⟨0, rfl, method (w.deliver .readTimeout) rfl rfl rfl live⟩
  | write sends =>
    simp only [Event.callback, EventCall.onWrite, wp_bind, wp_modify, if_true]
    refine (method { w.deliver (.write sends) with mWriting := false } rfl rfl rfl
      live).mono (fun ret t post => ?_) (fun s t post => .inr (.inr (stopped s t post)))
    simp only [wp_ite, EventCall.teardown, wp_bind, wp_emit, wp_modify, wp_addWriteEvent]
    split
    case isTrue exits => exact .inr (.inl ⟨ret, .onWrite, t.core, if_pos exits, post, trivial, rfl⟩)
    case isFalse goes =>
      split
      · split <;> exact .inl ⟨ret, if_neg goes, post⟩
      · exact .inl ⟨ret, if_neg goes, post⟩
  | writeTimeout =>
    exact .inl ⟨0, rfl, method (w.deliver .writeTimeout) rfl rfl rfl live⟩
  | timer =>
    simp only [Event.callback, EventCall.onTimer, wp_bind, wp_modify]
    exact (method (w.deliver .timer) rfl rfl rfl live).mono (fun ret _ post => .inl ⟨ret, rfl, post⟩)
      (fun s t post => .inr (.inr (stopped s t post)))

/-- What the method establishes whatever it returns, the turn establishes. -/
theorem fire_rule {w w' : World τ} {e : Event} (fired : fire w e = some w') {Q H : Core τ → Prop}
    (torn : ∀ c by', Q c → Q { c with trace := c.trace ++ [.teardown by'] })
    (method : ∀ d : World τ, d.core = w.core → d.recvs = e.recvs → d.sends = e.sends → d.Live →
      wp (e.method : Act τ Int) (fun _ t => Q t.core) (fun _ t => H t.core) d) :
    Q w'.core ∨ (w'.Halted ∧ H w'.core) := by
  rcases fire_returns fired method with ⟨_, _, post⟩ | ⟨_, by', c, _, post, _, same⟩ | stopped
  · exact .inl post
  · exact .inl (same ▸ torn c by' post)
  · exact .inr stopped

/-- What the method keeps of the session's core, whether it returns or stops, the turn keeps. -/
theorem fire_keeps {w w' : World τ} {e : Event} (fired : fire w e = some w') {P : Core τ → Prop}
    (torn : ∀ c by', P c → P { c with trace := c.trace ++ [.teardown by'] })
    (method : ∀ d : World τ, d.core = w.core → d.recvs = e.recvs → d.sends = e.sends → d.Live →
      wp (e.method : Act τ Int) (fun _ t => P t.core) (fun _ t => P t.core) d) : P w'.core :=
  (fire_rule fired torn method).elim id And.right

/-! ## A turn with its flags -/

/-- The state in which a read callback calls the session's method. -/
def World.reading (w : World τ) (recvs : List RecvResult) (sends : List SendResult) : World τ :=
  { w.deliver (.read recvs sends) with mReading := false }

/-- The state in which a write callback calls the session's method. -/
def World.writing (w : World τ) (sends : List SendResult) : World τ :=
  { w.deliver (.write sends) with mWriting := false }

/-- `addEvent(session, EV_READ, fd)` has been called. -/
def World.armRead (w : World τ) : World τ :=
  if w.mReading then w else { w with mReading := true, readEvent := true }

/-- `addEvent(session, EV_WRITE, fd)` has been called. -/
def World.armWrite (w : World τ) : World τ :=
  if w.mWriting then w else { w with mWriting := true, writeEvent := true }

/-- The session has been taken down. -/
def World.torn (w : World τ) (by' : Teardown) : World τ :=
  { w with
    readEvent := false
    writeEvent := false
    timeEvent := false
    closed := true
    trace := w.trace ++ [.teardown by'] }

/-- The state after a read callback whose method returned `ret`. -/
def World.afterRead (w : World τ) (ret : Int) : World τ :=
  if ret = 0 then w.torn .onRead else w.armRead

/-- The state after a write callback whose method returned `ret`. -/
def World.afterWrite (w : World τ) (ret : Int) : World τ :=
  if ret = ownSockExit then w.torn .onWrite else if ret ≠ 0 then w.armWrite else w

/-- The state a callback leaves that has stopped inside. -/
def World.stopped (w : World τ) (s : Stop) : World τ := { w with halted := some s }

end

section
variable {τ : Type} {w : World τ}

theorem World.not_live_of_closed (closed : w.closed = true) : ¬ w.Live := by
  rintro ⟨exists', -⟩
  rw [closed] at exists'
  cases exists'

theorem World.not_live_of_halted (halted : w.Halted) : ¬ w.Live :=
  fun live => halted live.2

/-- A teardown queues nothing. -/
theorem queuedIn_torn {c : Core τ} {by' : Teardown}
    (same : w.core = { c with trace := c.trace ++ [.teardown by'] }) : queuedIn w.trace = queuedIn c.trace := by
  have trace : w.trace = c.trace ++ [.teardown by'] := congrArg Core.trace same
  rw [trace, queuedIn_append]
  exact List.append_nil _

end

section
variable {τ : Type} (w : World τ)

@[simp] theorem World.armRead_obj : w.armRead.obj = w.obj := by unfold armRead; split <;> rfl

@[simp] theorem World.armRead_inp : w.armRead.inp = w.inp := by unfold armRead; split <;> rfl

@[simp] theorem World.armRead_halted : w.armRead.halted = w.halted := by unfold armRead; split <;> rfl

@[simp] theorem World.armRead_trace : w.armRead.trace = w.trace := by unfold armRead; split <;> rfl

@[simp] theorem World.armRead_mWriting : w.armRead.mWriting = w.mWriting := by
  unfold armRead
  split <;> rfl

@[simp] theorem World.armRead_writeEvent : w.armRead.writeEvent = w.writeEvent := by
  unfold armRead
  split <;> rfl

theorem World.afterRead_obj (ret : Int) : (w.afterRead ret).obj = w.obj := by
  unfold afterRead
  split
  · rfl
  · exact w.armRead_obj

theorem World.afterRead_inp (ret : Int) : (w.afterRead ret).inp = w.inp := by
  unfold afterRead
  split
  · rfl
  · exact w.armRead_inp

theorem World.afterRead_halted (ret : Int) : (w.afterRead ret).halted = w.halted := by
  unfold afterRead
  split
  · rfl
  · exact w.armRead_halted

/-- Output is left to be sent: the write event is armed again. -/
theorem World.afterWrite_pos {ret : Int} (pos : 0 < ret) : w.afterWrite ret = w.armWrite := by
  have goes : ret ≠ ownSockExit := by
    unfold ownSockExit
    omega
  rw [World.afterWrite, if_neg goes, if_pos (by omega)]

theorem World.afterRead_pos {ret : Int} (pos : 0 < ret) : w.afterRead ret = w.armRead :=
  if_neg (by omega)

end

section
variable {τ : Type} [Callbacks τ] {w w' : World τ} {P : World τ → Prop}

theorem fire_read {recvs : List RecvResult} {sends : List SendResult}
    (fired : fire w (.read recvs sends) = some w')
    (method : wp (Callbacks.readBuffer : Act τ Int) (fun ret t => P (t.afterRead ret))
      (fun s t => P (t.stopped s)) (w.reading recvs sends)) : P w' := by
  rw [fire, if_pos (live_of_fire fired)] at fired
  obtain rfl := Option.some.inj fired
  apply after_of_wp
  simp only [Event.callback, EventCall.onRead, wp_bind, wp_modify, if_true]
  apply method.mono
  · intro ret t post
    simp only [wp_ite, EventCall.teardown, wp_bind, wp_emit, wp_modify, wp_addReadEvent]
    unfold World.afterRead at post
    split
    case isTrue zero =>
      rw [if_pos zero] at post
      exact post
    case isFalse more =>
      rw [if_neg more] at post
      exact post
  · exact fun _ _ post => post

theorem fire_readTimeout (fired : fire w .readTimeout = some w')
    (post : P ({ w.deliver .readTimeout with mReading := false } : World τ).armRead) : P w' := by
  rw [fire, if_pos (live_of_fire fired)] at fired
  obtain rfl := Option.some.inj fired
  apply after_of_wp
  simp only [Event.callback, EventCall.onRead, wp_bind, wp_modify, Bool.false_eq_true, if_false,
    wp_addReadEvent]
  exact post

theorem fire_write {sends : List SendResult} (fired : fire w (.write sends) = some w')
    (method : wp (Callbacks.writeBuffer : Act τ Int) (fun ret t => P (t.afterWrite ret))
      (fun s t => P (t.stopped s)) (w.writing sends)) : P w' := by
  rw [fire, if_pos (live_of_fire fired)] at fired
  obtain rfl := Option.some.inj fired
  apply after_of_wp
  simp only [Event.callback, EventCall.onWrite, wp_bind, wp_modify, if_true]
  apply method.mono
  · intro ret t post
    simp only [wp_ite, EventCall.teardown, wp_bind, wp_emit, wp_modify, wp_addWriteEvent, wp_pure]
    unfold World.afterWrite at post
    split
    case isTrue exits =>
      rw [if_pos exits] at post
      exact post
    case isFalse goes =>
      rw [if_neg goes] at post
      split
      case isTrue more =>
        rw [if_pos more] at post
        exact post
      case isFalse done =>
        rw [if_neg done] at post
        exact post
  · exact fun _ _ post => post

theorem fire_writeTimeout (fired : fire w .writeTimeout = some w')
    (post : P { w.deliver .writeTimeout with mWriting := false }) : P w' := by
  rw [fire, if_pos (live_of_fire fired)] at fired
  obtain rfl := Option.some.inj fired
  apply after_of_wp
  simp only [Event.callback, EventCall.onWrite, wp_bind, wp_modify, Bool.false_eq_true, if_false,
    wp_pure]
  exact post

theorem fire_timer (fired : fire w .timer = some w')
    (method : wp (Callbacks.setHeartBeat : Act τ Int) (fun _ t => P { t with timeEvent := true })
      (fun s t => P (t.stopped s)) (w.deliver .timer)) : P w' := by
  rw [fire, if_pos (live_of_fire fired)] at fired
  obtain rfl := Option.some.inj fired
  apply after_of_wp
  simp only [Event.callback, EventCall.onTimer, wp_bind, wp_modify]
  exact method.mono (fun _ _ post => post) (fun _ _ post => post)

end

end GreatEvent
