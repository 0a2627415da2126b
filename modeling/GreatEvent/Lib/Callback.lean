/-!
# Callbacks that may stop in the middle

A callback of an event loop is a program over the state `σ` that returns a
value or stops for a reason `ε` (it never comes back, or it crashes); either
way the state it leaves is kept, so it is an `EStateM ε σ`. `endState` is
that state. `wp act Q E` holds of the states from which `act` returns into
`Q` or stops in `E`; its rules run a program symbolically, and a frame
condition ("nothing else changes") is such a `Q`.
-/

namespace Lib

variable {ε σ α β : Type}

/-- The state a callback leaves, however it ended. -/
def endState : EStateM.Result ε σ α → σ
  | .ok _ s => s
  | .error _ s => s

/-! ## Weakest preconditions -/

/-- From here, `act` returns a value and a state in `Q`, or stops with a reason and a state in `E`. -/
def wp (act : EStateM ε σ α) (Q : α → σ → Prop) (E : ε → σ → Prop) (s : σ) : Prop :=
  match act.run s with
  | .ok a t => Q a t
  | .error e t => E e t

section
variable {Q : α → σ → Prop} {E : ε → σ → Prop} {s : σ}

theorem wp_of_ok {act : EStateM ε σ α} {a : α} {t : σ} (run : act.run s = .ok a t) (post : Q a t) :
    wp act Q E s := by
  simpa only [wp, run] using post

theorem wp_of_error {act : EStateM ε σ α} {e : ε} {t : σ} (run : act.run s = .error e t)
    (post : E e t) : wp act Q E s := by
  simpa only [wp, run] using post

theorem wp.mono {Q' : α → σ → Prop} {E' : ε → σ → Prop} {act : EStateM ε σ α} (h : wp act Q E s)
    (ok : ∀ a t, Q a t → Q' a t) (error : ∀ e t, E e t → E' e t) : wp act Q' E' s := by
  unfold wp at h ⊢
  split at h
  · exact ok _ _ h
  · exact error _ _ h

/-- Two things known of the end are both known of it. -/
theorem wp.and {Q' : α → σ → Prop} {E' : ε → σ → Prop} {act : EStateM ε σ α} (h : wp act Q E s)
    (h' : wp act Q' E' s) : wp act (fun a t => Q a t ∧ Q' a t) (fun e t => E e t ∧ E' e t) s := by
  unfold wp at h h' ⊢
  split at h <;> rename_i run <;> rw [run] at h' <;> exact ⟨h, h'⟩

/-- A callback that cannot stop returns. -/
theorem wp_returns {act : EStateM ε σ α} (h : wp act Q (fun _ _ => False) s) :
    ∃ a t, act.run s = .ok a t ∧ Q a t := by
  unfold wp at h
  split at h <;> rename_i run
  · exact ⟨_, _, run, h⟩
  · exact h.elim

/-- What fails wherever the callback can come to is not what it comes to. -/
theorem wp.not {Q' : α → σ → Prop} {E' : ε → σ → Prop} {act : EStateM ε σ α} (h : wp act Q E s)
    (ok : ∀ a t, Q a t → ¬ Q' a t) (error : ∀ e t, E e t → ¬ E' e t) : ¬ wp act Q' E' s := by
  intro h'
  have both := h.and h'
  unfold wp at both
  split at both
  · exact ok _ _ both.1 both.2
  · exact error _ _ both.1 both.2

/-- What holds of every state holds of the one reached. -/
theorem wp_of_forall {act : EStateM ε σ α} (ok : ∀ a t, Q a t) (error : ∀ e t, E e t) :
    wp act Q E s := by
  unfold wp
  split
  · exact ok _ _
  · exact error _ _

/-- What holds whether the callback returned or stopped holds of the state it leaves. -/
theorem wp.endState {P : σ → Prop} {act : EStateM ε σ α} (h : wp act (fun _ => P) (fun _ => P) s) :
    P (endState (act.run s)) := by
  unfold wp at h
  split at h <;> rename_i run <;> rw [run] <;> exact h

@[simp] theorem wp_pure (a : α) : wp (pure a : EStateM ε σ α) Q E s ↔ Q a s := Iff.rfl

@[simp] theorem wp_throw (e : ε) : wp (throw e : EStateM ε σ α) Q E s ↔ E e s := Iff.rfl

@[simp] theorem wp_bind (x : EStateM ε σ α) (f : α → EStateM ε σ β) {Q : β → σ → Prop} :
    wp (x >>= f) Q E s ↔ wp x (fun a t => wp (f a) Q E t) E s := by
  simp only [wp, EStateM.run_bind]
  cases x.run s <;> rfl

@[simp] theorem wp_get {Q : σ → σ → Prop} : wp (get : EStateM ε σ σ) Q E s ↔ Q s s := Iff.rfl

@[simp] theorem wp_set (t : σ) {Q : PUnit → σ → Prop} :
    wp (set t : EStateM ε σ PUnit) Q E s ↔ Q ⟨⟩ t := Iff.rfl

@[simp] theorem wp_modify (f : σ → σ) {Q : PUnit → σ → Prop} :
    wp (modify f : EStateM ε σ PUnit) Q E s ↔ Q ⟨⟩ (f s) := Iff.rfl

@[simp] theorem wp_ite (c : Prop) [Decidable c] (x y : EStateM ε σ α) :
    wp (if c then x else y) Q E s ↔ if c then wp x Q E s else wp y Q E s := by
  split <;> rfl

end

end Lib
