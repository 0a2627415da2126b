/-!
# An object and what it is for

A client makes calls on an object and sees their answers. The object is a
step function that may break, its purpose an abstract state with an answer to
every call, and `ok` says which calls are made at all. One step that stays
related to the abstract state and gives its answer (`Refines`) makes every
history of calls do so (`Refines.calls`).
-/

namespace Lib

variable {σ τ ε ω : Type}

/-- The answers to a history of calls and the state after it, as long as the object does not
break. -/
def calls (step : σ → ε → Option (ω × σ)) : σ → List ε → Option (List ω × σ)
  | s, [] => some ([], s)
  | s, e :: es => do
    let (o, s) ← step s e
    let (os, s) ← calls step s es
    some (o :: os, s)

/-- The answers the abstract state gives, and how it ends. -/
def answers (next : τ → ε → ω × τ) : τ → List ε → List ω × τ
  | a, [] => ([], a)
  | a, e :: es => ((next a e).1 :: (answers next (next a e).2 es).1, (answers next (next a e).2 es).2)

/-- Every call of the history may be made where it is made. -/
def AllowedIn (next : τ → ε → ω × τ) (ok : τ → ε → Prop) : τ → List ε → Prop
  | _, [] => True
  | a, e :: es => ok a e ∧ AllowedIn next ok (next a e).2 es

instance decidableAllowedIn (next : τ → ε → ω × τ) (ok : τ → ε → Prop)
    [∀ a e, Decidable (ok a e)] (a : τ) (es : List ε) : Decidable (AllowedIn next ok a es) :=
  match es with
  | [] => inferInstanceAs (Decidable True)
  | e :: es =>
    have := decidableAllowedIn next ok (next a e).2 es
    inferInstanceAs (Decidable (_ ∧ _))

/-- A call that may be made is answered as the abstract state does, and leaves related states. -/
def Refines (step : σ → ε → Option (ω × σ)) (next : τ → ε → ω × τ) (ok : τ → ε → Prop)
    (rel : σ → τ → Prop) : Prop :=
  ∀ s a e, rel s a → ok a e → ∃ s', step s e = some ((next a e).1, s') ∧ rel s' (next a e).2

/-- **Refinement goes from one call to all histories.** -/
theorem Refines.calls {step : σ → ε → Option (ω × σ)} {next : τ → ε → ω × τ} {ok : τ → ε → Prop}
    {rel : σ → τ → Prop} (refines : Refines step next ok rel) {s : σ} {a : τ} (start : rel s a)
    {es : List ε} (allowed : AllowedIn next ok a es) :
    ∃ s', Lib.calls step s es = some ((answers next a es).1, s') ∧ rel s' (answers next a es).2 := by
  induction es generalizing s a with
  | nil => exact ⟨s, rfl, start⟩
  | cons e es ih =>
    obtain ⟨here, rest⟩ := allowed
    obtain ⟨s', taken, related⟩ := refines s a e start here
    obtain ⟨t, ran, ends⟩ := ih related rest
    exact ⟨t, by simp [Lib.calls, taken, ran, answers], ends⟩

end Lib
