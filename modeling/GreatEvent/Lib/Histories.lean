/-!
# Histories of operations

An object with total operations goes through the states `before.foldl step s`
for the fronts `before` of its history. `Throughout` says a property holds in
all of them, `EachMeets` that every operation meets a condition in the state
it finds. Where one operation keeps the property exactly when it meets the
condition, the two agree (`throughout_iff`); an invariant of the states where
the property holds may help to tell.
-/

namespace Lib

variable {σ τ ε : Type} {step : σ → ε → σ} {P I : σ → Prop} {C : σ → ε → Prop} {s : σ}

/-- `P` holds at the start and after every operation. -/
def Throughout (step : σ → ε → σ) (P : σ → Prop) (s : σ) (es : List ε) : Prop :=
  ∀ before, before <+: es → P (before.foldl step s)

/-- Every operation meets `C` in the state it finds. -/
def EachMeets (step : σ → ε → σ) (C : σ → ε → Prop) (s : σ) (es : List ε) : Prop :=
  ∀ before e, before ++ [e] <+: es → C (before.foldl step s) e

theorem throughout_nil : Throughout step P s [] ↔ P s := by
  constructor
  · intro all
    exact all [] List.nil_prefix
  · intro start before front
    rw [List.prefix_nil.mp front]
    exact start

theorem throughout_cons (e : ε) (es : List ε) :
    Throughout step P s (e :: es) ↔ P s ∧ Throughout step P (step s e) es := by
  constructor
  · intro all
    refine ⟨all [] List.nil_prefix, fun before front => ?_⟩
    exact all (e :: before) (List.cons_prefix_cons.mpr ⟨rfl, front⟩)
  · rintro ⟨start, rest⟩ before front
    cases before with
    | nil => exact start
    | cons e' before =>
      obtain ⟨rfl, within⟩ := List.cons_prefix_cons.mp front
      exact rest before within

theorem eachMeets_nil : EachMeets step C s [] := by
  intro before e front
  exact absurd (List.prefix_nil.mp front) (by simp)

theorem eachMeets_cons (e : ε) (es : List ε) :
    EachMeets step C s (e :: es) ↔ C s e ∧ EachMeets step C (step s e) es := by
  constructor
  · intro all
    refine ⟨all [] e (List.cons_prefix_cons.mpr ⟨rfl, List.nil_prefix⟩), fun before e' front => ?_⟩
    exact all (e :: before) e' (List.cons_prefix_cons.mpr ⟨rfl, front⟩)
  · rintro ⟨here, rest⟩ before e' front
    cases before with
    | nil =>
      obtain ⟨rfl, -⟩ := List.cons_prefix_cons.mp front
      exact here
    | cons e'' before =>
      obtain ⟨rfl, within⟩ := List.cons_prefix_cons.mp front
      exact rest before e' within

/-- A condition on a part of the state is met in the history of this part. -/
theorem eachMeets_map {step' : τ → ε → τ} {C : τ → ε → Prop} (f : σ → τ)
    (part : ∀ s e, f (step s e) = step' (f s) e) {es : List ε} :
    EachMeets step (fun s => C (f s)) s es ↔ EachMeets step' C (f s) es := by
  have states : ∀ before : List ε, f (before.foldl step s) = before.foldl step' (f s) := fun before =>
    (List.foldl_hom f fun s e => (part s e).symm).symm
  simp only [EachMeets, states]

/-- What is kept as long as the property holds. -/
theorem Throughout.inv {es : List ε} (all : Throughout step P s es) (inv : I s)
    (keep : ∀ s e, P s → I s → P (step s e) → I (step s e)) : Throughout step I s es := by
  induction es generalizing s with
  | nil => exact throughout_nil.mpr inv
  | cons e es ih =>
    obtain ⟨start, rest⟩ := (throughout_cons e es).mp all
    have next := keep s e start inv (rest [] List.nil_prefix)
    exact (throughout_cons e es).mpr ⟨inv, ih rest next⟩

/-- **A property that an operation keeps exactly when it meets a condition**
holds throughout the histories whose operations all meet it. -/
theorem throughout_iff (start : P s) (inv : I s) (keep : ∀ s e, P s → I s → P (step s e) → I (step s e))
    (exact' : ∀ s e, P s → I s → (P (step s e) ↔ C s e)) {es : List ε} :
    Throughout step P s es ↔ EachMeets step C s es := by
  induction es generalizing s with
  | nil => exact iff_of_true (throughout_nil.mpr start) eachMeets_nil
  | cons e es ih =>
    rw [throughout_cons, eachMeets_cons, ← exact' s e start inv]
    constructor
    · rintro ⟨-, rest⟩
      have next : P (step s e) := rest [] List.nil_prefix
      exact ⟨next, (ih next (keep s e start inv next)).mp rest⟩
    · rintro ⟨next, rest⟩
      exact ⟨start, (ih next (keep s e start inv next)).mpr rest⟩

end Lib
