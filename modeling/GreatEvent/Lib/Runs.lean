/-!
# Runs of a partial labelled step

A system is a partial step function `step : σ → ε → Option σ`; a run is a
list of labels the steps follow. `Runs step ok` also asks each step taken to
satisfy `ok`, a condition on the state before, the label and the state after:
`fun _ _ _ => True` gives all runs, and an environment assumption restricts
them. `Runs.invariant` packages the induction over a run once.
-/

namespace Lib

variable {σ ε : Type}

/-- `step` takes `s` to the end state along the labels, every step allowed by `ok`. -/
inductive Runs (step : σ → ε → Option σ) (ok : σ → ε → σ → Prop) (s : σ) : List ε → σ → Prop where
  | nil : Runs step ok s [] s
  | snoc {es : List ε} {t : σ} {e : ε} {u : σ} :
      Runs step ok s es t → step t e = some u → ok t e u → Runs step ok s (es ++ [e]) u

section
variable {step : σ → ε → Option σ} {ok : σ → ε → σ → Prop} {s : σ}

/-- What holds at the start and is kept by every allowed step holds at the end of every run. -/
theorem Runs.invariant {P : σ → Prop} {es : List ε} {t : σ} (run : Runs step ok s es t)
    (start : P s) (keep : ∀ a e b, P a → step a e = some b → ok a e b → P b) : P t := by
  induction run with
  | nil => exact start
  | snoc _ taken allowed ih => exact keep _ _ _ ih taken allowed

/-- A run under a condition is a run under any weaker one. -/
theorem Runs.weaken {ok' : σ → ε → σ → Prop} {es : List ε} {t : σ} (run : Runs step ok s es t)
    (weaker : ∀ a e b, ok a e b → ok' a e b) : Runs step ok' s es t := by
  induction run with
  | nil => exact .nil
  | snoc _ taken allowed ih => exact .snoc ih taken (weaker _ _ _ allowed)

/-- **A property that steps keep exactly when they meet a condition** holds all along the runs whose
steps meet it. -/
theorem Runs.exact_iff {P : σ → Prop} {es : List ε} {t : σ} (start : P s)
    (exact' : ∀ a e b, P a → step a e = some b → (ok a e b ↔ P b)) :
    Runs step ok s es t ↔ Runs step (fun _ _ b => P b) s es t := by
  constructor
  · intro run
    have both : Runs step (fun _ _ b => P b) s es t ∧ P t := by
      induction run with
      | nil => exact ⟨.nil, start⟩
      | snoc _ taken allowed ih =>
        have next := (exact' _ _ _ ih.2 taken).mp allowed
        exact ⟨.snoc ih.1 taken next, next⟩
    exact both.1
  · intro run
    have both : Runs step ok s es t ∧ P t := by
      induction run with
      | nil => exact ⟨.nil, start⟩
      | snoc _ taken next ih => exact ⟨.snoc ih.1 taken ((exact' _ _ _ ih.2 taken).mpr next), next⟩
    exact both.1

/-- A run goes on from where another ended. -/
theorem Runs.append {es es' : List ε} {t u : σ} (run : Runs step ok s es t)
    (rest : Runs step ok t es' u) : Runs step ok s (es ++ es') u := by
  induction rest with
  | nil => rwa [List.append_nil]
  | snoc _ taken allowed ih =>
    rw [← List.append_assoc]
    exact .snoc ih taken allowed

theorem Runs.of_nil {es : List ε} {u : σ} (run : Runs step ok s es u) (eq : es = []) : u = s := by
  cases run with
  | nil => rfl
  | snoc => exact absurd eq (List.append_ne_nil_of_right_ne_nil _ (List.cons_ne_nil _ _))

/-- The first step of a run. -/
theorem Runs.of_cons {e : ε} {es es' : List ε} {u : σ} (run : Runs step ok s es' u) (eq : es' = e :: es) :
    ∃ t, step s e = some t ∧ ok s e t ∧ Runs step ok t es u := by
  induction run generalizing es with
  | nil => cases eq
  | @snoc front a last u before taken allowed ih =>
    cases front with
    | nil =>
      cases before.of_nil rfl
      cases eq
      exact ⟨u, taken, allowed, .nil⟩
    | cons first front =>
      cases eq
      obtain ⟨t, taken', allowed', rest⟩ := ih rfl
      exact ⟨t, taken', allowed', .snoc rest taken allowed⟩

/-- One allowed step is a run. -/
theorem Runs.single {e : ε} {t : σ} (taken : step s e = some t) (allowed : ok s e t) :
    Runs step ok s [e] t :=
  .snoc .nil taken allowed

end

section
variable (step : σ → ε → Option σ) (ok : σ → ε → σ → Prop) [∀ s e t, Decidable (ok s e t)]

/-- The end of the run along the labels, if every step can be taken and is allowed. -/
def exec : σ → List ε → Option σ
  | s, [] => some s
  | s, e :: es =>
    match step s e with
    | some t => if ok s e t then exec t es else none
    | none => none

variable {step ok}

theorem Runs.append_exec {s t u : σ} {es es' : List ε} (run : Runs step ok s es t)
    (rest : exec step ok t es' = some u) : Runs step ok s (es ++ es') u := by
  induction es' generalizing es t with
  | nil =>
    cases rest
    rwa [List.append_nil]
  | cons e es' ih =>
    unfold exec at rest
    split at rest
    case h_2 => cases rest
    case h_1 next taken =>
      split at rest
      case isFalse => cases rest
      case isTrue allowed =>
        rw [List.append_cons]
        exact ih (.snoc run taken allowed) rest

/-- Running the labels gives a run. -/
theorem Runs.of_exec {s t : σ} {es : List ε} (end' : exec step ok s es = some t) :
    Runs step ok s es t :=
  Runs.append_exec .nil end'

end

end Lib
