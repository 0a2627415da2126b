import Mathlib.Algebra.Order.Group.Int
import Mathlib.Order.Basic

/-!
# `struct timeval`

The macros of `config.h` on times whose microseconds are less than a second.
Reading a time in microseconds makes them the order, the sum and the
difference of the integers.
-/

namespace GreatEvent

/-- `struct timeval` -/
structure Timeval where
  tv_sec : Int
  tv_usec : Int
  usec_nonneg : 0 ≤ tv_usec
  usec_lt : tv_usec < 1000000
  deriving DecidableEq, Repr

namespace Timeval

/-- `timerclear` -/
def clear : Timeval := ⟨0, 0, by decide, by decide⟩

/-- A time of whole seconds. -/
def ofSeconds (seconds : Int) : Timeval := { clear with tv_sec := seconds }

/-- The time in microseconds. -/
def micros (t : Timeval) : Int := t.tv_sec * 1000000 + t.tv_usec

/-- `timercmp(a, b, <)` -/
def lt (a b : Timeval) : Bool :=
  if a.tv_sec = b.tv_sec then decide (a.tv_usec < b.tv_usec) else decide (a.tv_sec < b.tv_sec)

/-- `timercmp(a, b, <=)` -/
def le (a b : Timeval) : Bool :=
  if a.tv_sec = b.tv_sec then decide (a.tv_usec ≤ b.tv_usec) else decide (a.tv_sec ≤ b.tv_sec)

/-- `timeradd` -/
def add (a b : Timeval) : Timeval :=
  if h : 1000000 ≤ a.tv_usec + b.tv_usec then
    ⟨a.tv_sec + b.tv_sec + 1, a.tv_usec + b.tv_usec - 1000000, by omega,
      by have := a.usec_lt; have := b.usec_lt; omega⟩
  else
    ⟨a.tv_sec + b.tv_sec, a.tv_usec + b.tv_usec,
      by have := a.usec_nonneg; have := b.usec_nonneg; omega, by omega⟩

/-- `timersub` -/
def sub (a b : Timeval) : Timeval :=
  if h : a.tv_usec - b.tv_usec < 0 then
    ⟨a.tv_sec - b.tv_sec - 1, a.tv_usec - b.tv_usec + 1000000,
      by have := a.usec_nonneg; have := b.usec_lt; omega, by omega⟩
  else
    ⟨a.tv_sec - b.tv_sec, a.tv_usec - b.tv_usec, by omega,
      by have := a.usec_lt; have := b.usec_nonneg; omega⟩

theorem lt_iff (a b : Timeval) : a.lt b = true ↔ a.micros < b.micros := by
  obtain ⟨s, u, low, high⟩ := a
  obtain ⟨s', u', low', high'⟩ := b
  unfold lt micros
  split <;> simp only [decide_eq_true_eq] at * <;> omega

theorem le_iff (a b : Timeval) : a.le b = true ↔ a.micros ≤ b.micros := by
  obtain ⟨s, u, low, high⟩ := a
  obtain ⟨s', u', low', high'⟩ := b
  unfold le micros
  split <;> simp only [decide_eq_true_eq] at * <;> omega

@[simp] theorem micros_clear : clear.micros = 0 := rfl

@[simp] theorem micros_add (a b : Timeval) : (a.add b).micros = a.micros + b.micros := by
  unfold add
  split <;> simp only [micros] <;> omega

@[simp] theorem micros_sub (a b : Timeval) : (a.sub b).micros = a.micros - b.micros := by
  unfold sub
  split <;> simp only [micros] <;> omega

end Timeval

end GreatEvent
