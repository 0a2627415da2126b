/-!
# Safety properties of finite traces

Two properties a log of observations can have, each with the monitor that
decides it while the log grows: at most `n` events of a kind between two
separators (`AtMostBetween`, monitored by the count since the last
separator), and silence between a stop and the next resume (`QuietUntil`,
monitored by whether the last stop has been resumed). Both hold of the empty
log, and one more observation keeps them when the monitor allows it.
-/

namespace Lib

variable {α : Type}

/-- A stretch of the trace without a separator has at most `n` events `p`. -/
def AtMostBetween (n : Nat) (p sep : α → Bool) (trace : List α) : Prop :=
  ∀ before between after, trace = before ++ between ++ after → (∀ o ∈ between, sep o = false) →
    between.countP p ≤ n

/-- Number of events `p` since the last separator. -/
def countSince (p sep : α → Bool) (trace : List α) : Nat :=
  trace.foldl (fun n o => if sep o then 0 else if p o then n + 1 else n) 0

/-- Between a stop and any later event `p` lies a resume. -/
def QuietUntil (stop p resume : α → Bool) (trace : List α) : Prop :=
  ∀ before s between o after, trace = before ++ s :: between ++ o :: after → stop s = true →
    p o = true → ∃ r ∈ between, resume r = true

/-- The trace has a stop with no resume after it. -/
def Stopped (stop resume : α → Bool) (trace : List α) : Prop :=
  ∃ before s between, trace = before ++ s :: between ∧ stop s = true ∧
    ∀ r ∈ between, resume r = false

/-- Before any event `p` lies a release. -/
def NoneBefore (p release : α → Bool) (trace : List α) : Prop :=
  ∀ before o after, trace = before ++ o :: after → p o = true → ∃ r ∈ before, release r = true

/-- A list whose end is cut off one element earlier or not at all. -/
theorem snoc_eq_append {s t front : List α} {o : α} (same : s ++ [o] = front ++ t) :
    (t = [] ∧ front = s ++ [o]) ∨ ∃ rest, t = rest ++ [o] ∧ s = front ++ rest := by
  rcases List.eq_nil_or_concat t with rfl | ⟨rest, last, rfl⟩
  · exact .inl ⟨rfl, by simpa using same.symm⟩
  · rw [List.concat_eq_append, ← List.append_assoc] at same
    obtain ⟨cut, ends⟩ := List.append_inj' same rfl
    cases ends
    exact .inr ⟨rest, List.concat_eq_append, cut⟩

section
variable {p sep : α → Bool} {n : Nat}

@[simp] theorem countSince_snoc (trace : List α) (o : α) : countSince p sep (trace ++ [o]) =
    if sep o then 0 else if p o then countSince p sep trace + 1 else countSince p sep trace := by
  simp [countSince]

/-- Counting through a stretch without separator. -/
theorem foldl_count (m : Nat) {between : List α} (open' : ∀ o ∈ between, sep o = false) :
    between.foldl (fun n o => if sep o then 0 else if p o then n + 1 else n) m =
      m + between.countP p := by
  induction between generalizing m with
  | nil => rfl
  | cons o rest ih =>
    have here := open' o List.mem_cons_self
    have there := fun x hx => open' x (List.mem_cons_of_mem o hx)
    rw [List.foldl_cons, ih _ there, List.countP_cons, here, if_neg Bool.false_ne_true]
    by_cases counted : p o = true
    · rw [if_pos counted, if_pos counted]
      omega
    · rw [if_neg counted, if_neg counted]
      omega

theorem countP_le_countSince {before between : List α} (open' : ∀ o ∈ between, sep o = false) :
    between.countP p ≤ countSince p sep (before ++ between) := by
  rw [countSince, List.foldl_append, foldl_count _ open']
  exact Nat.le_add_left _ _

theorem AtMostBetween.nil : AtMostBetween n p sep [] := by
  intro before between after same _
  obtain rfl : between = [] := by simp_all
  exact Nat.zero_le n

/-- The bound survives an observation after which the count is within it. -/
theorem AtMostBetween.snoc {trace : List α} {o : α} (bound : AtMostBetween n p sep trace)
    (within : countSince p sep (trace ++ [o]) ≤ n) : AtMostBetween n p sep (trace ++ [o]) := by
  intro before between after same open'
  rcases snoc_eq_append same with ⟨rfl, all⟩ | ⟨rest, rfl, cut⟩
  · rw [← all] at within
    exact Nat.le_trans (countP_le_countSince open') within
  · exact bound before between rest cut open'

end

section
variable (stop p resume : α → Bool)

/-- The monitor of `QuietUntil`: whether a stop stands, and whether all has been quiet. -/
def quietMonitor : Bool → List α → Bool
  | _, [] => true
  | stopped, o :: rest =>
    !(stopped && p o) && quietMonitor (stop o || (stopped && !resume o)) rest

/-- The monitor of `NoneBefore`. -/
def noneMonitor : List α → Bool
  | [] => true
  | o :: rest => !p o && (resume o || noneMonitor rest)

end

section
variable {stop p resume : α → Bool}

/-- A quiet trace passes its monitor, also one entered with a stop standing. -/
theorem QuietUntil.monitor_from {trace : List α} {stopped : Bool}
    (quiet : QuietUntil stop p resume trace)
    (held : stopped = true → NoneBefore p resume trace) :
    quietMonitor stop p resume stopped trace = true := by
  induction trace generalizing stopped with
  | nil => rfl
  | cons o rest ih =>
    rw [quietMonitor, Bool.and_eq_true]
    constructor
    · cases stopped with
      | false => rfl
      | true =>
        cases isP : p o with
        | false => rfl
        | true =>
          obtain ⟨r, member, -⟩ := held rfl [] o rest rfl isP
          cases member
    · refine ih (fun before s between q after same => ?_) (fun stands => ?_)
      · exact quiet (o :: before) s between q after (by rw [same]; rfl)
      · intro before q after same isP
        rcases Bool.or_eq_true .. ▸ stands with isStop | both
        · exact quiet [] o before q after (by rw [same]; rfl) isStop isP
        · rw [Bool.and_eq_true, Bool.not_eq_true'] at both
          obtain ⟨r, member, isResume⟩ := held both.1 (o :: before) q after (by rw [same]; rfl) isP
          rcases List.mem_cons.mp member with rfl | member
          · rw [both.2] at isResume
            cases isResume
          · exact ⟨r, member, isResume⟩

theorem QuietUntil.monitor {trace : List α} (quiet : QuietUntil stop p resume trace) :
    quietMonitor stop p resume false trace = true :=
  quiet.monitor_from (absurd · Bool.false_ne_true)

theorem NoneBefore.monitor {trace : List α} (none : NoneBefore p resume trace) :
    noneMonitor p resume trace = true := by
  induction trace with
  | nil => rfl
  | cons o rest ih =>
    rw [noneMonitor, Bool.and_eq_true, Bool.not_eq_true', Bool.or_eq_true]
    constructor
    · cases isP : p o with
      | false => rfl
      | true =>
        obtain ⟨r, member, -⟩ := none [] o rest rfl isP
        cases member
    · cases isRelease : resume o with
      | true => exact .inl rfl
      | false =>
        refine .inr (ih fun before q after same isP => ?_)
        obtain ⟨r, member, isResume⟩ := none (o :: before) q after (by rw [same]; rfl) isP
        rcases List.mem_cons.mp member with rfl | member
        · rw [isRelease] at isResume
          cases isResume
        · exact ⟨r, member, isResume⟩

theorem QuietUntil.nil : QuietUntil stop p resume [] := by
  intro before s between o after same
  simp at same

/-- Silence is kept by an observation that is no `p`, or that comes while nothing is stopped. -/
theorem QuietUntil.snoc {trace : List α} {o : α} (quiet : QuietUntil stop p resume trace)
    (allowed : p o = true → ¬ Stopped stop resume trace) :
    QuietUntil stop p resume (trace ++ [o]) := by
  intro before s between q after same isStop isP
  rcases snoc_eq_append same with ⟨none, _⟩ | ⟨rest, tail, cut⟩
  · cases none
  cases rest with
  | nil =>
    obtain ⟨rfl, rfl⟩ := List.cons.inj tail
    rw [List.append_nil] at cut
    refine Classical.byContradiction fun none => allowed isP ⟨before, s, between, cut, isStop, ?_⟩
    intro r member
    exact Bool.eq_false_iff.mpr fun yes => none ⟨r, member, yes⟩
  | cons x rest =>
    obtain ⟨rfl, rfl⟩ := List.cons.inj tail
    exact quiet before s between q rest cut isStop isP

theorem not_stopped_nil : ¬ Stopped stop resume ([] : List α) := by
  rintro ⟨before, s, between, same, -⟩
  simp at same

/-- After one more observation the trace is stopped by it, or it was stopped and is not resumed. -/
theorem Stopped.of_snoc {trace : List α} {o : α} (stopped : Stopped stop resume (trace ++ [o])) :
    stop o = true ∨ (Stopped stop resume trace ∧ resume o = false) := by
  obtain ⟨before, s, between, same, isStop, open'⟩ := stopped
  rcases snoc_eq_append same with ⟨none, _⟩ | ⟨rest, tail, cut⟩
  · cases none
  cases rest with
  | nil =>
    obtain ⟨rfl, rfl⟩ := List.cons.inj tail
    exact .inl isStop
  | cons x rest =>
    obtain ⟨rfl, rfl⟩ := List.cons.inj tail
    refine .inr ⟨⟨before, s, rest, cut, isStop, fun r hr => open' r ?_⟩, open' o ?_⟩ <;> simp_all

end

section
variable {p release : α → Bool}

theorem NoneBefore.snoc {trace : List α} {o : α} (none : NoneBefore p release trace)
    (allowed : p o = true → ∃ r ∈ trace, release r = true) :
    NoneBefore p release (trace ++ [o]) := by
  intro before q after same isP
  rcases snoc_eq_append same with ⟨empty, _⟩ | ⟨rest, tail, cut⟩
  · cases empty
  cases rest with
  | nil =>
    obtain ⟨rfl, rfl⟩ := List.cons.inj tail
    rw [List.append_nil] at cut
    exact cut ▸ allowed isP
  | cons x rest =>
    obtain ⟨rfl, rfl⟩ := List.cons.inj tail
    exact none before q rest cut isP

end

end Lib
