/-!
# Length-prefixed framing of a stream

A `Framing` is a fixed header length and the body length a header announces.
A `Whole` frame is a header followed by exactly the body it announces; an
`Unfinished` string is one that no whole frame starts. A stream splits into
whole frames and an unfinished rest in one way only
(`Framing.split_unique`), `F.frames` computes the split and `F.headers` the
headers met on the way, announced bodies being skipped whether they have
arrived or not.
-/

namespace Lib

/-- Header length, and the body length that a header announces. -/
structure Framing (α : Type) where
  headLen : Nat
  bodyLen : List α → Nat
  headLen_pos : 0 < headLen

namespace Framing

variable {α : Type} (F : Framing α)

/-- Length of the frame whose header starts `s`. -/
def frameLen (s : List α) : Nat := F.headLen + F.bodyLen (s.take F.headLen)

/-- A header and exactly the body it announces. -/
def Whole (f : List α) : Prop := F.headLen ≤ f.length ∧ f.length = F.frameLen f

/-- No whole frame starts `p`: the header or the body is still incomplete. -/
def Unfinished (p : List α) : Prop := p.length < F.headLen ∨ p.length < F.frameLen p

variable {F}

theorem Whole.pos {f : List α} (whole : F.Whole f) : 0 < f.length :=
  Nat.lt_of_lt_of_le F.headLen_pos whole.1

theorem unfinished_nil : F.Unfinished [] := Or.inl F.headLen_pos

/-- The header fixes the frame length of everything it starts. -/
theorem frameLen_append {s : List α} (long : F.headLen ≤ s.length) (t : List α) :
    F.frameLen (s ++ t) = F.frameLen s := by
  unfold frameLen
  rw [List.take_append_of_le_length long]

theorem Whole.frameLen_append {f : List α} (whole : F.Whole f) (s : List α) :
    F.frameLen (f ++ s) = f.length := by
  rw [Framing.frameLen_append whole.1, ← whole.2]

/-- Two whole frames that start the same stream are the same frame. -/
theorem Whole.eq_of_append {f g s t : List α} (hf : F.Whole f) (hg : F.Whole g)
    (same : f ++ s = g ++ t) : f = g ∧ s = t := by
  have len : f.length = g.length := by
    rw [← hf.frameLen_append s, same, hg.frameLen_append t]
  exact List.append_inj same len

/-- An unfinished rest never starts with a whole frame. -/
theorem Unfinished.not_whole_append {p f s : List α} (rest : F.Unfinished p) (whole : F.Whole f) :
    p ≠ f ++ s := by
  rintro rfl
  have len := whole.frameLen_append s
  rcases rest with short | short
  · have := whole.1
    simp only [List.length_append] at short
    omega
  · rw [len, List.length_append] at short
    omega

/-- **A stream splits in one way** into whole frames and an unfinished rest. -/
theorem split_unique {fs gs : List (List α)} {p q : List α} (hfs : ∀ f ∈ fs, F.Whole f)
    (hgs : ∀ g ∈ gs, F.Whole g) (hp : F.Unfinished p) (hq : F.Unfinished q)
    (same : fs.flatten ++ p = gs.flatten ++ q) : fs = gs ∧ p = q := by
  induction fs generalizing gs with
  | nil =>
    cases gs with
    | nil => exact ⟨rfl, same⟩
    | cons g gs =>
      simp only [List.flatten_nil, List.nil_append, List.flatten_cons, List.append_assoc] at same
      exact absurd same (hp.not_whole_append (hgs g List.mem_cons_self))
  | cons f fs ih =>
    cases gs with
    | nil =>
      simp only [List.flatten_nil, List.nil_append, List.flatten_cons, List.append_assoc] at same
      exact absurd same.symm (hq.not_whole_append (hfs f List.mem_cons_self))
    | cons g gs =>
      simp only [List.flatten_cons, List.append_assoc] at same
      obtain ⟨rfl, tails⟩ :=
        (hfs f List.mem_cons_self).eq_of_append (hgs g List.mem_cons_self) same
      obtain ⟨rfl, rest⟩ := ih (fun x hx => hfs x (List.mem_cons_of_mem _ hx))
        (fun x hx => hgs x (List.mem_cons_of_mem _ hx)) tails
      exact ⟨rfl, rest⟩

/-- Whole frames read off the front of a stream of whole frames are its first frames, and what
is left is the rest of the stream. -/
theorem prefix_of_flatten {fs gs : List (List α)} {s : List α} (hfs : ∀ f ∈ fs, F.Whole f)
    (hgs : ∀ g ∈ gs, F.Whole g) (same : fs.flatten ++ s = gs.flatten) :
    ∃ hs, gs = fs ++ hs ∧ s = hs.flatten := by
  induction fs generalizing gs with
  | nil => exact ⟨gs, rfl, by simpa using same⟩
  | cons f fs ih =>
    cases gs with
    | nil =>
      have empty := congrArg List.length same
      have := (hfs f List.mem_cons_self).pos
      simp only [List.flatten_cons, List.flatten_nil, List.length_append, List.length_nil] at empty
      omega
    | cons g gs =>
      simp only [List.flatten_cons, List.append_assoc] at same
      obtain ⟨rfl, tails⟩ :=
        (hfs f List.mem_cons_self).eq_of_append (hgs g List.mem_cons_self) same
      obtain ⟨hs, rfl, rest⟩ := ih (fun x hx => hfs x (List.mem_cons_of_mem _ hx))
        (fun x hx => hgs x (List.mem_cons_of_mem _ hx)) tails
      exact ⟨hs, rfl, rest⟩

/-- What follows the frames read off the front, once it has a header, begins the next frame. -/
theorem next_of_flatten {fs gs : List (List α)} {p s : List α} (hfs : ∀ f ∈ fs, F.Whole f)
    (hgs : ∀ g ∈ gs, F.Whole g) (same : fs.flatten ++ (p ++ s) = gs.flatten)
    (long : F.headLen ≤ p.length) :
    ∃ g hs, gs = fs ++ g :: hs ∧ F.frameLen p = g.length ∧ p.take F.headLen = g.take F.headLen := by
  obtain ⟨hs, rfl, tail⟩ := prefix_of_flatten hfs hgs same
  cases hs with
  | nil =>
    have empty := congrArg List.length tail
    have pos := F.headLen_pos
    simp only [List.length_append, List.flatten_nil, List.length_nil] at empty
    omega
  | cons g hs =>
    have whole := hgs g (List.mem_append_right _ List.mem_cons_self)
    have heads : p.take F.headLen = g.take F.headLen := by
      have front := congrArg (List.take F.headLen) tail
      rwa [List.flatten_cons, List.take_append_of_le_length long,
        List.take_append_of_le_length whole.1] at front
    refine ⟨g, hs, rfl, ?_, heads⟩
    rw [whole.2, frameLen, frameLen, heads]

/-- A stream that ends inside a frame is no sequence of whole frames. -/
theorem Whole.not_flatten {f rest : List α} (whole : F.Whole f) (open' : F.Unfinished rest)
    (nonempty : rest ≠ []) {fs : List (List α)} (hfs : ∀ g ∈ fs, F.Whole g) :
    f ++ rest ≠ fs.flatten := by
  intro same
  obtain ⟨hs, rfl, tail⟩ := prefix_of_flatten (fun g (member : g ∈ [f]) => List.mem_singleton.mp member ▸ whole) hfs
    (by simpa using same)
  cases hs with
  | nil => exact nonempty tail
  | cons h hs =>
    exact open'.not_whole_append (hfs h (List.mem_append_right _ List.mem_cons_self)) tail

variable (F)

/-- The headers met when frame after frame is skipped; the last body may be incomplete. -/
def headers (s : List α) : List (List α) :=
  if F.headLen ≤ s.length then s.take F.headLen :: headers (s.drop (F.frameLen s)) else []
termination_by s.length
decreasing_by
  have := F.headLen_pos
  simp only [List.length_drop, frameLen]
  omega

/-- The whole frames at the front of `s`, as many as there are. -/
def frames (s : List α) : List (List α) :=
  if F.headLen ≤ s.length ∧ F.frameLen s ≤ s.length then
    s.take (F.frameLen s) :: frames (s.drop (F.frameLen s))
  else []
termination_by s.length
decreasing_by
  have := F.headLen_pos
  simp only [List.length_drop, frameLen]
  omega

variable {F}

theorem headers_long {s : List α} (long : F.headLen ≤ s.length) :
    F.headers s = s.take F.headLen :: F.headers (s.drop (F.frameLen s)) := by
  rw [headers, if_pos long]

theorem headers_short {s : List α} (short : s.length < F.headLen) : F.headers s = [] := by
  rw [headers, if_neg (by omega)]

/-- A header followed by no more than the body it announces is the only header. -/
theorem headers_partial {s : List α} (long : F.headLen ≤ s.length)
    (within : s.length ≤ F.frameLen s) : F.headers s = [s.take F.headLen] := by
  rw [headers_long long, List.drop_eq_nil_of_le within, headers_short (by simpa using F.headLen_pos)]

theorem Whole.headers_append {f : List α} (whole : F.Whole f) (s : List α) :
    F.headers (f ++ s) = f.take F.headLen :: F.headers s := by
  have := whole.1
  rw [headers_long (by simp only [List.length_append]; omega), whole.frameLen_append,
    List.take_append_of_le_length whole.1, List.drop_left]

theorem headers_flatten {fs : List (List α)} (hfs : ∀ f ∈ fs, F.Whole f) (p : List α) :
    F.headers (fs.flatten ++ p) = fs.map (List.take F.headLen) ++ F.headers p := by
  induction fs with
  | nil => rfl
  | cons f fs ih =>
    rw [List.flatten_cons, List.append_assoc, (hfs f List.mem_cons_self).headers_append,
      ih fun x hx => hfs x (List.mem_cons_of_mem _ hx)]
    rfl

theorem length_of_mem_headers {s h : List α} (member : h ∈ F.headers s) : h.length = F.headLen := by
  induction len : s.length using Nat.strongRecOn generalizing s with
  | ind n ih =>
    subst len
    by_cases long : F.headLen ≤ s.length
    · rw [headers_long long] at member
      rcases List.mem_cons.mp member with rfl | later
      · rw [List.length_take]
        omega
      · have := F.headLen_pos
        refine ih _ ?_ later rfl
        simp only [List.length_drop, frameLen]
        omega
    · rw [headers_short (by omega)] at member
      cases member

/-- More of the stream only adds headers. -/
theorem headers_prefix (s t : List α) : F.headers s <+: F.headers (s ++ t) := by
  induction h : s.length using Nat.strongRecOn generalizing s with
  | ind n ih =>
    subst h
    by_cases long : F.headLen ≤ s.length
    · have longer : F.headLen ≤ (s ++ t).length := by
        simp only [List.length_append]
        omega
      rw [headers_long long, headers_long longer, frameLen_append long,
        List.take_append_of_le_length long]
      refine List.cons_prefix_cons.mpr ⟨rfl, ?_⟩
      by_cases inside : F.frameLen s ≤ s.length
      · rw [List.drop_append_of_le_length inside]
        have := F.headLen_pos
        refine ih _ ?_ _ rfl
        simp only [List.length_drop, frameLen]
        omega
      · rw [List.drop_eq_nil_of_le (by omega), headers_short (by simpa using F.headLen_pos)]
        exact List.nil_prefix
    · rw [headers_short (by omega)]
      exact List.nil_prefix

theorem frames_unfinished {p : List α} (rest : F.Unfinished p) : F.frames p = [] := by
  rw [frames, if_neg]
  rcases rest with short | short <;> omega

theorem Whole.frames_append {f : List α} (whole : F.Whole f) (s : List α) :
    F.frames (f ++ s) = f :: F.frames s := by
  have := whole.1
  have len : F.frameLen (f ++ s) = f.length := whole.frameLen_append s
  rw [frames, if_pos (by simp only [List.length_append, len]; omega), len, List.take_left,
    List.drop_left]

/-- `F.frames` reads back the whole frames of a stream. -/
theorem frames_flatten {fs : List (List α)} (hfs : ∀ f ∈ fs, F.Whole f) (p : List α) :
    F.frames (fs.flatten ++ p) = fs ++ F.frames p := by
  induction fs with
  | nil => rfl
  | cons f fs ih =>
    rw [List.flatten_cons, List.append_assoc, (hfs f List.mem_cons_self).frames_append,
      ih fun x hx => hfs x (List.mem_cons_of_mem _ hx)]
    rfl

end Framing

end Lib
