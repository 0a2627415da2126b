import GreatEvent.Lib.Refinement
import GreatEvent.Net.TreeOrder
import Mathlib

/-!
# `tree.h`: the tree stays balanced

No red node has a red child, and every path down passes the same number of
black nodes. `RB_INSERT_COLOR` and `RB_REMOVE_COLOR` restore this from a place
where it is broken, and on the way they never follow a null pointer.
-/

namespace GreatEvent

namespace RBTree

variable {α : Type}

/-- A subtree with its color and the black nodes on each path down from it. -/
inductive Balanced : RBTree α → RBColor → Nat → Prop
  | nil : Balanced nil .black 0
  | red {left right : RBTree α} {n : Nat} (x : α) :
      Balanced left .black n → Balanced right .black n → Balanced (node .red left x right) .red n
  | black {left right : RBTree α} {c d : RBColor} {n : Nat} (x : α) :
      Balanced left c n → Balanced right d n → Balanced (node .black left x right) .black (n + 1)

/-- The color above the end of the path. The root has to be black, as if a red node were above. -/
def above : List (RBBranch α) → RBColor
  | [] => .red
  | parent :: _ => parent.color

/-- The tree around the end of the path is balanced once a subtree with `n` black nodes on each path
is there. -/
inductive Fits : List (RBBranch α) → Nat → Prop
  | root (n : Nat) : Fits [] n
  | red {parent : RBBranch α} {path : List (RBBranch α)} {n : Nat} :
      parent.color = .red → Balanced parent.other .black n → above path = .black → Fits path n →
      Fits (parent :: path) n
  | black {parent : RBBranch α} {path : List (RBBranch α)} {c : RBColor} {n : Nat} :
      parent.color = .black → Balanced parent.other c n → Fits path (n + 1) →
      Fits (parent :: path) n

/-- The black nodes on each path down from a node of this color. -/
def levels : RBColor → Nat → Nat
  | .red, n => n
  | .black, n => n + 1

theorem Balanced.isRed {t : RBTree α} {c : RBColor} {n : Nat} (balanced : t.Balanced c n) :
    t.isRed = true ↔ c = .red := by
  cases balanced <;> simp [RBTree.isRed]

theorem Balanced.black_of {t : RBTree α} {c : RBColor} {n : Nat} (balanced : t.Balanced c n)
    (dark : t.isRed ≠ true) : t.Balanced .black n := by
  cases balanced with
  | nil => exact .nil
  | red => exact absurd rfl dark
  | black x left right => exact .black x left right

theorem Balanced.red_of {t : RBTree α} {c : RBColor} {n : Nat} (balanced : t.Balanced c n)
    (bright : t.isRed = true) : t.Balanced .red n := by
  cases balanced with
  | nil => cases bright
  | red x left right => exact .red x left right
  | black => cases bright

/-- A red subtree painted black has one black node more on each path. -/
theorem Balanced.paint_red {t : RBTree α} {n : Nat} (balanced : t.Balanced .red n) :
    (t.paint .black).Balanced .black (n + 1) := by
  cases balanced with
  | red x left right => exact .black x left right

theorem Balanced.paint_black {t : RBTree α} {n : Nat} (balanced : t.Balanced .black n) :
    (t.paint .black).Balanced .black n := by
  cases balanced with
  | nil => exact .nil
  | black x left right => exact .black x left right

/-- A node of any color over two black subtrees. -/
theorem Balanced.node {left right : RBTree α} {n : Nat} (c : RBColor) (x : α)
    (lower : left.Balanced .black n) (upper : right.Balanced .black n) :
    (RBTree.node c left x right).Balanced c (levels c n) := by
  cases c with
  | red => exact .red x lower upper
  | black => exact .black x lower upper

theorem black_of_ne_red {c : RBColor} (other : ¬ c = .red) : c = .black := by
  cases c with
  | red => exact absurd rfl other
  | black => rfl

/-- Around a red parent: its other child and its own parent are black. -/
theorem Fits.of_red {parent : RBBranch α} {path : List (RBBranch α)} {n : Nat}
    (fits : Fits (parent :: path) n) (red : parent.color = .red) :
    parent.other.Balanced .black n ∧ above path = .black ∧ Fits path n := by
  cases fits with
  | red _ other outer rest => exact ⟨other, outer, rest⟩
  | black black => rw [red] at black; cases black

theorem Fits.of_black {parent : RBBranch α} {path : List (RBBranch α)} {n : Nat}
    (fits : Fits (parent :: path) n) (black : parent.color = .black) :
    ∃ c, parent.other.Balanced c n ∧ Fits path (n + 1) := by
  cases fits with
  | red red => rw [red] at black; cases black
  | black _ other rest => exact ⟨_, other, rest⟩

/-- A parent of any color with two black children. -/
theorem Balanced.fill {parent : RBBranch α} {t : RBTree α} {n : Nat}
    (balanced : t.Balanced .black n) (other : parent.other.Balanced .black n) :
    (parent.fill t).Balanced parent.color (levels parent.color n) := by
  unfold RBBranch.fill
  cases parent.side with
  | left => exact .node _ _ balanced other
  | right => exact .node _ _ other balanced

/-- A black parent takes children of any color. -/
theorem Balanced.fill_black {parent : RBBranch α} {t : RBTree α} {c d : RBColor} {n : Nat}
    (black : parent.color = .black) (balanced : t.Balanced c n)
    (other : parent.other.Balanced d n) : (parent.fill t).Balanced .black (n + 1) := by
  unfold RBBranch.fill
  cases parent.side with
  | left => exact black ▸ .black _ balanced other
  | right => exact black ▸ .black _ other balanced

theorem Fits.up {path : List (RBBranch α)} {n : Nat} (fits : Fits path n) :
    ∀ {t : RBTree α} {c : RBColor}, t.Balanced c n → (c = .red → above path = .black) →
      ∃ m, (up path t).Balanced .black m := by
  induction fits with
  | root n =>
    intro t c balanced dark
    cases c with
    | red => cases dark rfl
    | black => exact ⟨n, balanced⟩
  | @red parent path n red other outer fits ih =>
    intro t c balanced dark
    cases c with
    | red => cases red.symm.trans (dark rfl)
    | black =>
      have filled := Balanced.fill balanced other
      rw [red] at filled
      exact ih filled fun _ => outer
  | @black parent path c n black other fits ih =>
    intro t d balanced _
    exact ih (Balanced.fill_black black balanced other) fun red => by cases red

/-- The end of the loop of `RB_INSERT_COLOR`: the rotations below a black grandparent. -/
theorem align_balanced {parent : RBBranch α} (gparent : RBBranch α) {elm : RBTree α} {n : Nat}
    (red : parent.color = .red) (balanced : elm.Balanced .red n)
    (other : parent.other.Balanced .black n) (uncle : gparent.other.Balanced .black n) :
    ∃ p top, align parent gparent elm = some p ∧
      ({ gparent with color := .red }.fill (p.paint .black)).rotate gparent.side.flip = some top ∧
      top.Balanced .black (n + 1) := by
  obtain ⟨side, c, y, b⟩ := parent
  obtain ⟨gside, d, z, e⟩ := gparent
  simp only at red other uncle
  subst red
  cases balanced with
  | red x left right =>
    cases side with
    | left => cases gside with
      | left => exact ⟨_, _, rfl, rfl, .black _ (.red _ left right) (.red _ other uncle)⟩
      | right => exact ⟨_, _, rfl, rfl, .black _ (.red _ uncle left) (.red _ right other)⟩
    | right => cases gside with
      | left => exact ⟨_, _, rfl, rfl, .black _ (.red _ other left) (.red _ right uncle)⟩
      | right => exact ⟨_, _, rfl, rfl, .black _ (.red _ uncle other) (.red _ left right)⟩

/-- `RB_INSERT_COLOR` balances a tree that is broken only by a red node that may be below a red
parent. -/
theorem insertColor_balanced {path : List (RBBranch α)} {elm : RBTree α} {n : Nat}
    (fits : Fits path n) (balanced : elm.Balanced .red n) :
    ∃ t m, insertColor path elm = some t ∧ t.Balanced .black m := by
  fun_induction insertColor path elm generalizing n with
  | case1 elm => exact ⟨_, _, rfl, balanced.paint_red⟩
  | case2 elm parent red =>
    cases fits with
    | red _ _ outer _ => cases outer
    | black black => rw [red] at black; cases black
  | case3 parent elm black =>
    obtain ⟨m, whole⟩ := fits.up balanced fun _ => black_of_ne_red black
    exact ⟨_, _, rfl, whole.paint_black⟩
  | case4 parent gparent path elm red uncle =>
    rename_i ih
    obtain ⟨other, outer, rest⟩ := fits.of_red red
    obtain ⟨c, aunt, rest⟩ := rest.of_black outer
    have below : (RBBranch.fill { parent with color := .black } elm).Balanced .black (n + 1) :=
      .fill_black rfl balanced other
    exact ih rest (.fill below (aunt.red_of uncle).paint_red)
  | case5 parent gparent path elm red uncle =>
    obtain ⟨other, outer, rest⟩ := fits.of_red red
    obtain ⟨c, aunt, rest⟩ := rest.of_black outer
    obtain ⟨p, top, aligned, turned, restored⟩ :=
      align_balanced gparent red balanced other (aunt.black_of uncle)
    obtain ⟨m, whole⟩ := rest.up restored fun red => by cases red
    refine ⟨_, m, ?_, whole.paint_black⟩
    rw [aligned, Option.bind_eq_bind, Option.bind_some, turned]
    rfl
  | case6 parent gparent path elm black =>
    obtain ⟨m, whole⟩ := fits.up balanced fun _ => black_of_ne_red black
    exact ⟨_, _, rfl, whole.paint_black⟩

/-- A subtree that is one black node short of its place, unless painting it black is enough. -/
def Short (t : RBTree α) (n : Nat) : Prop :=
  if t.isRed then (t.paint .black).Balanced .black (n + 1) else t.Balanced .black n

theorem Balanced.short {t : RBTree α} {c : RBColor} {n : Nat} (balanced : t.Balanced c n) :
    t.Short n := by
  unfold Short
  split
  case isTrue bright => exact (balanced.red_of bright).paint_red
  case isFalse dark => exact balanced.black_of dark

theorem Short.paint {t : RBTree α} {n : Nat} (short : t.Short n) :
    ∃ m, (t.paint .black).Balanced .black m := by
  unfold Short at short
  split at short
  case isTrue => exact ⟨_, short⟩
  case isFalse => exact ⟨_, short.paint_black⟩

/-- What a turn of `RB_REMOVE_COLOR` makes of a parent of color `c`. -/
def Turn.Restores (c : RBColor) (n : Nat) : Turn α → Prop
  | .done t => t.Balanced c (levels c (n + 1))
  | .again t => (t.isRed = true ↔ c = .red) ∧ t.Short (levels c n)

/-- The sibling of a node on `side` is brought to a shape whose far child is red, and that child is
painted black. -/
theorem alignSibling_balanced {c d : RBColor} {left right : RBTree α} {n : Nat} (side : RBSide)
    (e : RBColor) (x : α) (lower : left.Balanced c n) (upper : right.Balanced d n)
    (bright : left.isRed = true ∨ right.isRed = true) :
    ∃ tmp near y far b, alignSibling side (node .black left x right) = some tmp ∧
      (tmp.paint e).paintChild side.flip .black = RBBranch.fill ⟨side, e, y, far⟩ near ∧
      near.Balanced b n ∧ far.Balanced .black (n + 1) := by
  cases side with
  | left =>
    by_cases far : right.isRed = true
    · have painted := (upper.red_of far).paint_red
      refine ⟨_, left, x, right.paint .black, c, if_pos far, rfl, lower, painted⟩
    · obtain bright := lower.red_of (bright.resolve_right far)
      cases bright with
      | @red a b _ z first second =>
        exact ⟨_, a, z, node .black b x right, .black, if_neg far, rfl, first,
          .black _ second upper⟩
  | right =>
    by_cases far : left.isRed = true
    · have painted := (lower.red_of far).paint_red
      refine ⟨_, right, x, left.paint .black, d, if_pos far, rfl, upper, painted⟩
    · obtain bright := upper.red_of (bright.resolve_left far)
      cases bright with
      | @red a b _ z first second =>
        exact ⟨_, b, z, node .black left x a, .black, if_neg far, rfl, second,
          .black _ lower first⟩

theorem rotate_fill (side : RBSide) (c d : RBColor) (x y : α) (elm near far : RBTree α) :
    (RBBranch.fill ⟨side, c, x, RBBranch.fill ⟨side, d, y, far⟩ near⟩ elm).rotate side
      = some (RBBranch.fill ⟨side, d, y, far⟩ (RBBranch.fill ⟨side, c, x, near⟩ elm)) := by
  cases side <;> rfl

/-- A turn of the loop either makes up for the missing black node or passes it on to the parent. -/
theorem settle_balanced {parent : RBBranch α} {elm : RBTree α} {n : Nat}
    (sibling : parent.other.Balanced .black (n + 1)) (balanced : elm.Balanced .black n) :
    ∃ turn, settle parent elm = some turn ∧ turn.Restores parent.color n := by
  obtain ⟨side, color, p, other⟩ := parent
  cases sibling with
  | @black left right c d _ x lower upper =>
    by_cases bright : left.isRed = true ∨ right.isRed = true
    · obtain ⟨tmp, near, y, far, b, aligned, shape, inner, outer⟩ :=
        alignSibling_balanced side color x lower upper bright
      have turned := rotate_fill side .black color p y elm near far
      refine ⟨.done (RBBranch.fill ⟨side, color, y, far⟩ (RBBranch.fill ⟨side, .black, p, near⟩ elm)),
        ?_, .fill (.fill_black rfl balanced inner) outer⟩
      have someRed : ¬ (!((node .black left x right).child side).isRed
          && !((node .black left x right).child side.flip).isRed) = true := by
        cases side <;> simpa [RBTree.child, RBSide.flip, or_comm, imp_iff_not_or] using bright
      simp only [settle, if_neg someRed, aligned, Option.bind_eq_bind, Option.bind_some, shape, turned]
    · rw [not_or] at bright
      have first := lower.black_of bright.1
      have second := upper.black_of bright.2
      have noneRed : (!((node .black left x right).child side).isRed
          && !((node .black left x right).child side.flip).isRed) = true := by
        cases side <;> simp [RBTree.child, RBSide.flip, bright]
      refine ⟨.again (RBBranch.fill ⟨side, color, p, .node .red left x right⟩ elm), ?_, ?_⟩
      · simp only [settle, if_pos noneRed]
        rfl
      · have sibling : (node .red left x right).Balanced .red n := .red x first second
        cases color with
        | red =>
          cases side with
          | left => exact ⟨by simp [RBBranch.fill, RBTree.isRed], .black p balanced sibling⟩
          | right => exact ⟨by simp [RBBranch.fill, RBTree.isRed], .black p sibling balanced⟩
        | black =>
          have filled : (RBBranch.fill ⟨side, .black, p, node .red left x right⟩ _).Balanced .black _ :=
            .fill_black rfl balanced sibling
          exact ⟨filled.isRed, filled.short⟩

/-- A red sibling has a black parent and black children, so the rotation brings a black sibling. -/
theorem lower_balanced {parent : RBBranch α} {n : Nat} (sibling : parent.other.Balanced .red n) :
    ∃ below tmp, lower parent = some (below, tmp) ∧ below.color = .red ∧
      below.other.Balanced .black n ∧ tmp.color = .black ∧ tmp.other.Balanced .black n := by
  obtain ⟨side, color, p, other⟩ := parent
  cases sibling with
  | red x left right =>
    cases side with
    | left => exact ⟨_, _, rfl, rfl, left, rfl, right⟩
    | right => exact ⟨_, _, rfl, rfl, right, rfl, left⟩

/-- `RB_REMOVE_COLOR` balances a tree in which one black node is missing on the paths through one
place. -/
theorem removeColor_balanced {path : List (RBBranch α)} {elm : RBTree α} {n : Nat}
    (fits : Fits path (n + 1)) (short : elm.Short n) :
    ∃ t m, removeColor path elm = some t ∧ t.Balanced .black m := by
  induction path generalizing elm n with
  | nil =>
    obtain ⟨m, painted⟩ := short.paint
    exact ⟨_, m, rfl, painted⟩
  | cons parent path ih =>
    unfold removeColor
    split
    case isTrue bright =>
      rw [Short, if_pos bright] at short
      obtain ⟨m, whole⟩ := fits.up short fun red => by cases red
      exact ⟨_, m, rfl, whole⟩
    case isFalse dark =>
      rw [Short, if_neg dark] at short
      split
      case isTrue bright =>
        have black : parent.color = .black := by
          refine black_of_ne_red fun red => ?_
          have other := (fits.of_red red).1.isRed.mp bright
          cases other
        obtain ⟨c, sibling, outer⟩ := fits.of_black black
        obtain ⟨below, tmp, lowered, red, inner, dark, far⟩ :=
          lower_balanced (sibling.red_of bright)
        obtain ⟨turn, settled, restores⟩ := settle_balanced inner short
        rw [red] at restores
        have around : Fits (tmp :: path) (n + 1) := .black dark far outer
        simp only [Option.bind_eq_bind, lowered, Option.bind_some, settled]
        cases turn with
        | done top =>
          obtain ⟨m, whole⟩ := around.up restores fun _ => dark
          exact ⟨_, m, rfl, whole.paint_black⟩
        | again top =>
          obtain ⟨isRed, painted⟩ := restores
          rw [Short, if_pos (isRed.mpr rfl)] at painted
          obtain ⟨m, whole⟩ := around.up painted fun red => by cases red
          exact ⟨_, m, rfl, whole⟩
      case isFalse sibling =>
        have dark : parent.other.Balanced .black (n + 1) := by
          cases color : parent.color with
          | red => exact (fits.of_red color).1
          | black =>
            obtain ⟨c, other, -⟩ := fits.of_black color
            exact other.black_of sibling
        obtain ⟨turn, settled, restores⟩ := settle_balanced dark short
        simp only [Option.bind_eq_bind, settled, Option.bind_some]
        have outer : Fits path (levels parent.color (n + 1)) := by
          cases color : parent.color with
          | red => exact (fits.of_red color).2.2
          | black => exact (fits.of_black color).choose_spec.2
        cases turn with
        | done top =>
          obtain ⟨m, whole⟩ := outer.up restores fun red => (fits.of_red red).2.1
          exact ⟨_, m, rfl, whole.paint_black⟩
        | again top =>
          obtain ⟨isRed, rest⟩ := restores
          cases color : parent.color with
          | red => rw [color] at outer rest; exact ih outer rest
          | black => rw [color] at outer rest; exact ih outer rest

/-- A subtree at its place in a balanced tree. -/
structure Placed (path : List (RBBranch α)) (t : RBTree α) (c : RBColor) (n : Nat) : Prop where
  fits : Fits path n
  balanced : t.Balanced c n
  outer : c = .red → above path = .black

/-- The children of a placed node are placed, whatever element stands between them. -/
theorem Placed.child {path : List (RBBranch α)} {left right : RBTree α} {c d : RBColor} {n : Nat}
    {x : α} (placed : Placed path (node d left x right) c n) (y : α) :
    ∃ m, (∃ b, Placed (⟨.left, d, y, right⟩ :: path) left b m) ∧
      ∃ b, Placed (⟨.right, d, y, left⟩ :: path) right b m := by
  obtain ⟨fits, balanced, outer⟩ := placed
  cases balanced with
  | red _ lower upper =>
    exact ⟨n, ⟨_, .red rfl upper (outer rfl) fits, lower, fun red => by cases red⟩,
      ⟨_, .red rfl lower (outer rfl) fits, upper, fun red => by cases red⟩⟩
  | black _ lower upper =>
    exact ⟨_, ⟨_, .black rfl upper fits, lower, fun _ => rfl⟩,
      ⟨_, .black rfl lower fits, upper, fun _ => rfl⟩⟩

theorem leftmost_placed {t : RBTree α} {path : List (RBBranch α)} {c : RBColor} {n : Nat}
    (some' : t ≠ nil) (placed : Placed path t c n) :
    ∃ below elm d m, leftmost t path = some (below, elm) ∧ Placed below elm d m := by
  fun_induction leftmost t path generalizing c n with
  | case1 => exact absurd rfl some'
  | case2 d x right path => exact ⟨path, _, c, n, rfl, placed⟩
  | case3 d left x right path inner ih =>
    obtain ⟨m, ⟨b, lower⟩, -⟩ := placed.child x
    exact ih inner lower

theorem leftmost_append (t : RBTree α) (path rest : List (RBBranch α)) :
    leftmost t (path ++ rest) = (leftmost t path).map fun found => (found.1 ++ rest, found.2) := by
  fun_induction leftmost t path with
  | case1 => rfl
  | case2 => rfl
  | case3 c left x right path inner ih =>
    rw [← ih, leftmost]
    · rfl
    · exact inner

theorem closeGap_balanced {color c : RBColor} {path : List (RBBranch α)} {child : RBTree α}
    {n : Nat} (fits : Fits path (levels color n)) (outer : color = .red → above path = .black)
    (balanced : child.Balanced c n) (dark : color = .red → c = .black) :
    ∃ t m, closeGap color path child = some t ∧ t.Balanced .black m := by
  cases color with
  | red =>
    obtain ⟨m, whole⟩ := fits.up balanced fun red => by cases red.symm.trans (dark rfl)
    exact ⟨_, m, rfl, whole⟩
  | black => exact removeColor_balanced fits balanced.short

/-- The gap a node with at most one child leaves is closed with that child. -/
theorem Placed.closeGap {path : List (RBBranch α)} {left right child : RBTree α} {x : α}
    {color c : RBColor} {n : Nat} (placed : Placed path (node color left x right) c n)
    (only : child = left ∨ child = right) :
    ∃ t m, closeGap color path child = some t ∧ t.Balanced .black m := by
  obtain ⟨fits, balanced, outer⟩ := placed
  cases balanced with
  | red _ lower upper =>
    rcases only with rfl | rfl
    · exact closeGap_balanced fits outer lower fun _ => rfl
    · exact closeGap_balanced fits outer upper fun _ => rfl
  | black _ lower upper =>
    rcases only with rfl | rfl
    · exact closeGap_balanced fits outer lower fun red => by cases red
    · exact closeGap_balanced fits outer upper fun red => by cases red

/-- The node that takes the place of one with two children, below any element `y` there. -/
theorem leftmost_below {right : RBTree α} {path : List (RBBranch α)} {c : RBColor} {n : Nat}
    (some' : right ≠ nil) (placed : Placed path right c n) :
    ∃ below d x child m b, leftmost right [] = some (below, node d nil x child) ∧
      Placed (below ++ path) (node d nil x child) b m := by
  obtain ⟨whole, elm, b, m, found, there⟩ := leftmost_placed some' placed
  have moved := leftmost_append right [] path
  rw [List.nil_append, found] at moved
  cases inner : leftmost right [] with
  | none => rw [inner] at moved; cases moved
  | some place =>
    obtain ⟨below, elm'⟩ := place
    obtain ⟨d, x, child, rfl, -⟩ := leftmost_spec inner
    rw [inner] at moved
    cases moved
    exact ⟨below, d, x, child, m, b, rfl, there⟩

theorem removeAt_balanced {path : List (RBBranch α)} {left right : RBTree α} {x : α}
    {color c : RBColor} {n : Nat} (placed : Placed path (node color left x right) c n) :
    ∃ t m, removeAt path (node color left x right) = some t ∧ t.Balanced .black m := by
  unfold removeAt
  split
  case h_1 absent => cases absent
  case h_2 same => cases same; exact placed.closeGap (.inr rfl)
  case h_3 same => cases same; exact placed.closeGap (.inl rfl)
  case h_4 _ _ hasRight same =>
    cases same
    obtain ⟨m, -, b, upper⟩ := placed.child x
    obtain ⟨below, d, y, child, -, -, found, -⟩ := leftmost_below hasRight upper
    obtain ⟨m, -, b, upper⟩ := placed.child y
    obtain ⟨below', d', y', child', m', b', found', there⟩ := leftmost_below hasRight upper
    rw [found] at found'
    cases found'
    simp only [found, Option.bind_eq_bind, Option.bind_some]
    exact there.closeGap (.inr rfl)

theorem locate_placed [DecidableEq α] {x : α} {t elm : RBTree α} {path place : List (RBBranch α)}
    {c : RBColor} {n : Nat} (placed : Placed path t c n)
    (found : locate x t path = some (place, elm)) : ∃ d m, Placed place elm d m := by
  fun_induction locate x t path generalizing c n with
  | case1 => cases found
  | case2 => cases found; exact ⟨c, n, placed⟩
  | case3 d left y right path _ below inner ih =>
    cases found
    obtain ⟨m, ⟨b, lower⟩, -⟩ := placed.child y
    exact ih lower inner
  | case4 d left y right path _ _ _ ih =>
    obtain ⟨m, -, b, upper⟩ := placed.child y
    exact ih upper found

theorem descend_placed {cmp : α → α → Ordering} {x : α} {t : RBTree α}
    {path place : List (RBBranch α)} {c : RBColor} {n : Nat} (placed : Placed path t c n)
    (walked : descend cmp x t path = .ok place) : Fits place 0 := by
  fun_induction descend cmp x t path generalizing c n with
  | case1 =>
    cases walked
    obtain ⟨fits, balanced, -⟩ := placed
    cases balanced
    exact fits
  | case2 d left y right path _ ih =>
    obtain ⟨m, ⟨b, lower⟩, -⟩ := placed.child y
    exact ih lower walked
  | case3 d left y right path _ ih =>
    obtain ⟨m, -, b, upper⟩ := placed.child y
    exact ih upper walked
  | case4 => cases walked

theorem Balanced.placed {t : RBTree α} {n : Nat} (balanced : t.Balanced .black n) :
    Placed [] t .black n :=
  ⟨.root n, balanced, fun red => by cases red⟩

/-- A red-black tree: balanced, with a black root. -/
def RedBlack (t : RBTree α) : Prop := ∃ n, t.Balanced .black n

theorem RedBlack.nil : (RBTree.nil : RBTree α).RedBlack := ⟨0, .nil⟩

/-- `RB_REMOVE` of an element of the tree. -/
theorem RedBlack.remove [DecidableEq α] {x : α} {t : RBTree α} (balanced : t.RedBlack)
    (member : x ∈ t.toList) : ∃ t', t.remove x = some t' ∧ t'.RedBlack := by
  obtain ⟨n, balanced⟩ := balanced
  obtain ⟨place, color, left, right, found, -⟩ := locate_of_mem member
  obtain ⟨d, m, placed⟩ := locate_placed balanced.placed found
  obtain ⟨t', m, removed, whole⟩ := removeAt_balanced placed
  refine ⟨t', ?_, m, whole⟩
  rw [RBTree.remove, found]
  exact removed

/-- `RB_INSERT` of an element no element of the tree compares equal to. -/
theorem RedBlack.insert {cmp : α → α → Ordering} {x : α} {t : RBTree α} (balanced : t.RedBlack)
    (fresh : ∀ y ∈ t.toList, cmp x y ≠ .eq) :
    ∃ t', t.insert cmp x = some (none, t') ∧ t'.RedBlack := by
  obtain ⟨n, balanced⟩ := balanced
  unfold RBTree.insert
  cases walked : descend cmp x t [] with
  | error y =>
    obtain ⟨member, equal⟩ := descend_error walked
    exact absurd equal (fresh y member)
  | ok place =>
    have fits := descend_placed balanced.placed walked
    obtain ⟨t', m, colored, whole⟩ := insertColor_balanced fits (.red x .nil .nil)
    refine ⟨t', ?_, m, whole⟩
    simp [colored]

/-! ## How far down a search goes -/

def height : RBTree α → Nat
  | .nil => 0
  | node _ left _ right => max left.height right.height + 1

theorem Balanced.height_le {t : RBTree α} {c : RBColor} {n : Nat} (balanced : t.Balanced c n) :
    t.height ≤ 2 * n + (if c = .red then 1 else 0) := by
  induction balanced with
  | nil => exact Nat.zero_le _
  | red x _ _ lower upper =>
    simp only [reduceCtorEq, if_false] at lower upper
    simp only [height, if_true]
    omega
  | @black left right c d n x _ _ lower upper =>
    have first : left.height ≤ 2 * n + 1 := lower.trans (by split <;> omega)
    have second : right.height ≤ 2 * n + 1 := upper.trans (by split <;> omega)
    simp only [height, reduceCtorEq, if_false]
    omega

theorem Balanced.pow_le {t : RBTree α} {c : RBColor} {n : Nat} (balanced : t.Balanced c n) :
    2 ^ n ≤ t.toList.length + 1 := by
  induction balanced with
  | nil => exact Nat.le_refl 1
  | red x _ _ lower upper =>
    simp only [toList_node, List.length_append, List.length_cons]
    omega
  | black x _ _ lower upper =>
    simp only [toList_node, List.length_append, List.length_cons, Nat.pow_succ]
    omega

/-- A search goes down logarithmically many nodes. -/
theorem RedBlack.height_le {t : RBTree α} (balanced : t.RedBlack) :
    t.height ≤ 2 * Nat.log 2 (t.toList.length + 1) := by
  obtain ⟨n, balanced⟩ := balanced
  have many := Nat.le_log_of_pow_le Nat.one_lt_two balanced.pow_le
  have deep := balanced.height_le
  simp only [reduceCtorEq, if_false] at deep
  omega

end RBTree

end GreatEvent
