import GreatEvent.Net.Tree

/-!
# `tree.h`: what is in the tree, in order

Coloring and rotating leave the elements in their order from left to right,
so `RB_INSERT` puts its element into that order and `RB_REMOVE` takes one out
of it.
-/

namespace GreatEvent

open GreatEvent.RBTree

variable {α : Type}

/-- What a parent and its other child hold to the left of the child it is seen from. -/
def RBBranch.before (parent : RBBranch α) : List α :=
  match parent.side with
  | .left => []
  | .right => parent.other.toList ++ [parent.elm]

def RBBranch.after (parent : RBBranch α) : List α :=
  match parent.side with
  | .left => parent.elm :: parent.other.toList
  | .right => []

namespace RBTree

/-- What the tree holds to the left of the end of the path. -/
def before : List (RBBranch α) → List α
  | [] => []
  | parent :: path => before path ++ parent.before

def after : List (RBBranch α) → List α
  | [] => []
  | parent :: path => parent.after ++ after path

@[simp] theorem toList_nil : (nil : RBTree α).toList = [] := rfl

@[simp] theorem toList_node (c : RBColor) (left right : RBTree α) (x : α) :
    (node c left x right).toList = left.toList ++ x :: right.toList := rfl

@[simp] theorem toList_paint (c : RBColor) (t : RBTree α) : (t.paint c).toList = t.toList := by
  cases t <;> rfl

@[simp] theorem toList_paintChild (side : RBSide) (c : RBColor) (t : RBTree α) :
    (t.paintChild side c).toList = t.toList := by
  cases t with
  | nil => rfl
  | node => cases side <;> simp [paintChild]

@[simp] theorem toList_fill (parent : RBBranch α) (t : RBTree α) :
    (parent.fill t).toList = parent.before ++ t.toList ++ parent.after := by
  unfold RBBranch.fill RBBranch.before RBBranch.after
  cases parent.side <;> simp

theorem toList_rotate {side : RBSide} {t u : RBTree α} (turned : t.rotate side = some u) :
    u.toList = t.toList := by
  unfold rotate at turned
  split at turned
  case h_1 => cases turned; simp
  case h_2 => cases turned; simp
  case h_3 => cases turned

@[simp] theorem toList_up (path : List (RBBranch α)) (t : RBTree α) :
    (up path t).toList = before path ++ t.toList ++ after path := by
  induction path generalizing t with
  | nil => simp [up, before, after]
  | cons parent path ih =>
    have step := ih (parent.fill t)
    simp only [up, List.foldl_cons] at step ⊢
    simp [step, before, after]

/-- A branch keeps its elements when its color changes, and when its other child is painted. -/
theorem before_recolor (parent : RBBranch α) (c : RBColor) (other : RBTree α)
    (same : other.toList = parent.other.toList) :
    ({ parent with color := c, other := other } : RBBranch α).before = parent.before := by
  unfold RBBranch.before
  cases parent.side <;> simp [same]

theorem after_recolor (parent : RBBranch α) (c : RBColor) (other : RBTree α)
    (same : other.toList = parent.other.toList) :
    ({ parent with color := c, other := other } : RBBranch α).after = parent.after := by
  unfold RBBranch.after
  cases parent.side <;> simp [same]

theorem toList_align {parent gparent : RBBranch α} {elm t : RBTree α}
    (aligned : align parent gparent elm = some t) :
    t.toList = parent.before ++ elm.toList ++ parent.after := by
  unfold align at aligned
  split at aligned
  case isTrue => cases aligned; simp
  case isFalse => rw [toList_rotate aligned, toList_fill]

theorem toList_insertColor {path : List (RBBranch α)} {elm t : RBTree α}
    (colored : insertColor path elm = some t) :
    t.toList = before path ++ elm.toList ++ after path := by
  fun_induction insertColor path elm with
  | case1 elm => cases colored; simp [before, after]
  | case2 => cases colored
  | case3 elm parent black => cases colored; simp [before, after]
  | case4 parent gparent path elm red uncle parent' gparent' ih =>
    have outer : gparent'.before = gparent.before ∧ gparent'.after = gparent.after :=
      ⟨before_recolor gparent _ _ (toList_paint _ _), after_recolor gparent _ _ (toList_paint _ _)⟩
    have inner : parent'.before = parent.before ∧ parent'.after = parent.after :=
      ⟨before_recolor parent _ _ rfl, after_recolor parent _ _ rfl⟩
    simp [ih colored, before, after, outer, inner]
  | case5 parent gparent path elm red uncle =>
    simp only [Option.bind_eq_bind, Option.bind_eq_some_iff, Option.some.injEq] at colored
    obtain ⟨p, aligned, top, turned, rfl⟩ := colored
    have outer := toList_rotate turned
    rw [toList_fill, before_recolor gparent _ _ rfl, after_recolor gparent _ _ rfl] at outer
    simp [before, after, outer, toList_align aligned]
  | case6 parent gparent path elm black => cases colored; simp

/-- The tree a turn of `RB_REMOVE_COLOR` leaves at the place of the parent. -/
def Turn.tree : Turn α → RBTree α
  | .done t => t
  | .again t => t

theorem toList_alignSibling {side : RBSide} {tmp t : RBTree α}
    (aligned : alignSibling side tmp = some t) : t.toList = tmp.toList := by
  unfold alignSibling at aligned
  split at aligned
  case isTrue => cases aligned; rfl
  case isFalse => rw [toList_rotate aligned, toList_paint, toList_paintChild]

theorem toList_settle {parent : RBBranch α} {elm : RBTree α} {turn : Turn α}
    (settled : settle parent elm = some turn) :
    turn.tree.toList = parent.before ++ elm.toList ++ parent.after := by
  unfold settle at settled
  split at settled
  case h_1 => cases settled
  case h_2 tmp _ =>
    split at settled
    case isTrue =>
      cases settled
      simp [Turn.tree, before_recolor parent _ _ (toList_paint _ _),
        after_recolor parent _ _ (toList_paint _ _)]
    case isFalse =>
      simp only [Option.bind_eq_bind, Option.bind_eq_some_iff, Option.some.injEq] at settled
      obtain ⟨sibling, aligned, top, turned, rfl⟩ := settled
      have same : ((sibling.paint parent.color).paintChild parent.side.flip .black).toList
          = parent.other.toList := by
        rw [toList_paintChild, toList_paint, toList_alignSibling aligned]
      rw [Turn.tree, toList_rotate turned, toList_fill, before_recolor parent _ _ same,
        after_recolor parent _ _ same]

theorem order_lower {parent below tmp : RBBranch α} (lowered : lower parent = some (below, tmp)) :
    tmp.before ++ below.before = parent.before ∧ below.after ++ tmp.after = parent.after := by
  obtain ⟨side, color, elm, other⟩ := parent
  unfold lower at lowered
  split at lowered
  case h_1 => cases lowered
  case h_2 c left x right sibling =>
    simp only at sibling
    subst sibling
    cases side with
    | left => cases lowered; simp [RBBranch.before, RBBranch.after]
    | right => cases lowered; simp [RBBranch.before, RBBranch.after]

theorem toList_removeColor {path : List (RBBranch α)} {elm t : RBTree α}
    (colored : removeColor path elm = some t) :
    t.toList = before path ++ elm.toList ++ after path := by
  induction path generalizing elm with
  | nil =>
    cases colored
    simp [before, after]
  | cons parent path ih =>
    unfold removeColor at colored
    split at colored
    case isTrue =>
      cases colored
      simp
    case isFalse =>
      split at colored
      case isTrue =>
        simp only [Option.bind_eq_bind, Option.bind_eq_some_iff] at colored
        obtain ⟨⟨below, tmp⟩, lowered, turn, settled, rest⟩ := colored
        obtain ⟨left, right⟩ := order_lower lowered
        have inner := toList_settle settled
        cases turn with
        | done top => cases rest; simp_all [before, after, Turn.tree, ← left, ← right]
        | again top => cases rest; simp_all [before, after, Turn.tree, ← left, ← right]
      case isFalse =>
        simp only [Option.bind_eq_bind, Option.bind_eq_some_iff] at colored
        obtain ⟨turn, settled, rest⟩ := colored
        have inner := toList_settle settled
        cases turn with
        | done top => cases rest; simp_all [before, after, Turn.tree]
        | again top => simp_all [before, after, Turn.tree, ih rest]

/-- The end of the left spine: nothing is left of it inside the tree. -/
theorem leftmost_spec {t node' : RBTree α} {path below : List (RBBranch α)}
    (found : leftmost t path = some (below, node')) :
    ∃ color x right, node' = node color nil x right ∧
      before below = before path ∧ x :: right.toList ++ after below = t.toList ++ after path := by
  fun_induction leftmost t path with
  | case1 => cases found
  | case2 c x right => cases found; exact ⟨c, x, right, rfl, rfl, by simp⟩
  | case3 c left x right path _ ih =>
    obtain ⟨c', x', right', rfl, same, order⟩ := ih found
    refine ⟨c', x', right', rfl, ?_, ?_⟩
    · rw [same]; simp [before, RBBranch.before]
    · rw [order]; simp [after, RBBranch.after]

theorem toList_closeGap {color : RBColor} {path : List (RBBranch α)} {child t : RBTree α}
    (closed : closeGap color path child = some t) :
    t.toList = before path ++ child.toList ++ after path := by
  unfold closeGap at closed
  split at closed
  case isTrue => exact toList_removeColor closed
  case isFalse => cases closed; simp

theorem before_append (below path : List (RBBranch α)) :
    before (below ++ path) = before path ++ before below := by
  induction below with
  | nil => simp [before]
  | cons parent below ih => simp [before, ih]

theorem after_append (below path : List (RBBranch α)) :
    after (below ++ path) = after below ++ after path := by
  induction below with
  | nil => simp [after]
  | cons parent below ih => simp [after, ih]

/-- `RB_REMOVE` takes out the element of the node and nothing else. -/
theorem toList_removeAt {path : List (RBBranch α)} {color : RBColor} {left right t : RBTree α}
    {x : α} (removed : removeAt path (node color left x right) = some t) :
    t.toList = before path ++ (left.toList ++ right.toList) ++ after path := by
  unfold removeAt at removed
  split at removed
  case h_1 absent => cases absent
  case h_2 same => cases same; simpa using toList_closeGap removed
  case h_3 same => cases same; simpa using toList_closeGap removed
  case h_4 same =>
    cases same
    simp only [Option.bind_eq_bind, Option.bind_eq_some_iff] at removed
    obtain ⟨⟨below, next⟩, found, rest⟩ := removed
    obtain ⟨c', y, child, rfl, same, order⟩ := leftmost_spec found
    have closed := toList_closeGap rest
    simp only [before, after, List.append_nil] at same order
    rw [closed, before_append, after_append, same]
    simp [before, after, RBBranch.before, RBBranch.after, ← order]

theorem min_eq_head (t : RBTree α) : t.min = t.toList.head? := by
  fun_induction RBTree.min t with
  | case1 => rfl
  | case2 => rfl
  | case3 c left x right inner ih =>
    rw [ih, toList_node]
    cases left with
    | nil => exact absurd rfl inner
    | node c a y b => simp [List.head?_append]

theorem climb_eq_head (path : List (RBBranch α)) : climb path = (after path).head? := by
  induction path with
  | nil => rfl
  | cons parent path ih =>
    unfold climb
    cases side : parent.side with
    | left => simp [after, RBBranch.after, side]
    | right => simp [after, RBBranch.after, side, ih]

section Locate

variable [DecidableEq α]

/-- A pointer to a node is followed to that node. -/
theorem locate_spec {x : α} {t elm : RBTree α} {path place : List (RBBranch α)}
    (found : locate x t path = some (place, elm)) :
    up place elm = up path t ∧ ∃ color left right, elm = node color left x right := by
  fun_induction locate x t path with
  | case1 => cases found
  | case2 c left right path => cases found; exact ⟨rfl, c, left, right, rfl⟩
  | case3 c left y right path _ below _ ih =>
    cases found
    obtain ⟨same, shape⟩ := ih (by assumption)
    exact ⟨same, shape⟩
  | case4 c left y right path _ _ _ ih =>
    obtain ⟨same, shape⟩ := ih found
    exact ⟨same, shape⟩

theorem locate_isSome {x : α} {t : RBTree α} (member : x ∈ t.toList) (path : List (RBBranch α)) :
    (locate x t path).isSome = true := by
  induction t generalizing path with
  | nil => cases member
  | node c left y right ihLeft ihRight =>
    unfold locate
    split
    case isTrue => rfl
    case isFalse other =>
      split
      case h_1 => rfl
      case h_2 absent =>
        simp only [toList_node, List.mem_append, List.mem_cons, other, false_or] at member
        rcases member with inLeft | inRight
        · have found := ihLeft inLeft (⟨.left, c, y, right⟩ :: path)
          rw [absent] at found
          cases found
        · exact ihRight inRight _

/-- A node that is there is found at its place. -/
theorem locate_of_mem {x : α} {t : RBTree α} (member : x ∈ t.toList) :
    ∃ place color left right, locate x t [] = some (place, node color left x right) ∧
      t.toList = before place ++ left.toList ++ x :: right.toList ++ after place := by
  obtain ⟨⟨place, elm⟩, found⟩ := Option.isSome_iff_exists.mp (locate_isSome member [])
  obtain ⟨same, color, left, right, rfl⟩ := locate_spec found
  refine ⟨place, color, left, right, found, ?_⟩
  have order := toList_up place (node color left x right)
  rw [same] at order
  simpa [up] using order

/-- `RB_REMOVE` takes its element out of the order. -/
theorem toList_remove {x : α} {t t' : RBTree α} (once : t.toList.Nodup)
    (removed : t.remove x = some t') : t'.toList = t.toList.erase x := by
  simp only [remove, Option.bind_eq_bind, Option.bind_eq_some_iff] at removed
  obtain ⟨⟨place, elm⟩, found, removed⟩ := removed
  obtain ⟨same, color, left, right, rfl⟩ := locate_spec found
  have order := toList_up place (node color left x right)
  rw [same] at order
  simp only [up, List.foldl_nil, toList_node] at order
  have alone : x ∉ before place ++ left.toList := by
    rw [order] at once
    simp only [List.append_assoc, List.cons_append] at once
    rw [← List.append_assoc] at once
    exact fun member => List.disjoint_of_nodup_append once member List.mem_cons_self
  calc
    t'.toList = (before place ++ left.toList) ++ (right.toList ++ after place) := by
      rw [toList_removeAt removed]; simp
    _ = ((before place ++ left.toList) ++ x :: (right.toList ++ after place)).erase x := by
      rw [List.erase_append_right _ alone, List.erase_cons_head]
    _ = t.toList.erase x := by rw [order]; simp

/-- `RB_NEXT` is the element that follows in the order. -/
theorem next_eq_head {x : α} {t : RBTree α} {less more : List α} (once : t.toList.Nodup)
    (order : t.toList = less ++ x :: more) : t.next x = more.head? := by
  have member : x ∈ t.toList := by simp [order]
  obtain ⟨place, color, left, right, found, split⟩ := locate_of_mem member
  have same : right.toList ++ after place = more := by
    have apart := once
    rw [order, List.nodup_append, List.nodup_cons] at apart
    obtain ⟨-, ⟨notMore, -⟩, disjoint⟩ := apart
    have notLess : x ∉ less := fun inLess => disjoint x inLess x List.mem_cons_self rfl
    have equal : less ++ x :: more
        = (before place ++ left.toList) ++ x :: (right.toList ++ after place) := by
      rw [← order, split]; simp
    exact ((List.append_cons_inj_of_notMem notLess notMore).mp equal).2.2.symm
  simp only [next, found, Option.bind_eq_bind, Option.bind_some, RBTree.child]
  cases right with
  | nil => simpa [climb_eq_head] using congrArg List.head? same
  | node c a y b =>
    simp only [min_eq_head, ← same, toList_node]
    simp [List.head?_append]

end Locate

section Sorted

variable (cmp : α → α → Ordering)

/-- The order a search tree keeps. -/
def Sorted (t : RBTree α) : Prop := t.toList.Pairwise (fun a b => cmp a b = .lt)

/-- The list with `x` put before the first element that comes after it. -/
def putInto (x : α) (l : List α) : List α := l.orderedInsert (fun a b => cmp a b = .lt) x

variable {cmp}

theorem putInto_eq {x : α} {less more : List α} (small : ∀ y ∈ less, cmp x y = .gt)
    (large : ∀ y ∈ more, cmp x y = .lt) : putInto cmp x (less ++ more) = less ++ x :: more := by
  induction less with
  | nil =>
    cases more with
    | nil => rfl
    | cons y more => simp [putInto, large y List.mem_cons_self]
  | cons y less ih =>
    have rest := ih fun z member => small z (List.mem_cons_of_mem y member)
    simp only [putInto] at rest
    simp [putInto, small y List.mem_cons_self, rest]

theorem descend_error {x y : α} {t : RBTree α} {path : List (RBBranch α)}
    (walked : descend cmp x t path = .error y) : y ∈ t.toList ∧ cmp x y = .eq := by
  fun_induction descend cmp x t path with
  | case1 => cases walked
  | case2 c left z right path less ih => exact ⟨by simp [(ih walked).1], (ih walked).2⟩
  | case3 c left z right path more ih => exact ⟨by simp [(ih walked).1], (ih walked).2⟩
  | case4 c left z right path equal => cases walked; exact ⟨by simp, equal⟩

variable [Std.TransCmp cmp]

theorem Sorted.nodup {t : RBTree α} (sorted : t.Sorted cmp) : t.toList.Nodup := by
  refine List.Pairwise.imp ?_ sorted
  rintro a _ less rfl
  have same : cmp a a = .eq := Std.ReflCmp.compare_self
  rw [same] at less
  cases less

/-- The walk of `RB_INSERT` ends between the smaller and the larger elements. -/
theorem descend_ok {x : α} {t : RBTree α} {path place : List (RBBranch α)}
    (sorted : t.Sorted cmp) (small : ∀ y ∈ before path, cmp x y = .gt)
    (large : ∀ y ∈ after path, cmp x y = .lt) (walked : descend cmp x t path = .ok place) :
    before place ++ after place = before path ++ t.toList ++ after path ∧
      (∀ y ∈ before place, cmp x y = .gt) ∧ ∀ y ∈ after place, cmp x y = .lt := by
  fun_induction descend cmp x t path with
  | case1 path => cases walked; exact ⟨by simp, small, large⟩
  | case2 c left y right path less ih =>
    simp only [Sorted, toList_node, List.pairwise_append, List.pairwise_cons] at sorted
    obtain ⟨sortedLeft, ⟨above, -⟩, -⟩ := sorted
    have large' : ∀ z ∈ after (⟨.left, c, y, right⟩ :: path), cmp x z = .lt := by
      simp only [after, RBBranch.after, List.cons_append, List.mem_cons, List.mem_append]
      rintro z (rfl | member | member)
      · exact less
      · exact Std.TransCmp.lt_trans less (above z member)
      · exact large z member
    obtain ⟨order, bounds⟩ := ih sortedLeft (by simpa [before, RBBranch.before]) large' walked
    exact ⟨by rw [order]; simp [before, after, RBBranch.before, RBBranch.after], bounds⟩
  | case3 c left y right path more ih =>
    simp only [Sorted, toList_node, List.pairwise_append, List.pairwise_cons] at sorted
    obtain ⟨-, ⟨-, sortedRight⟩, below⟩ := sorted
    have small' : ∀ z ∈ before (⟨.right, c, y, left⟩ :: path), cmp x z = .gt := by
      simp only [before, RBBranch.before, List.mem_append, List.mem_singleton]
      rintro z (member | member | rfl)
      · exact small z member
      · have order := below z member y List.mem_cons_self
        rw [Std.OrientedCmp.gt_iff_lt] at more ⊢
        exact Std.TransCmp.lt_trans order more
      · exact more
    obtain ⟨order, bounds⟩ := ih sortedRight small' (by simpa [after, RBBranch.after]) walked
    exact ⟨by rw [order]; simp [before, after, RBBranch.before, RBBranch.after], bounds⟩
  | case4 => cases walked

/-- `RB_INSERT` puts its element into the order. -/
theorem toList_insert {x : α} {t t' : RBTree α} (sorted : t.Sorted cmp)
    (inserted : t.insert cmp x = some (none, t')) :
    t'.toList = putInto cmp x t.toList ∧ t'.Sorted cmp := by
  unfold RBTree.insert at inserted
  split at inserted
  case h_1 => cases inserted
  case h_2 place walked =>
    simp only [Option.bind_eq_bind, Option.bind_eq_some_iff, Option.some.injEq, Prod.mk.injEq,
      true_and] at inserted
    obtain ⟨t', colored, rfl⟩ := inserted
    obtain ⟨order, small, large⟩ := descend_ok sorted (by simp [before]) (by simp [after]) walked
    have shape := toList_insertColor colored
    simp only [toList_node, toList_nil, List.nil_append, before, after, List.append_nil] at order shape
    have listed : t'.toList = before place ++ x :: after place := by rw [shape]; simp
    refine ⟨by rw [listed, ← order, putInto_eq small large], ?_⟩
    rw [Sorted, ← order, List.pairwise_append] at sorted
    obtain ⟨sortedLess, sortedMore, across⟩ := sorted
    rw [Sorted, listed, List.pairwise_append]
    refine ⟨sortedLess, List.pairwise_cons.mpr ⟨large, sortedMore⟩, fun y less z more => ?_⟩
    rcases List.mem_cons.mp more with rfl | more
    · exact Std.OrientedCmp.gt_iff_lt.mp (small y less)
    · exact across y less z more

theorem Sorted.remove [DecidableEq α] {x : α} {t t' : RBTree α} (sorted : t.Sorted cmp)
    (removed : t.remove x = some t') : t'.Sorted cmp := by
  rw [Sorted, toList_remove sorted.nodup removed]
  exact List.Pairwise.sublist List.erase_sublist sorted

end Sorted

end RBTree

end GreatEvent
