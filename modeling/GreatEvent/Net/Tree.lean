import Mathlib.Data.List.Sort

/-!
# `tree.h`: the red-black tree of the timeouts

The nodes of the source point to their parents. Here a place in the tree is
the path from its node up to the root, so that a loop of the source that
climbs through `RB_PARENT` is a recursion over the path. `none` stands for
a null pointer that is followed.
-/

namespace GreatEvent

/-- `RB_RED` and `RB_BLACK` -/
inductive RBColor
  | red
  | black
  deriving DecidableEq, Repr

/-- Which child of its parent a node is. -/
inductive RBSide
  | left
  | right
  deriving DecidableEq, Repr

def RBSide.flip : RBSide → RBSide
  | left => right
  | right => left

/-- A node with what hangs below it; `nil` is `NULL`. -/
inductive RBTree (α : Type) where
  | nil
  | node (color : RBColor) (left : RBTree α) (elm : α) (right : RBTree α)
  deriving DecidableEq, Repr

/-- A parent seen from its child on `side`: its color, its element and its other child. -/
structure RBBranch (α : Type) where
  side : RBSide
  color : RBColor
  elm : α
  other : RBTree α

variable {α : Type}

/-- The parent with the child put back. -/
def RBBranch.fill (parent : RBBranch α) (child : RBTree α) : RBTree α :=
  match parent.side with
  | .left => .node parent.color child parent.elm parent.other
  | .right => .node parent.color parent.other parent.elm child

namespace RBTree

def isRed : RBTree α → Bool
  | node .red _ _ _ => true
  | _ => false

/-- `RB_COLOR(t) = color` -/
def paint (color : RBColor) : RBTree α → RBTree α
  | nil => nil
  | node _ left elm right => node color left elm right

/-- `RB_LEFT` and `RB_RIGHT` -/
def child (side : RBSide) : RBTree α → RBTree α
  | nil => nil
  | node _ left _ right => match side with
    | .left => left
    | .right => right

/-- `RB_COLOR` of a child that is there. -/
def paintChild (side : RBSide) (color : RBColor) : RBTree α → RBTree α
  | nil => nil
  | node c left elm right => match side with
    | .left => node c (left.paint color) elm right
    | .right => node c left elm (right.paint color)

/-- `RB_ROTATE_LEFT` and `RB_ROTATE_RIGHT` -/
def rotate (side : RBSide) (elm : RBTree α) : Option (RBTree α) :=
  match side, elm with
  | .left, node c a x (node d b y e) => some (node d (node c a x b) y e)
  | .right, node c (node d a x b) y e => some (node d a x (node c b y e))
  | _, _ => none

/-- The whole tree, with `t` at the end of the path. -/
def up (path : List (RBBranch α)) (t : RBTree α) : RBTree α :=
  path.foldl (fun t parent => parent.fill t) t

/-- A red node and its red parent on different sides: the parent is rotated below the node. -/
def align (parent gparent : RBBranch α) (elm : RBTree α) : Option (RBTree α) :=
  if parent.side = gparent.side then some (parent.fill elm)
  else (parent.fill elm).rotate gparent.side

/-- `RB_INSERT_COLOR`: the two halves of the loop differ in the sides only. -/
def insertColor : List (RBBranch α) → RBTree α → Option (RBTree α)
  | [], elm => some (elm.paint .black)
  | [parent], elm =>
    -- a red parent that is the root has no parent to look at
    if parent.color = .red then none else some ((parent.fill elm).paint .black)
  | parent :: gparent :: path, elm =>
    if parent.color = .red then
      if gparent.other.isRed then
        let parent := { parent with color := .black }
        let gparent := { gparent with color := .red, other := gparent.other.paint .black }
        insertColor path (gparent.fill (parent.fill elm))
      else do
        let parent ← align parent gparent elm
        let top ← ({ gparent with color := .red }.fill (parent.paint .black)).rotate gparent.side.flip
        -- `parent` is black now, so the loop ends
        some ((up path top).paint .black)
    else some ((up (parent :: gparent :: path) elm).paint .black)

/-- How one turn of the loop of `RB_REMOVE_COLOR` ends: with the tree below the parent in order,
or with the parent as the next node to look at. -/
inductive Turn (α : Type) where
  | done (t : RBTree α)
  | again (t : RBTree α)

/-- The sibling `tmp` of a node on `side` has a red child on that side only: the rotation of `tmp`
that brings it to the far side. -/
def alignSibling (side : RBSide) (tmp : RBTree α) : Option (RBTree α) :=
  if (tmp.child side.flip).isRed then some tmp
  else ((tmp.paintChild side .black).paint .red).rotate side.flip

/-- The loop of `RB_REMOVE_COLOR` once the sibling `tmp` is black. -/
def settle (parent : RBBranch α) (elm : RBTree α) : Option (Turn α) :=
  match parent.other with
  | nil => none
  | tmp =>
    if !(tmp.child parent.side).isRed && !(tmp.child parent.side.flip).isRed then
      some (.again ({ parent with other := tmp.paint .red }.fill elm))
    else do
      let tmp ← alignSibling parent.side tmp
      let tmp := (tmp.paint parent.color).paintChild parent.side.flip .black
      let top ← ({ parent with color := .black, other := tmp }.fill elm).rotate parent.side
      some (.done top)

/-- The sibling `tmp` is red: `RB_SET_BLACKRED(tmp, parent)` and the rotation that brings it above
the parent. The parent and `tmp`, both seen from `elm`. -/
def lower (parent : RBBranch α) : Option (RBBranch α × RBBranch α) :=
  match parent.other with
  | nil => none
  | node _ left tmp right => match parent.side with
    | .left => some (⟨.left, .red, parent.elm, left⟩, ⟨.left, .black, tmp, right⟩)
    | .right => some (⟨.right, .red, parent.elm, right⟩, ⟨.right, .black, tmp, left⟩)

/-- `RB_REMOVE_COLOR` -/
def removeColor : List (RBBranch α) → RBTree α → Option (RBTree α)
  | [], elm => some (elm.paint .black)
  | parent :: path, elm =>
    if elm.isRed then some (up (parent :: path) (elm.paint .black))
    else if parent.other.isRed then do
      let (parent, tmp) ← lower parent
      match ← settle parent elm with
      | .done top => some ((up (tmp :: path) top).paint .black)
      -- the parent has become red, so the loop ends there
      | .again top => some (up (tmp :: path) (top.paint .black))
    else do
      match ← settle parent elm with
      | .done top => some ((up path top).paint .black)
      | .again top => removeColor path top

/-- The loops that follow `RB_LEFT` to its end: the path from there, and the node. -/
def leftmost : RBTree α → List (RBBranch α) → Option (List (RBBranch α) × RBTree α)
  | nil, _ => none
  | node c nil x right, path => some (path, node c nil x right)
  | node c left x right, path => leftmost left (⟨.left, c, x, right⟩ :: path)

/-- What stands at `color:` in `RB_REMOVE`, with `child` in the place of the node taken out. -/
def closeGap (color : RBColor) (path : List (RBBranch α)) (child : RBTree α) : Option (RBTree α) :=
  if color = .black then removeColor path child else some (up path child)

/-- `RB_REMOVE` of the node at the end of the path. -/
def removeAt (path : List (RBBranch α)) : RBTree α → Option (RBTree α)
  | nil => none
  | node color nil _ child => closeGap color path child
  | node color child _ nil => closeGap color path child
  | node color left _ right => do
    -- the next node takes the place and the color of the old one
    let (below, elm) ← leftmost right []
    match elm with
    | nil => none
    | node c _ x child => closeGap c (below ++ ⟨.right, color, x, left⟩ :: path) child

/-- Where the pointer `x` points to: the node that holds `x`, with its path. -/
def locate [DecidableEq α] (x : α) :
    RBTree α → List (RBBranch α) → Option (List (RBBranch α) × RBTree α)
  | nil, _ => none
  | node c left y right, path =>
    if x = y then some (path, node c left y right)
    else match locate x left (⟨.left, c, y, right⟩ :: path) with
      | some place => some place
      | none => locate x right (⟨.right, c, y, left⟩ :: path)

/-- `RB_REMOVE` -/
def remove [DecidableEq α] (x : α) (t : RBTree α) : Option (RBTree α) := do
  let (path, elm) ← locate x t []
  removeAt path elm

/-- The loop of `RB_INSERT`: the path to the place of `x`, or the node that compares equal. -/
def descend (cmp : α → α → Ordering) (x : α) :
    RBTree α → List (RBBranch α) → Except α (List (RBBranch α))
  | nil, path => .ok path
  | node c left y right, path => match cmp x y with
    | .lt => descend cmp x left (⟨.left, c, y, right⟩ :: path)
    | .gt => descend cmp x right (⟨.right, c, y, left⟩ :: path)
    | .eq => .error y

/-- `RB_INSERT`: what it returns, and the tree it leaves. -/
def insert (cmp : α → α → Ordering) (x : α) (t : RBTree α) : Option (Option α × RBTree α) :=
  match descend cmp x t [] with
  | .error y => some (some y, t)
  | .ok path => do
    let t ← insertColor path (node .red nil x nil)
    some (none, t)

/-- `RB_FIND` -/
def find (cmp : α → α → Ordering) (x : α) : RBTree α → Option α
  | nil => none
  | node _ left y right => match cmp x y with
    | .lt => find cmp x left
    | .gt => find cmp x right
    | .eq => some y

/-- `RB_MIN` -/
def min : RBTree α → Option α
  | nil => none
  | node _ nil x _ => some x
  | node _ left _ _ => min left

/-- The loops of `RB_NEXT` over `RB_PARENT`. -/
def climb : List (RBBranch α) → Option α
  | [] => none
  | parent :: path => match parent.side with
    | .left => some parent.elm
    | .right => climb path

/-- `RB_NEXT` -/
def next [DecidableEq α] (x : α) (t : RBTree α) : Option α := do
  let (path, elm) ← locate x t []
  match elm.child .right with
  | nil => climb path
  | right => min right

/-- The elements from left to right. -/
def toList : RBTree α → List α
  | nil => []
  | node _ left x right => left.toList ++ x :: right.toList

end RBTree

end GreatEvent
