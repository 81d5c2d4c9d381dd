import Mathlib.Data.List.Basic

/-!
# Red-black trees with find-or-insert

A tree is searched for an item by comparisons that are only known by their
sign.  When the search ends at an empty place, a red node is put there and the
tree is rebalanced on the way back to the root: the parents of the place are
kept as a path.  Rebalancing does not change the order of the items, so what
the operation does can be said of the list of the items.
-/

namespace FluentBit.RedBlack

open List

variable {α : Type*}

inductive Color where
  | red
  | black
deriving DecidableEq, Repr

inductive Tree (α : Type*) where
  | leaf
  | node (color : Color) (left : Tree α) (item : α) (right : Tree α)

inductive Side where
  | left
  | right
deriving DecidableEq, Repr

/-- A parent, seen from the child on one of its sides. -/
structure Frame (α : Type*) where
  side : Side
  color : Color
  item : α
  sibling : Tree α

def Tree.toList : Tree α → List α
  | .leaf => []
  | .node _ left item right => left.toList ++ item :: right.toList

def Tree.isRed : Tree α → Bool
  | .node .red _ _ _ => true
  | _ => false

def Tree.blacken : Tree α → Tree α
  | .leaf => .leaf
  | .node _ left item right => .node .black left item right

def Tree.rotateLeft : Tree α → Tree α
  | .node color left item (.node other inner next right) =>
    .node other (.node color left item inner) next right
  | tree => tree

def Tree.rotateRight : Tree α → Tree α
  | .node color (.node other left next inner) item right =>
    .node other left next (.node color inner item right)
  | tree => tree

def Frame.plug (frame : Frame α) (tree : Tree α) : Tree α :=
  match frame.side with
  | .left => .node frame.color tree frame.item frame.sibling
  | .right => .node frame.color frame.sibling frame.item tree

/-- The whole tree around a subtree. -/
def zip : List (Frame α) → Tree α → Tree α
  | [], tree => tree
  | frame :: rest, tree => zip rest (frame.plug tree)

/-- A red node below a red parent whose sibling is not red: straighten the two
edges, recolor and rotate at the grandparent. -/
def rotateUp (parent grandparent : Frame α) (tree : Tree α) : Tree α :=
  let upper := parent.plug tree
  let upper :=
    match grandparent.side, parent.side with
    | .left, .right => upper.rotateLeft
    | .right, .left => upper.rotateRight
    | _, _ => upper
  let top := { grandparent with color := .red }.plug upper.blacken
  match grandparent.side with
  | .left => top.rotateRight
  | .right => top.rotateLeft

/-- The loop of the rebalancing after an insertion.  The subtree at the end of
the path has a red root. -/
def rebalanceLoop : List (Frame α) → Tree α → Tree α
  | parent :: grandparent :: rest, tree =>
    if parent.color = .red then
      if grandparent.sibling.isRed then
        rebalanceLoop rest
          ({ grandparent with color := .red, sibling := grandparent.sibling.blacken }.plug
            ({ parent with color := .black }.plug tree))
      else zip rest (rotateUp parent grandparent tree)
    else zip (parent :: grandparent :: rest) tree
  | path, tree => zip path tree

/-- Rebalancing starts below a red parent only. -/
def rebalance (path : List (Frame α)) (tree : Tree α) : Tree α :=
  match path with
  | [] => tree
  | parent :: _ =>
    if parent.color = .black then zip path tree
    else (rebalanceLoop path tree).blacken

/-- Put an item at the empty place at the end of a path. -/
def insertAt (path : List (Frame α)) (item : α) : Tree α :=
  match path with
  | [] => .node .black .leaf item .leaf
  | path => rebalance path (.node .red .leaf item .leaf)

inductive Search (α : Type*) where
  | found (item : α)
  | missing (path : List (Frame α))

/-- Search by the sign of the comparisons with the items. -/
def descend (cut : α → Int) : Tree α → List (Frame α) → Search α
  | .leaf, path => .missing path
  | .node color left item right, path =>
    if cut item < 0 then
      descend cut left ({ side := .left, color := color, item := item, sibling := right } :: path)
    else if cut item = 0 then .found item
    else
      descend cut right ({ side := .right, color := color, item := item, sibling := left } :: path)

/-- The item that was found, if any, and the tree in which the new one has
been inserted otherwise. -/
def findOrInsert (cut : α → Int) (new : α) (tree : Tree α) : Option α × Tree α :=
  match descend cut tree [] with
  | .found item => (some item, tree)
  | .missing path => (none, insertAt path new)

/-- The items in front of the place at the end of a path. -/
def before : List (Frame α) → List α
  | [] => []
  | frame :: rest =>
    before rest ++
      match frame.side with
      | .left => []
      | .right => frame.sibling.toList ++ [frame.item]

/-- The items after the place at the end of a path. -/
def after : List (Frame α) → List α
  | [] => []
  | frame :: rest =>
    (match frame.side with
      | .left => frame.item :: frame.sibling.toList
      | .right => []) ++ after rest

@[simp]
theorem toList_blacken (tree : Tree α) : tree.blacken.toList = tree.toList := by
  cases tree with
  | leaf | node => rfl

@[simp]
theorem toList_rotateLeft (tree : Tree α) : tree.rotateLeft.toList = tree.toList := by
  unfold Tree.rotateLeft
  split
  · simp [Tree.toList]
  · rfl

@[simp]
theorem toList_rotateRight (tree : Tree α) : tree.rotateRight.toList = tree.toList := by
  unfold Tree.rotateRight
  split
  · simp [Tree.toList]
  · rfl

theorem toList_plug (frame : Frame α) (tree : Tree α) :
    (frame.plug tree).toList =
      (match frame.side with
        | .left => []
        | .right => frame.sibling.toList ++ [frame.item]) ++ tree.toList ++
      (match frame.side with
        | .left => frame.item :: frame.sibling.toList
        | .right => []) := by
  cases side : frame.side with
  | left | right => simp [Frame.plug, side, Tree.toList]

theorem toList_zip (path : List (Frame α)) (tree : Tree α) :
    (zip path tree).toList = before path ++ tree.toList ++ after path := by
  induction path generalizing tree with
  | nil => simp [zip, before, after]
  | cons frame rest ih =>
    rw [zip, ih, toList_plug]
    simp [before, after]

theorem toList_rotateUp (parent grandparent : Frame α) (tree : Tree α) :
    (rotateUp parent grandparent tree).toList = (grandparent.plug (parent.plug tree)).toList := by
  cases side : grandparent.side with
  | left | right =>
    cases other : parent.side with
    | left | right => simp [rotateUp, side, other, toList_plug]

theorem toList_rebalanceLoop (path : List (Frame α)) (tree : Tree α) :
    (rebalanceLoop path tree).toList = (zip path tree).toList := by
  induction path, tree using rebalanceLoop.induct with
  | case1 parent grandparent rest tree red uncle ih =>
    rw [rebalanceLoop, if_pos red, if_pos uncle, ih]
    simp [zip, toList_zip, toList_plug]
  | case2 parent grandparent rest tree red uncle =>
    rw [rebalanceLoop, if_pos red, if_neg uncle]
    simp [zip, toList_zip, toList_rotateUp]
  | case3 parent grandparent rest tree black => rw [rebalanceLoop, if_neg black]
  | case4 path tree short =>
    rw [rebalanceLoop]
    exact short

theorem toList_insertAt (path : List (Frame α)) (item : α) :
    (insertAt path item).toList = before path ++ item :: after path := by
  cases path with
  | nil => rfl
  | cons parent rest =>
    simp only [insertAt, rebalance]
    split
    · simp [toList_zip, Tree.toList]
    · simp [toList_rebalanceLoop, toList_zip, Tree.toList]

/-- The signs of the comparisons fall along the list, with at most one
zero. -/
def Falling (cut : α → Int) (items : List α) : Prop :=
  items.Pairwise fun first second => cut first ≤ 0 → cut second < 0

variable {cut : α → Int} {tree : Tree α}

theorem descend_found {path : List (Frame α)} {item : α}
    (found : descend cut tree path = .found item) : item ∈ tree.toList ∧ cut item = 0 := by
  induction tree generalizing path with
  | leaf => cases found
  | node color left middle right ihLeft ihRight =>
    simp only [descend] at found
    split at found
    · have inside := ihLeft found
      exact ⟨mem_append_left _ inside.1, inside.2⟩
    · split at found
      · next zero =>
        cases found
        exact ⟨mem_append_right _ mem_cons_self, zero⟩
      · have inside := ihRight found
        exact ⟨mem_append_right _ (mem_cons_of_mem _ inside.1), inside.2⟩

theorem falling_node {left right : List α} {item : α}
    (falling : Falling cut (left ++ item :: right)) :
    Falling cut left ∧ Falling cut right ∧ (cut item < 0 → ∀ other ∈ right, cut other < 0) ∧
      (0 < cut item → ∀ other ∈ left, 0 < cut other) := by
  obtain ⟨onLeft, fromItem, across⟩ := pairwise_append.mp falling
  obtain ⟨after, onRight⟩ := pairwise_cons.mp fromItem
  refine ⟨onLeft, onRight, ?_, ?_⟩
  · intro negative other member
    exact after other member (by omega)
  · intro positive other member
    have falls := across other member item mem_cons_self
    omega

theorem filter_of_sign {items : List α} {test other : α → Bool}
    (sign : ∀ item ∈ items, test item = true ∧ other item = false) :
    items.filter test = items ∧ items.filter other = [] := by
  refine ⟨filter_eq_self.mpr fun item member => (sign item member).1, ?_⟩
  refine filter_eq_nil_iff.mpr fun item member => ?_
  simp [(sign item member).2]

theorem descend_missing {path place : List (Frame α)} (falling : Falling cut tree.toList)
    (ended : descend cut tree path = .missing place) :
    before place = before path ++ tree.toList.filter (fun item => decide (0 < cut item)) ∧
      after place = tree.toList.filter (fun item => decide (cut item < 0)) ++ after path ∧
      ∀ item ∈ tree.toList, cut item ≠ 0 := by
  induction tree generalizing path with
  | leaf =>
    cases ended
    simp [Tree.toList]
  | node color left item right ihLeft ihRight =>
    obtain ⟨onLeft, onRight, smaller, greater⟩ := falling_node falling
    simp only [descend] at ended
    split at ended
    · next negative =>
      obtain ⟨front, back, apart⟩ := ihLeft onLeft ended
      have later := smaller negative
      have sign : ¬0 < cut item := by omega
      have right := @filter_of_sign _ right.toList (fun item => decide (cut item < 0))
        (fun item => decide (0 < cut item)) (by grind)
      rw [front, back]
      simp only [Tree.toList, filter_append, filter_cons, right, sign, negative,
        decide_false, decide_true, Bool.false_eq_true, if_false, if_true]
      refine ⟨by simp [before], by simp [after], ?_⟩
      intro other member
      rcases mem_append.mp member with inside | inside
      · exact apart other inside
      · rcases mem_cons.mp inside with rfl | beyond
        · omega
        · have := later other beyond
          omega
    · split at ended
      · cases ended
      · next nonnegative nonzero =>
        have positive : 0 < cut item := by omega
        obtain ⟨front, back, apart⟩ := ihRight onRight ended
        have earlier := greater positive
        have left := @filter_of_sign _ left.toList (fun item => decide (0 < cut item))
          (fun item => decide (cut item < 0)) (by grind)
        rw [front, back]
        simp only [Tree.toList, filter_append, filter_cons, left, nonnegative,
          positive, decide_false, decide_true, Bool.false_eq_true, if_false, if_true]
        refine ⟨by simp [before], by simp [after], ?_⟩
        intro other member
        rcases mem_append.mp member with inside | inside
        · have := earlier other inside
          omega
        · rcases mem_cons.mp inside with rfl | beyond
          · omega
          · exact apart other beyond

/-- In ordered items, the operation finds the item that compares equal, or
puts the new one where it belongs. -/
theorem findOrInsert_spec (falling : Falling cut tree.toList) (new : α) :
    (∃ item ∈ tree.toList, cut item = 0 ∧ findOrInsert cut new tree = (some item, tree)) ∨
      ((∀ item ∈ tree.toList, cut item ≠ 0) ∧
        ∃ next, findOrInsert cut new tree = (none, next) ∧
          next.toList =
            tree.toList.filter (fun item => decide (0 < cut item)) ++
              new :: tree.toList.filter (fun item => decide (cut item < 0))) := by
  unfold findOrInsert
  cases ended : descend cut tree [] with
  | found item =>
    obtain ⟨member, zero⟩ := descend_found ended
    exact .inl ⟨item, member, zero, rfl⟩
  | missing path =>
    obtain ⟨front, back, apart⟩ := descend_missing falling ended
    refine .inr ⟨apart, _, rfl, ?_⟩
    rw [toList_insertAt, front, back]
    simp [before, after]

end FluentBit.RedBlack
