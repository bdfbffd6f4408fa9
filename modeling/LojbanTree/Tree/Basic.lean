import LojbanTree.Text.Basic

/-!
Parse trees.

A leaf holds a piece of the text. A labeled branch is named after a grammar rule, a word class or a
selma'o; a group is a branch without a name. Functions on trees come in pairs, one for a tree and
one for a list of siblings.
-/

namespace LojbanTree

/-- A parse tree. -/
inductive Tree where
  | leaf (text : Text)
  | labeled (label : Text) (children : List Tree)
  | group (children : List Tree)
  deriving Repr, Inhabited

namespace Tree

/-- Induction over trees, the hypothesis being given for every child. -/
@[induction_eliminator, elab_as_elim]
theorem induction {motive : Tree → Prop}
    (leaf : ∀ text, motive (.leaf text))
    (labeled : ∀ label children, (∀ child ∈ children, motive child) →
      motive (.labeled label children))
    (group : ∀ children, (∀ child ∈ children, motive child) → motive (.group children))
    (tree : Tree) : motive tree :=
  Tree.rec (motive_1 := motive) (motive_2 := fun siblings => ∀ child ∈ siblings, motive child)
    leaf labeled group (fun _ h => absurd h List.not_mem_nil)
    (fun _ _ ihHead ihTail _ h => by
      rcases List.mem_cons.mp h with rfl | h
      · exact ihHead
      · exact ihTail _ h)
    tree

/-! ### Equality -/

mutual

/-- Are two trees the same? -/
def decideEq : (a b : Tree) → Decidable (a = b)
  | .leaf s, .leaf t =>
    if h : s = t then isTrue (by rw [h]) else isFalse (by simp [h])
  | .labeled k as, .labeled l bs =>
    if h : k = l then
      match decideEqAll as bs with
      | isTrue e => isTrue (by rw [h, e])
      | isFalse e => isFalse (by simp [e])
    else isFalse (by simp [h])
  | .group as, .group bs =>
    match decideEqAll as bs with
    | isTrue e => isTrue (by rw [e])
    | isFalse e => isFalse (by simp [e])
  | .leaf _, .labeled _ _ => isFalse (by simp)
  | .leaf _, .group _ => isFalse (by simp)
  | .labeled _ _, .leaf _ => isFalse (by simp)
  | .labeled _ _, .group _ => isFalse (by simp)
  | .group _, .leaf _ => isFalse (by simp)
  | .group _, .labeled _ _ => isFalse (by simp)

/-- Are two lists of siblings the same? -/
def decideEqAll : (as bs : List Tree) → Decidable (as = bs)
  | [], [] => isTrue rfl
  | [], _ :: _ => isFalse (by simp)
  | _ :: _, [] => isFalse (by simp)
  | a :: as, b :: bs =>
    match decideEq a b with
    | isTrue h =>
      match decideEqAll as bs with
      | isTrue e => isTrue (by rw [h, e])
      | isFalse e => isFalse (by simp [e])
    | isFalse h => isFalse (by simp [h])

end

instance : DecidableEq Tree := decideEq

/-! ### Parts of a tree -/

/-- The children of a branch; a leaf has none. -/
def children : Tree → List Tree
  | .leaf _ => []
  | .labeled _ children => children
  | .group children => children

/-- A child by its position. Negative positions count from the end, the last child being -1. -/
def child? (tree : Tree) (position : Int) : Option Tree :=
  let count : Int := tree.children.length
  if position < -count then none
  else tree.children[(if position < 0 then position + count else position).toNat]?

/-- The label of a labeled branch. -/
def label? : Tree → Option Text
  | .labeled label _ => some label
  | _ => none

/-- Is the tree a leaf? -/
def isLeaf : Tree → Bool
  | .leaf _ => true
  | _ => false

mutual

/-- The texts of the leaves, from left to right. -/
def leafTexts : Tree → List Text
  | .leaf text => [text]
  | .labeled _ children => leafTextsAll children
  | .group children => leafTextsAll children

/-- The texts of the leaves of siblings. -/
def leafTextsAll : List Tree → List Text
  | [] => []
  | tree :: siblings => leafTexts tree ++ leafTextsAll siblings

end

theorem leafTextsAll_eq_flatMap (siblings : List Tree) :
    leafTextsAll siblings = siblings.flatMap leafTexts := by
  induction siblings with
  | nil => rfl
  | cons tree siblings ih => simp [leafTextsAll, ih]

@[simp] theorem leafTexts_leaf (text : Text) : (leaf text).leafTexts = [text] := by
  rw [leafTexts]

@[simp] theorem leafTexts_labeled (label : Text) (children : List Tree) :
    (labeled label children).leafTexts = children.flatMap leafTexts := by
  rw [leafTexts, leafTextsAll_eq_flatMap]

@[simp] theorem leafTexts_group (children : List Tree) :
    (group children).leafTexts = children.flatMap leafTexts := by
  rw [leafTexts, leafTextsAll_eq_flatMap]

/-- The text under a tree: its leaves joined without anything between them. -/
def plainText (tree : Tree) : Text :=
  Text.join tree.leafTexts

end Tree

end LojbanTree
