import LojbanTree.Tree.Basic
import Mathlib.Data.List.Basic

/-!
Positions in a tree.

A position is the way down from the root to a subtree, as the numbers of the children on it. Main
statements: what is put at a position is found there (`subtreeAt?_replaceAt`), and a relation
between trees that passes from a child to its branch passes from a subtree and what replaces it to
the whole trees (`related_replaceAt`). A pass that changes a branch only below certain nodes leaves
all others where they were (`subtreeAt?_of_clearAbove`).
-/

namespace LojbanTree.Tree

/-- The subtree at a position, if the position is in the tree. -/
def subtreeAt? : Tree → List Nat → Option Tree
  | tree, [] => some tree
  | tree, number :: below => tree.children[number]?.bind fun child => child.subtreeAt? below

/-- The tree with another subtree at a position. Outside the tree there is nothing to replace. -/
def replaceAt : Tree → List Nat → Tree → Tree
  | _, [], new => new
  | .leaf text, _ :: _, _ => .leaf text
  | .labeled label children, number :: below, new =>
    .labeled label (children.modify number fun child => child.replaceAt below new)
  | .group children, number :: below, new =>
    .group (children.modify number fun child => child.replaceAt below new)

@[simp] theorem subtreeAt?_nil (tree : Tree) : tree.subtreeAt? [] = some tree := by
  rw [subtreeAt?]

@[simp] theorem replaceAt_nil (tree new : Tree) : tree.replaceAt [] new = new := by
  rw [replaceAt]

/-- A position below the root leads through a child. -/
theorem subtreeAt?_cons_eq_some_iff {tree part : Tree} {number : Nat} {below : List Nat} :
    tree.subtreeAt? (number :: below) = some part ↔
      ∃ child, tree.children[number]? = some child ∧ child.subtreeAt? below = some part := by
  rw [subtreeAt?, Option.bind_eq_some_iff]

/-- The way down may be taken in two parts. -/
theorem subtreeAt?_append (tree : Tree) (above below : List Nat) :
    tree.subtreeAt? (above ++ below) =
      (tree.subtreeAt? above).bind fun part => part.subtreeAt? below := by
  induction above generalizing tree with
  | nil => rw [List.nil_append, subtreeAt?_nil, Option.bind_some]
  | cons number rest ih =>
    rw [List.cons_append, subtreeAt?, subtreeAt?, Option.bind_assoc]
    exact congrArg _ (funext ih)

section

variable {children : List Tree} {number : Nat} {child : Tree}

theorem modify_eq_set (h : children[number]? = some child) (change : Tree → Tree) :
    children.modify number change = children.set number (change child) := by
  rw [List.modify_eq_set_getElem?, h]
  rfl

theorem replaceAt_labeled (h : children[number]? = some child) (label : Text)
    (below : List Nat) (new : Tree) :
    (labeled label children).replaceAt (number :: below) new =
      .labeled label (children.set number (child.replaceAt below new)) := by
  rw [replaceAt, modify_eq_set h]

theorem replaceAt_group (h : children[number]? = some child) (below : List Nat) (new : Tree) :
    (group children).replaceAt (number :: below) new =
      .group (children.set number (child.replaceAt below new)) := by
  rw [replaceAt, modify_eq_set h]

/-- What is the same for a child and its replacement is the same for all siblings one by one. -/
theorem map_set_eq {α : Type} (view : Tree → α) {new : Tree} (h : children[number]? = some child)
    (hview : view new = view child) : (children.set number new).map view = children.map view := by
  obtain ⟨hnumber, rfl⟩ := List.getElem?_eq_some_iff.mp h
  rw [List.map_set, hview, ← List.getElem_map view, List.set_getElem_self]
  rw [List.length_map]
  exact hnumber

end

/-- What is put at a position is found there. -/
theorem subtreeAt?_replaceAt {tree old : Tree} {position : List Nat}
    (hold : tree.subtreeAt? position = some old) (new : Tree) :
    (tree.replaceAt position new).subtreeAt? position = some new := by
  induction position generalizing tree with
  | nil => rw [replaceAt_nil, subtreeAt?_nil]
  | cons number below ih =>
    obtain ⟨child, hchild, hbelow⟩ := subtreeAt?_cons_eq_some_iff.mp hold
    obtain ⟨hnumber, _⟩ := List.getElem?_eq_some_iff.mp hchild
    rw [subtreeAt?_cons_eq_some_iff]
    refine ⟨child.replaceAt below new, ?_, ih hbelow⟩
    cases tree with
    | leaf text => cases hchild
    | labeled label children =>
      rw [Tree.children] at hchild hnumber
      rw [replaceAt_labeled hchild, Tree.children, List.getElem?_set_self hnumber]
    | group children =>
      rw [Tree.children] at hchild hnumber
      rw [replaceAt_group hchild, Tree.children, List.getElem?_set_self hnumber]

/-- **A relation that passes from a child to its branch passes from a subtree to the tree.** By
induction on the position, from the root down. -/
theorem related_replaceAt {R : Tree → Tree → Prop}
    (labeled : ∀ (label : Text) {children : List Tree} {number : Nat} {child new : Tree},
      children[number]? = some child → R child new →
        R (.labeled label children) (.labeled label (children.set number new)))
    (group : ∀ {children : List Tree} {number : Nat} {child new : Tree},
      children[number]? = some child → R child new →
        R (.group children) (.group (children.set number new)))
    {tree old new : Tree} {position : List Nat} (hold : tree.subtreeAt? position = some old)
    (h : R old new) : R tree (tree.replaceAt position new) := by
  induction position generalizing tree with
  | nil =>
    rw [subtreeAt?_nil] at hold
    rw [replaceAt_nil, Option.some.inj hold]
    exact h
  | cons number below ih =>
    obtain ⟨child, hchild, hbelow⟩ := subtreeAt?_cons_eq_some_iff.mp hold
    cases tree with
    | leaf text => cases hchild
    | labeled label children =>
      rw [Tree.children] at hchild
      rw [replaceAt_labeled hchild]
      exact labeled label hchild (ih hbelow)
    | group children =>
      rw [Tree.children] at hchild
      rw [replaceAt_group hchild]
      exact group hchild (ih hbelow)

/-! ### Passes that rewrite a tree in place -/

/-- Is no node above a position one of those that are given? -/
def ClearAbove (given : Tree → Bool) (tree : Tree) (position : List Nat) : Prop :=
  ∀ depth < position.length, ∀ above ∈ tree.subtreeAt? (position.take depth), given above = false

instance (given : Tree → Bool) (tree : Tree) (position : List Nat) :
    Decidable (tree.ClearAbove given position) :=
  inferInstanceAs (Decidable (∀ depth < position.length,
    ∀ above ∈ tree.subtreeAt? (position.take depth), given above = false))

/-- Above a position below the root are the root and the nodes that are above it in the child. -/
theorem ClearAbove.of_cons {given : Tree → Bool} {tree : Tree} {number : Nat} {below : List Nat}
    (h : tree.ClearAbove given (number :: below)) :
    given tree = false ∧
      ∀ child, tree.children[number]? = some child → child.ClearAbove given below := by
  constructor
  · exact h 0 (Nat.zero_lt_succ _) tree rfl
  · intro child hchild depth hdepth above habove
    refine h (depth + 1) (Nat.succ_lt_succ hdepth) above ?_
    rw [List.take_succ_cons]
    exact subtreeAt?_cons_eq_some_iff.mpr ⟨child, hchild, habove⟩

/-- **A pass that rewrites child by child all but the given nodes** finds at each position that is
below none of them what it makes of the node that was there. -/
theorem subtreeAt?_of_clearAbove {pass : Tree → Tree} {given : Tree → Bool}
    (hpass : ∀ tree, given tree = false → (pass tree).children = tree.children.map pass)
    {tree : Tree} {position : List Nat} (h : tree.ClearAbove given position) :
    (pass tree).subtreeAt? position = (tree.subtreeAt? position).map pass := by
  induction position generalizing tree with
  | nil => rw [subtreeAt?_nil, subtreeAt?_nil, Option.map_some]
  | cons number below ih =>
    obtain ⟨hroot, hbelow⟩ := h.of_cons
    rw [subtreeAt?, subtreeAt?, hpass tree hroot, List.getElem?_map, Option.map_bind]
    cases hchild : tree.children[number]? with
    | none => rfl
    | some child => exact ih (hbelow child hchild)

end LojbanTree.Tree
