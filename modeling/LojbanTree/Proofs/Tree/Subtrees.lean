import LojbanTree.Tree.Basic

/-!
The subtrees of a tree, and properties that all of them have.

A condition on trees that only looks at one branch and its children is stated once as a predicate
on a single node; `Every` asks it of all subtrees. Main statements: `every_labeled` and
`every_group` reduce such a property to the root and the children.
-/

namespace LojbanTree.Tree

mutual

/-- The subtrees of a tree: the tree itself, then those of its children from left to right. -/
def subtrees : Tree → List Tree
  | .leaf text => [.leaf text]
  | .labeled label children => .labeled label children :: subtreesAll children
  | .group children => .group children :: subtreesAll children

/-- The subtrees of siblings. -/
def subtreesAll : List Tree → List Tree
  | [] => []
  | tree :: siblings => subtrees tree ++ subtreesAll siblings

end

theorem subtreesAll_eq_flatMap (siblings : List Tree) :
    subtreesAll siblings = siblings.flatMap subtrees := by
  induction siblings with
  | nil => rfl
  | cons tree siblings ih => simp [subtreesAll, ih]

/-- The subtrees below the root. -/
def properSubtrees (tree : Tree) : List Tree :=
  tree.children.flatMap subtrees

@[simp] theorem subtrees_leaf (text : Text) : (leaf text).subtrees = [.leaf text] := by
  rw [subtrees]

@[simp] theorem subtrees_labeled (label : Text) (children : List Tree) :
    (labeled label children).subtrees = .labeled label children :: children.flatMap subtrees := by
  rw [subtrees, subtreesAll_eq_flatMap]

@[simp] theorem subtrees_group (children : List Tree) :
    (group children).subtrees = .group children :: children.flatMap subtrees := by
  rw [subtrees, subtreesAll_eq_flatMap]

/-- The root comes first, then what is below it. -/
theorem subtrees_eq_cons (tree : Tree) : tree.subtrees = tree :: tree.properSubtrees := by
  cases tree <;> simp [properSubtrees, children]

theorem mem_subtrees_labeled {node child : Tree} {label : Text} {children : List Tree}
    (hc : child ∈ children) (hn : node ∈ child.subtrees) :
    node ∈ (labeled label children).subtrees := by
  rw [subtrees_labeled]
  exact List.mem_cons_of_mem _ (List.mem_flatMap.mpr ⟨child, hc, hn⟩)

theorem mem_subtrees_group {node child : Tree} {children : List Tree}
    (hc : child ∈ children) (hn : node ∈ child.subtrees) : node ∈ (group children).subtrees := by
  rw [subtrees_group]
  exact List.mem_cons_of_mem _ (List.mem_flatMap.mpr ⟨child, hc, hn⟩)

/-- Does every subtree have a property? -/
def Every (P : Tree → Prop) (tree : Tree) : Prop :=
  ∀ node ∈ tree.subtrees, P node

instance (P : Tree → Prop) [DecidablePred P] (tree : Tree) : Decidable (tree.Every P) :=
  List.decidableBAll P tree.subtrees

section

variable {P Q : Tree → Prop} {tree : Tree} {label : Text} {children : List Tree}

@[simp] theorem every_leaf {text : Text} : (leaf text).Every P ↔ P (.leaf text) := by
  simp [Every]

@[simp] theorem every_labeled :
    (labeled label children).Every P ↔
      P (.labeled label children) ∧ ∀ child ∈ children, child.Every P := by
  simp only [Every, subtrees_labeled, List.mem_cons, List.mem_flatMap, forall_eq_or_imp]
  exact and_congr_right fun _ =>
    ⟨fun h child hc node hn => h node ⟨child, hc, hn⟩,
      fun h node ⟨child, hc, hn⟩ => h child hc node hn⟩

@[simp] theorem every_group :
    (group children).Every P ↔ P (.group children) ∧ ∀ child ∈ children, child.Every P := by
  simp only [Every, subtrees_group, List.mem_cons, List.mem_flatMap, forall_eq_or_imp]
  exact and_congr_right fun _ =>
    ⟨fun h child hc node hn => h node ⟨child, hc, hn⟩,
      fun h node ⟨child, hc, hn⟩ => h child hc node hn⟩

/-- What every subtree has, the tree has. -/
theorem Every.root (h : tree.Every P) : P tree :=
  h tree (by simp [subtrees_eq_cons])

theorem Every.mono (himp : ∀ node, P node → Q node) (h : tree.Every P) : tree.Every Q :=
  fun node hn => himp node (h node hn)

end

end LojbanTree.Tree
