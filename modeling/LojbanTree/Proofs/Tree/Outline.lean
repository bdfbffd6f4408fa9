import LojbanTree.Proofs.Tree.Flattening
import LojbanTree.Proofs.Tree.Positions

/-!
The outline of a tree around its words.

Taking letters away changes nothing but what is below the outermost morphology nodes. Main
statement: the result is flattened, a tree stays as it is exactly when it is flattened already, and
every node that is below no morphology node is found where it was (`withoutMorphology_outline`).
-/

namespace LojbanTree.Tree

/-- Two nodes of one kind: leaves with one text, branches with one label, or groups. -/
inductive SameKind : Tree → Tree → Prop where
  | leaf (text : Text) : SameKind (.leaf text) (.leaf text)
  | labeled (label : Text) (children others : List Tree) :
      SameKind (.labeled label children) (.labeled label others)
  | group (children others : List Tree) : SameKind (.group children) (.group others)

/-! ### Single nodes -/

theorem sameKind_withoutMorphology (tree : Tree) : SameKind tree tree.withoutMorphology := by
  cases tree with
  | leaf text =>
    rw [withoutMorphology_leaf]
    exact .leaf text
  | labeled label children =>
    cases hm : isMorphologyLabel label with
    | true =>
      rw [withoutMorphology_word hm]
      exact .labeled label children _
    | false =>
      rw [withoutMorphology_labeled hm]
      exact .labeled label children _
  | group children =>
    rw [withoutMorphology_group]
    exact .group children _

/-- All nodes but words lose their letters child by child. -/
theorem children_withoutMorphology {tree : Tree} (h : tree.isMorphologyNode = false) :
    tree.withoutMorphology.children = tree.children.map withoutMorphology := by
  cases tree with
  | leaf text =>
    rw [withoutMorphology_leaf]
    rfl
  | labeled label children =>
    rw [withoutMorphology_labeled h]
    rfl
  | group children =>
    rw [withoutMorphology_group]
    rfl

/-! ### The whole tree -/

/-- A tree has no letters to take away exactly when it is flattened. -/
theorem withoutMorphology_eq_self_iff {tree : Tree} :
    tree.withoutMorphology = tree ↔ tree.Flattened := by
  constructor
  · intro h
    rw [← h]
    exact flattened_withoutMorphology tree
  · exact withoutMorphology_eq_self

/-- **Letters go and nothing else does.** Without letters a tree is flattened; the trees that stay
as they are are the flattened ones, so there are no letters to take away a second time; and a node
with no morphology node above it stays at its position, of its kind, with its label or text and,
unless it is a morphology node itself, with as many children. -/
theorem withoutMorphology_outline (tree : Tree) :
    tree.withoutMorphology.Flattened ∧
      (tree.withoutMorphology = tree ↔ tree.Flattened) ∧
      tree.withoutMorphology.withoutMorphology = tree.withoutMorphology ∧
      ∀ position node, tree.subtreeAt? position = some node →
        tree.ClearAbove isMorphologyNode position →
        ∃ image, tree.withoutMorphology.subtreeAt? position = some image ∧ SameKind node image ∧
          (node.isMorphologyNode = false → image.children.length = node.children.length) := by
  refine ⟨flattened_withoutMorphology tree, withoutMorphology_eq_self_iff,
    withoutMorphology_withoutMorphology tree, ?_⟩
  intro position node hnode hclear
  refine ⟨node.withoutMorphology, ?_, sameKind_withoutMorphology node, ?_⟩
  · rw [subtreeAt?_of_clearAbove (fun _ => children_withoutMorphology) hclear, hnode,
      Option.map_some]
  · intro hword
    rw [children_withoutMorphology hword, List.length_map]

/-- A selbri after a root word: the letters of the word go, and the selbri stays the second child
of its sentence, with both its children. -/
theorem withoutMorphology_outline_selbri :
    (group [.labeled "sentence" [.labeled "gismu" [.leaf "kla", .leaf "ma"],
        .labeled "selbri" [.leaf "broda", .labeled "KU" []]]]).subtreeAt? [0, 1] =
      some (.labeled "selbri" [.leaf "broda", .labeled "KU" []]) ∧
    (group [.labeled "sentence" [.labeled "gismu" [.leaf "kla", .leaf "ma"],
        .labeled "selbri" [.leaf "broda", .labeled "KU" []]]]).ClearAbove
      isMorphologyNode [0, 1] ∧
    ∃ image, (group [.labeled "sentence" [.labeled "gismu" [.leaf "kla", .leaf "ma"],
        .labeled "selbri" [.leaf "broda", .labeled "KU" []]]]).withoutMorphology.subtreeAt? [0, 1] =
          some image ∧
      SameKind (.labeled "selbri" [.leaf "broda", .labeled "KU" []]) image ∧
      image.children.length = 2 := by
  obtain ⟨_, _, _, frame⟩ := withoutMorphology_outline
    (.group [.labeled "sentence" [.labeled "gismu" [.leaf "kla", .leaf "ma"],
      .labeled "selbri" [.leaf "broda", .labeled "KU" []]]])
  obtain ⟨image, hat, hkind, hwidth⟩ := frame [0, 1]
    (.labeled "selbri" [.leaf "broda", .labeled "KU" []]) rfl (by decide)
  exact ⟨rfl, by decide, image, hat, hkind, hwidth (by decide)⟩

end LojbanTree.Tree
