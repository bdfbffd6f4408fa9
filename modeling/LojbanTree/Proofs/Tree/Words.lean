import LojbanTree.Proofs.Tree.Subtrees
import LojbanTree.Tree.Morphology

/-!
The words of a tree that comes with letters.

A morphology node that lies below no other stands for one word, and nothing below it is looked at
but its text. Main statement: the morphology nodes that are there once letters have been taken
away are the words of the outermost ones, in their order (`filter_subtrees_withoutMorphology`).
-/

namespace LojbanTree.Tree

mutual

/-- The outermost morphology nodes, from left to right. -/
def morphologyNodes : Tree → List Tree
  | .leaf _ => []
  | .labeled label children =>
    if isMorphologyLabel label then [.labeled label children] else morphologyNodesAll children
  | .group children => morphologyNodesAll children

/-- The outermost morphology nodes of siblings. -/
def morphologyNodesAll : List Tree → List Tree
  | [] => []
  | tree :: siblings => morphologyNodes tree ++ morphologyNodesAll siblings

end

theorem morphologyNodesAll_eq_flatMap (siblings : List Tree) :
    morphologyNodesAll siblings = siblings.flatMap morphologyNodes := by
  induction siblings with
  | nil => rfl
  | cons tree siblings ih => simp [morphologyNodesAll, ih]

@[simp] theorem morphologyNodes_leaf (text : Text) : (leaf text).morphologyNodes = [] := by
  rw [morphologyNodes]

@[simp] theorem morphologyNodes_group (children : List Tree) :
    (group children).morphologyNodes = children.flatMap morphologyNodes := by
  rw [morphologyNodes, morphologyNodesAll_eq_flatMap]

theorem morphologyNodes_word {label : Text} (h : isMorphologyLabel label = true)
    (children : List Tree) :
    (labeled label children).morphologyNodes = [.labeled label children] := by
  rw [morphologyNodes, if_pos h]

theorem morphologyNodes_labeled {label : Text} (h : isMorphologyLabel label = false)
    (children : List Tree) :
    (labeled label children).morphologyNodes = children.flatMap morphologyNodes := by
  rw [morphologyNodes, if_neg (by simp [h]), morphologyNodesAll_eq_flatMap]

theorem labeled_of_mem_morphologyNodes {tree node : Tree} (h : node ∈ tree.morphologyNodes) :
    ∃ label letters, isMorphologyLabel label = true ∧ node = labeled label letters := by
  induction tree using morphologyInduction with
  | leaf text => simp at h
  | word label children hm =>
    rw [morphologyNodes_word hm] at h
    exact ⟨label, children, hm, List.mem_singleton.mp h⟩
  | labeled label children hm ih =>
    rw [morphologyNodes_labeled hm] at h
    obtain ⟨child, hchild, hnode⟩ := List.mem_flatMap.mp h
    exact ih child hchild hnode
  | group children ih =>
    rw [morphologyNodes_group] at h
    obtain ⟨child, hchild, hnode⟩ := List.mem_flatMap.mp h
    exact ih child hchild hnode

/-- No morphology node lies below the top of a word. -/
theorem filter_subtrees_word {label : Text} (h : isMorphologyLabel label = true)
    (text : Text) : (word label text).subtrees.filter isMorphologyNode = [word label text] := by
  have hroot : (word label text).isMorphologyNode = true := h
  have hleaf : ¬(leaf text).isMorphologyNode = true := Bool.false_ne_true
  rw [subtrees_eq_cons, List.filter_cons_of_pos hroot, properSubtrees, word, children]
  split
  · rfl
  · rw [List.flatMap_singleton, subtrees_leaf, List.filter_cons_of_neg hleaf, List.filter_nil]

/-- **Where letters have been taken away, the morphology nodes are the words of the outermost
ones.** What was below one of these is gone, and all that is kept was below none. -/
theorem filter_subtrees_withoutMorphology (tree : Tree) :
    tree.withoutMorphology.subtrees.filter isMorphologyNode =
      tree.morphologyNodes.map withoutMorphology := by
  have all : ∀ children : List Tree,
      (∀ child ∈ children, child.withoutMorphology.subtrees.filter isMorphologyNode =
        child.morphologyNodes.map withoutMorphology) →
      ((children.map withoutMorphology).flatMap subtrees).filter isMorphologyNode =
        (children.flatMap morphologyNodes).map withoutMorphology := by
    intro children each
    rw [List.flatMap_map, List.filter_flatMap, List.map_flatMap, List.flatMap_def,
      List.flatMap_def, List.map_congr_left each]
  induction tree using morphologyInduction with
  | leaf text =>
    rw [withoutMorphology_leaf, subtrees_leaf, morphologyNodes_leaf]
    rfl
  | word label children hm =>
    rw [morphologyNodes_word hm, List.map_singleton, withoutMorphology_word hm,
      filter_subtrees_word hm]
  | labeled label children hm ih =>
    have hroot : ¬(labeled label (children.map withoutMorphology)).isMorphologyNode = true :=
      Bool.eq_false_iff.mp hm
    rw [withoutMorphology_labeled hm, morphologyNodes_labeled hm, subtrees_labeled,
      List.filter_cons_of_neg hroot, all children ih]
  | group children ih =>
    have hroot : ¬(group (children.map withoutMorphology)).isMorphologyNode = true :=
      Bool.false_ne_true
    rw [withoutMorphology_group, morphologyNodes_group, subtrees_group,
      List.filter_cons_of_neg hroot, all children ih]

/-- Each of them has the text of an outermost one of the same label. -/
theorem exists_morphologyNode {tree : Tree} {label : Text} {children : List Tree}
    (hm : isMorphologyLabel label = true)
    (h : labeled label children ∈ tree.withoutMorphology.subtrees) :
    ∃ letters, labeled label letters ∈ tree.morphologyNodes ∧
      labeled label children = word label (labeled label letters).plainText := by
  have hfilter : labeled label children ∈ tree.morphologyNodes.map withoutMorphology := by
    rw [← filter_subtrees_withoutMorphology]
    exact List.mem_filter.mpr ⟨h, hm⟩
  obtain ⟨node, hnode, heq⟩ := List.mem_map.mp hfilter
  obtain ⟨top, letters, htop, rfl⟩ := labeled_of_mem_morphologyNodes hnode
  rw [withoutMorphology_word htop, ← leafTexts_labeled top] at heq
  obtain ⟨rfl, _⟩ := Tree.labeled.inj heq
  exact ⟨letters, hnode, heq.symm⟩

end LojbanTree.Tree
