import LojbanTree.Proofs.Tree.Words
import Mathlib.Data.List.Basic

/-!
The spoken text of a tree.

A tree is cut into the *spoken parts*: its outermost morphology nodes, which stand for a word each,
and the leaves that lie below none. A word is spoken in one go, and not at all if it has no
letters; the other leaves are spoken one by one, even empty ones. Main statement: the leaves of the
tree without letters are what its spoken parts say, and the text as a whole is the same as before
(`leafTexts_withoutMorphology`).
-/

namespace LojbanTree.Tree

mutual

/-- The outermost morphology nodes and the leaves below none of them, from left to right. -/
def spokenParts : Tree → List Tree
  | .leaf text => [.leaf text]
  | .labeled label children =>
    if isMorphologyLabel label then [.labeled label children] else spokenPartsAll children
  | .group children => spokenPartsAll children

/-- The spoken parts of siblings. -/
def spokenPartsAll : List Tree → List Tree
  | [] => []
  | tree :: siblings => spokenParts tree ++ spokenPartsAll siblings

end

/-- A text as the only entry of a list, unless it is empty. -/
def unlessEmpty (text : Text) : List Text :=
  if text = "" then [] else [text]

/-- What is said for a spoken part: the text of a leaf, or the letters of a word together, if it
has any. -/
def spoken : Tree → List Text
  | .leaf text => [text]
  | part => unlessEmpty part.plainText

theorem spokenPartsAll_eq_flatMap (siblings : List Tree) :
    spokenPartsAll siblings = siblings.flatMap spokenParts := by
  induction siblings with
  | nil => rfl
  | cons tree siblings ih => simp [spokenPartsAll, ih]

@[simp] theorem spokenParts_leaf (text : Text) : (leaf text).spokenParts = [.leaf text] := by
  rw [spokenParts]

@[simp] theorem spokenParts_group (children : List Tree) :
    (group children).spokenParts = children.flatMap spokenParts := by
  rw [spokenParts, spokenPartsAll_eq_flatMap]

section

variable {label : Text} (children : List Tree)

theorem spokenParts_word (h : isMorphologyLabel label = true) :
    (labeled label children).spokenParts = [.labeled label children] := by
  rw [spokenParts, if_pos h]

theorem spokenParts_labeled (h : isMorphologyLabel label = false) :
    (labeled label children).spokenParts = children.flatMap spokenParts := by
  rw [spokenParts, if_neg (by simp [h]), spokenPartsAll_eq_flatMap]

end

/-! ### The parts make up the tree -/

theorem flatMap_leafTexts_spokenParts (tree : Tree) :
    tree.spokenParts.flatMap leafTexts = tree.leafTexts := by
  induction tree using morphologyInduction with
  | leaf text => simp
  | word label children h => rw [spokenParts_word children h, List.flatMap_singleton]
  | labeled label children h ih =>
    rw [spokenParts_labeled children h, leafTexts_labeled, List.flatMap_assoc]
    exact List.flatMap_congr ih
  | group children ih =>
    rw [spokenParts_group, leafTexts_group, List.flatMap_assoc]
    exact List.flatMap_congr ih

/-- The words among the parts are the outermost morphology nodes. -/
theorem filter_isMorphologyNode_spokenParts (tree : Tree) :
    tree.spokenParts.filter isMorphologyNode = tree.morphologyNodes := by
  induction tree using morphologyInduction with
  | leaf text => rfl
  | word label children h =>
    have hnode : (labeled label children).isMorphologyNode = true := h
    rw [spokenParts_word children h, morphologyNodes_word h, List.filter_cons_of_pos hnode,
      List.filter_nil]
  | labeled label children h ih =>
    rw [spokenParts_labeled children h, morphologyNodes_labeled h, List.filter_flatMap]
    exact List.flatMap_congr ih
  | group children ih =>
    rw [spokenParts_group, morphologyNodes_group, List.filter_flatMap]
    exact List.flatMap_congr ih

/-- The other parts are leaves. -/
theorem isLeaf_of_mem_spokenParts {tree part : Tree} (h : part ∈ tree.spokenParts)
    (hword : part.isMorphologyNode = false) : part.isLeaf = true := by
  induction tree using morphologyInduction with
  | leaf text =>
    obtain rfl := List.mem_singleton.mp (spokenParts_leaf text ▸ h)
    rfl
  | word label children hlabel =>
    rw [spokenParts_word children hlabel, List.mem_singleton] at h
    rw [h, isMorphologyNode, hlabel] at hword
    cases hword
  | labeled label children hlabel ih =>
    rw [spokenParts_labeled children hlabel] at h
    obtain ⟨child, hchild, hpart⟩ := List.mem_flatMap.mp h
    exact ih child hchild hpart
  | group children ih =>
    rw [spokenParts_group] at h
    obtain ⟨child, hchild, hpart⟩ := List.mem_flatMap.mp h
    exact ih child hchild hpart

/-! ### What the parts say -/

theorem join_unlessEmpty (text : Text) : Text.join (unlessEmpty text) = text := by
  unfold unlessEmpty
  split
  · rename_i hempty
    rw [hempty]
    rfl
  · exact Text.join_singleton text

/-- What a part says is its text as a whole. -/
theorem join_spoken (part : Tree) : Text.join part.spoken = part.plainText := by
  cases part with
  | leaf text => rw [spoken, plainText, leafTexts_leaf]
  | labeled label children => exact join_unlessEmpty _
  | group children => exact join_unlessEmpty _

theorem join_flatMap_spoken (parts : List Tree) :
    Text.join (parts.flatMap spoken) = Text.join (parts.flatMap leafTexts) := by
  induction parts with
  | nil => rfl
  | cons part parts ih =>
    rw [List.flatMap_cons, List.flatMap_cons, Text.join_append, Text.join_append, ih,
      join_spoken, plainText]

theorem leafTexts_word (label text : Text) : (word label text).leafTexts = unlessEmpty text := by
  rw [word, leafTexts_labeled, unlessEmpty]
  split
  · rfl
  · rw [List.flatMap_singleton, leafTexts_leaf]

/-- Without letters, a tree has the leaves that its parts say. -/
theorem leafTexts_withoutMorphology_eq (tree : Tree) :
    tree.withoutMorphology.leafTexts = tree.spokenParts.flatMap spoken := by
  induction tree using morphologyInduction with
  | leaf text =>
    rw [withoutMorphology_leaf, spokenParts_leaf, List.flatMap_singleton, leafTexts_leaf, spoken]
  | word label children h =>
    rw [withoutMorphology_word h, spokenParts_word children h, List.flatMap_singleton,
      leafTexts_word, ← leafTexts_labeled label]
    rfl
  | labeled label children h ih =>
    rw [withoutMorphology_labeled h, spokenParts_labeled children h, leafTexts_labeled,
      List.flatMap_map, List.flatMap_assoc]
    exact List.flatMap_congr ih
  | group children ih =>
    rw [withoutMorphology_group, spokenParts_group, leafTexts_group, List.flatMap_map,
      List.flatMap_assoc]
    exact List.flatMap_congr ih

/-- **Taking letters away keeps the spoken text.** The tree falls into its outermost morphology
nodes and the leaves below none, and without letters its leaves are what these say, in their order:
a word all its letters in one leaf, or nothing if it has none, and a leaf its own text, even an
empty one. So the text as a whole stays the same. -/
theorem leafTexts_withoutMorphology (tree : Tree) :
    tree.withoutMorphology.plainText = tree.plainText ∧
      tree.withoutMorphology.leafTexts = tree.spokenParts.flatMap spoken ∧
      tree.spokenParts.flatMap leafTexts = tree.leafTexts ∧
      tree.spokenParts.filter isMorphologyNode = tree.morphologyNodes ∧
      ∀ part ∈ tree.spokenParts, part.isMorphologyNode = false → part.isLeaf = true := by
  refine ⟨?_, leafTexts_withoutMorphology_eq tree, flatMap_leafTexts_spokenParts tree,
    filter_isMorphologyNode_spokenParts tree, fun part => isLeaf_of_mem_spokenParts⟩
  calc tree.withoutMorphology.plainText
      = Text.join (tree.spokenParts.flatMap spoken) :=
        congrArg Text.join (leafTexts_withoutMorphology_eq tree)
    _ = Text.join (tree.spokenParts.flatMap leafTexts) := join_flatMap_spoken _
    _ = tree.plainText := congrArg Text.join (flatMap_leafTexts_spokenParts tree)

end LojbanTree.Tree
