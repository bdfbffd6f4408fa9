import LojbanTree.Options
import LojbanTree.Tree.Morphology
import LojbanTree.Tree.Pruning
import LojbanTree.Tree.WordClass

/-!
The processed tree.

The options decide which labels are kept. The letters of words go first, then the tree is pruned,
then words are tagged with their class.
-/

namespace LojbanTree

/-- The labels of the branches that structure a sentence. -/
def bridiLabels : List Text := ["prenex", "sentence", "selbri", "sumti"]

/-- The labels of word classes. -/
def wordClassLabels : List Text := ["cmevla", "gismu", "lujvo", "fuhivla"]

namespace Options

/-- Is the label kept whatever happens to its children? -/
def alwaysKeeps (options : Options) (label : Text) : Bool :=
  (options.nodeLabels && bridiLabels.contains label) ||
    (options.tagsWords && wordClassLabels.contains label)

/-- Is the label kept? An empty selma'o is an elided terminator. With selma'o kept, an empty one
stays only if terminators do; otherwise terminators are the only ones to stay. -/
def keeps (options : Options) (label : Text) (childless : Bool) : Bool :=
  options.alwaysKeeps label ||
    (Selmaho.isName label &&
      if options.selmaho then options.terminators || !childless
      else childless && options.terminators)

end Options

namespace Tree

/-- The tree with words in place of their letters, unless the letters are to be kept. -/
def strip (options : Options) (tree : Tree) : Tree :=
  if options.morphology then tree else tree.withoutMorphology

/-- Where letters are kept there is nothing to strip. -/
theorem strip_eq_self {options : Options} (h : options.morphology = true) (tree : Tree) :
    strip options tree = tree :=
  if_pos h

theorem strip_eq_withoutMorphology {options : Options} (h : options.morphology = false)
    (tree : Tree) : strip options tree = tree.withoutMorphology := by
  rw [strip, h]
  rfl

@[simp] theorem strip_group (options : Options) (children : List Tree) :
    strip options (.group children) = .group (children.map (strip options)) := by
  cases h : options.morphology with
  | true => rw [strip_eq_self h, List.map_id'' (strip_eq_self h)]
  | false =>
    rw [strip_eq_withoutMorphology h, withoutMorphology_group,
      List.map_congr_left fun child _ => strip_eq_withoutMorphology h child]

/-- Where letters go, a morphology node becomes its word. -/
theorem strip_word {options : Options} (h : options.morphology = false) {label : Text}
    (hm : isMorphologyLabel label = true) (children : List Tree) :
    strip options (.labeled label children) =
      word label (Text.join (children.flatMap leafTexts)) := by
  rw [strip_eq_withoutMorphology h, withoutMorphology_word hm]

/-- All other branches are stripped child by child. -/
theorem strip_labeled {options : Options} {label : Text}
    (h : options.morphology = true ∨ isMorphologyLabel label = false) (children : List Tree) :
    strip options (.labeled label children) = .labeled label (children.map (strip options)) := by
  cases hkeep : options.morphology with
  | true => rw [strip_eq_self hkeep, List.map_id'' (strip_eq_self hkeep)]
  | false =>
    have hm : isMorphologyLabel label = false := h.resolve_left (by simp [hkeep])
    rw [strip_eq_withoutMorphology hkeep, withoutMorphology_labeled hm,
      List.map_congr_left fun child _ => strip_eq_withoutMorphology hkeep child]

/-- What pruning leaves of a stripped tree. -/
def surviving? (options : Options) (tree : Tree) : Option Tree :=
  prune options.keeps options.spaces tree

/-- A leaf that is the whole tree stands in a group. -/
def wrapLeaf : Tree → Tree
  | .leaf text => .group [.leaf text]
  | tree => tree

/-- Tags the words of a pruned tree, if the options ask for it. -/
def finish (options : Options) (tree : Tree) : Tree :=
  if options.tagsWords then wrapLeaf (tagWords wordClassCode? tree) else tree

/-- Prunes and tags a stripped tree. A tree of which nothing is left becomes the empty group. -/
def processStripped (options : Options) (tree : Tree) : Tree :=
  match surviving? options tree with
  | none => .group []
  | some pruned => finish options pruned

/-- The processed tree. -/
def process (options : Options) (tree : Tree) : Tree :=
  processStripped options (strip options tree)

end Tree

end LojbanTree
