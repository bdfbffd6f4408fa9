import LojbanTree.Selmaho
import LojbanTree.Tree.Basic

/-!
Words in place of their letters.

Names, root words, compounds, borrowings, blanks and two clause openers, and every selma'o, come
with a letter by letter analysis below them. `withoutMorphology` puts the plain text of the word in
its place. Branches with these labels are the *morphology nodes*; what lies below one is not looked
at otherwise.
-/

namespace LojbanTree

/-- The labels, besides the selma'o, of branches that hold the letters of a word. -/
def morphologyLabels : List Text :=
  ["cmevla", "gismu", "lujvo", "fuhivla", "spaces", "ga_clause", "gu_clause"]

/-- Does a branch with this label hold the letters of a word? -/
def isMorphologyLabel (label : Text) : Bool :=
  morphologyLabels.contains label || Selmaho.isName label

namespace Tree

/-- Is the tree a branch that holds the letters of a word? -/
def isMorphologyNode : Tree → Bool
  | .labeled label _ => isMorphologyLabel label
  | _ => false

/-- A branch over the plain text of a word; an empty text leaves it without children. -/
def word (label text : Text) : Tree :=
  .labeled label (if text = "" then [] else [.leaf text])

mutual

/-- The tree with the text of each word in place of its letters. -/
def withoutMorphology : Tree → Tree
  | .leaf text => .leaf text
  | .labeled label children =>
    if isMorphologyLabel label then word label (Text.join (leafTextsAll children))
    else .labeled label (withoutMorphologyAll children)
  | .group children => .group (withoutMorphologyAll children)

/-- Siblings with the text of each word in place of its letters. -/
def withoutMorphologyAll : List Tree → List Tree
  | [] => []
  | tree :: siblings => withoutMorphology tree :: withoutMorphologyAll siblings

end

theorem withoutMorphologyAll_eq_map (siblings : List Tree) :
    withoutMorphologyAll siblings = siblings.map withoutMorphology := by
  induction siblings with
  | nil => rfl
  | cons tree siblings ih => simp [withoutMorphologyAll, ih]

/-- Induction over trees that tells morphology nodes from other labeled branches. -/
@[elab_as_elim]
theorem morphologyInduction {motive : Tree → Prop}
    (leaf : ∀ text, motive (.leaf text))
    (word : ∀ label children, isMorphologyLabel label = true → motive (.labeled label children))
    (labeled : ∀ label children, isMorphologyLabel label = false →
      (∀ child ∈ children, motive child) → motive (.labeled label children))
    (group : ∀ children, (∀ child ∈ children, motive child) → motive (.group children))
    (tree : Tree) : motive tree := by
  induction tree with
  | leaf text => exact leaf text
  | labeled label children ih =>
    cases h : isMorphologyLabel label with
    | true => exact word label children h
    | false => exact labeled label children h ih
  | group children ih => exact group children ih

@[simp] theorem withoutMorphology_leaf (text : Text) :
    (leaf text).withoutMorphology = .leaf text := by
  rw [withoutMorphology]

@[simp] theorem withoutMorphology_group (children : List Tree) :
    (group children).withoutMorphology = .group (children.map withoutMorphology) := by
  rw [withoutMorphology, withoutMorphologyAll_eq_map]

/-- A morphology node becomes its word. -/
theorem withoutMorphology_word {label : Text} (h : isMorphologyLabel label = true)
    (children : List Tree) :
    (labeled label children).withoutMorphology =
      word label (Text.join (children.flatMap leafTexts)) := by
  rw [withoutMorphology, if_pos h, leafTextsAll_eq_flatMap]

/-- Any other labeled branch keeps its label. -/
theorem withoutMorphology_labeled {label : Text} (h : isMorphologyLabel label = false)
    (children : List Tree) :
    (labeled label children).withoutMorphology =
      .labeled label (children.map withoutMorphology) := by
  rw [withoutMorphology, if_neg (by simp [h]), withoutMorphologyAll_eq_map]

end Tree

end LojbanTree
