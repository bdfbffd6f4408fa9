import LojbanTree.Proofs.Tree.Survivors
import Mathlib.Data.List.Basic

/-!
The branches of a pruned tree.

A labeled node is *live* when pruning comes to it: blanks are passed over with all that is below
them, or, where they are kept, the first child of each with all that is below it. Main statement:
the labeled branches of a pruned tree are, in their order, the live nodes of the tree that are left
with a child and whose label is wanted over one, and each holds the words that pruning leaves of its
node alone (`wordedBranches_prune`).
-/

namespace LojbanTree.Tree

mutual

/-- The live nodes, from the root down and from left to right. -/
def liveNodes (spaces : Bool) : Tree → List Tree
  | .leaf _ => []
  | .group children => liveNodesAll spaces children
  | .labeled label children =>
    if label = spacesLabel then
      if spaces then .labeled label children :: liveNodesAfterFirst spaces children else []
    else .labeled label children :: liveNodesAll spaces children

/-- The live nodes of siblings. -/
def liveNodesAll (spaces : Bool) : List Tree → List Tree
  | [] => []
  | tree :: siblings => liveNodes spaces tree ++ liveNodesAll spaces siblings

/-- The live nodes of all siblings but the first. -/
def liveNodesAfterFirst (spaces : Bool) : List Tree → List Tree
  | [] => []
  | _ :: siblings => liveNodesAll spaces siblings

end

section

variable {keep : Text → Bool → Bool} {spaces : Bool}

theorem liveNodesAll_eq_flatMap (siblings : List Tree) :
    liveNodesAll spaces siblings = siblings.flatMap (liveNodes spaces) := by
  induction siblings with
  | nil => rfl
  | cons tree siblings ih => simp [liveNodesAll, ih]

@[simp] theorem liveNodes_leaf (text : Text) : liveNodes spaces (.leaf text) = [] := by
  rw [liveNodes]

@[simp] theorem liveNodes_group (children : List Tree) :
    liveNodes spaces (.group children) = children.flatMap (liveNodes spaces) := by
  rw [liveNodes, liveNodesAll_eq_flatMap]

/-- Below a live node, the live nodes are those of the children that pruning sees. -/
theorem liveNodes_labeled_eq (label : Text) (children : List Tree) :
    liveNodes spaces (.labeled label children) =
      if label = spacesLabel ∧ spaces = false then []
      else .labeled label children ::
        (shownChildren label children).flatMap (liveNodes spaces) := by
  have tail : liveNodesAfterFirst spaces children =
      children.tail.flatMap (liveNodes spaces) := by
    cases children with
    | nil => rfl
    | cons first rest => rw [liveNodesAfterFirst, liveNodesAll_eq_flatMap, List.tail_cons]
  by_cases hl : label = spacesLabel
  · subst hl
    cases spaces <;> simp [liveNodes, tail, blankLeaf]
  · simp [liveNodes, hl, shownChildren_of_ne hl, liveNodesAll_eq_flatMap]

/-! ### Branches with their words -/

/-- The labels of the branches of a tree, from the root down and from left to right, each with the
words below it. -/
def wordedBranches (tree : Tree) : List (Text × List Text) :=
  tree.subtrees.filterMap fun node => node.label?.map fun label => (label, node.leafTexts)

/-- The label of a node, if pruning leaves it over a child. -/
def keptLabel? (keep : Text → Bool → Bool) (spaces : Bool) : Tree → Option Text
  | .labeled label children =>
    if (shownChildren label children).any (fun child => (prune keep spaces child).isSome) &&
        keep label false then some label
    else none
  | _ => none

/-- The words of what pruning leaves of a tree. -/
def survivingWords (keep : Text → Bool → Bool) (spaces : Bool) (tree : Tree) : List Text :=
  (prune keep spaces tree).elim [] leafTexts

/-- The labels that pruning leaves over a child, from the root down and from left to right, each
with the words that it leaves of the node alone. -/
def keptBranches (keep : Text → Bool → Bool) (spaces : Bool) (tree : Tree) :
    List (Text × List Text) :=
  (tree.liveNodes spaces).filterMap fun node =>
    (keptLabel? keep spaces node).map fun label => (label, survivingWords keep spaces node)

@[simp] theorem wordedBranches_leaf (text : Text) : (leaf text).wordedBranches = [] := by
  simp [wordedBranches, label?]

@[simp] theorem wordedBranches_labeled (label : Text) (children : List Tree) :
    (labeled label children).wordedBranches =
      (label, children.flatMap leafTexts) :: children.flatMap wordedBranches := by
  simp only [wordedBranches, subtrees_labeled, List.filterMap_cons, label?, Option.map_some,
    leafTexts_labeled, List.filterMap_flatMap]
  rfl

@[simp] theorem wordedBranches_group (children : List Tree) :
    (group children).wordedBranches = children.flatMap wordedBranches := by
  simp only [wordedBranches, subtrees_group, List.filterMap_cons, label?, Option.map_none,
    List.filterMap_flatMap]
  rfl

/-! ### The labels that are left -/

theorem any_isSome_prune_iff {siblings : List Tree} :
    (siblings.any fun child => (prune keep spaces child).isSome) = true ↔
      pruneAll keep spaces siblings ≠ [] := by
  rw [Ne, pruneAll_eq_nil_iff, List.any_eq_true]
  simp [Option.isSome_iff_ne_none]

theorem keptLabel?_of_wanted {label : Text} {children : List Tree}
    (hne : pruneAll keep spaces (shownChildren label children) ≠ [])
    (hkeep : keep label false = true) :
    keptLabel? keep spaces (.labeled label children) = some label := by
  rw [keptLabel?, any_isSome_prune_iff.mpr hne, hkeep]
  rfl

theorem keptLabel?_of_nil {label : Text} {children : List Tree}
    (hnil : pruneAll keep spaces (shownChildren label children) = []) :
    keptLabel? keep spaces (.labeled label children) = none := by
  have hnone : ¬((shownChildren label children).any
      fun child => (prune keep spaces child).isSome) = true :=
    fun hany => any_isSome_prune_iff.mp hany hnil
  rw [keptLabel?, Bool.eq_false_iff.mpr hnone]
  rfl

theorem keptLabel?_of_unwanted {label : Text} (hkeep : keep label false = false)
    (children : List Tree) : keptLabel? keep spaces (.labeled label children) = none := by
  rw [keptLabel?, hkeep, Bool.and_false]
  rfl

@[simp] theorem keptBranches_leaf (text : Text) : keptBranches keep spaces (.leaf text) = [] := by
  rw [keptBranches, liveNodes_leaf, List.filterMap_nil]

@[simp] theorem keptBranches_group (children : List Tree) :
    keptBranches keep spaces (.group children) =
      children.flatMap (keptBranches keep spaces) := by
  rw [keptBranches, liveNodes_group, List.filterMap_flatMap]
  rfl

/-! ### Both lists, branch by branch -/

section

variable {label : Text} {children : List Tree}
  (hlive : ¬(label = spacesLabel ∧ spaces = false))

include hlive

/-- A live node that keeps its label comes before what is left below it. -/
theorem keptBranches_of_some (h : keptLabel? keep spaces (.labeled label children) = some label) :
    keptBranches keep spaces (.labeled label children) =
      (label, survivingWords keep spaces (.labeled label children)) ::
        (shownChildren label children).flatMap (keptBranches keep spaces) := by
  rw [keptBranches, liveNodes_labeled_eq, if_neg hlive, List.filterMap_cons, h,
    List.filterMap_flatMap]
  rfl

theorem keptBranches_of_none (h : keptLabel? keep spaces (.labeled label children) = none) :
    keptBranches keep spaces (.labeled label children) =
      (shownChildren label children).flatMap (keptBranches keep spaces) := by
  rw [keptBranches, liveNodes_labeled_eq, if_neg hlive, List.filterMap_cons, h,
    List.filterMap_flatMap]
  rfl

end

/-- A branch that keeps no label has no other branches than its survivors. -/
theorem wordedBranches_collapse_none (survivors : List Tree) :
    (collapse none survivors).toList.flatMap wordedBranches =
      survivors.flatMap wordedBranches := by
  cases survivors with
  | nil => rfl
  | cons first rest =>
    cases rest with
    | nil => rfl
    | cons second rest =>
      have hseveral : 2 ≤ (first :: second :: rest).length := by simp
      rw [collapse_several hseveral, Option.toList_some, List.flatMap_singleton,
        wordedBranches_group]

/-- A branch without survivors is a leaf, if it is anything. -/
theorem wordedBranches_settle_nil (label : Text) :
    (settle keep label []).toList.flatMap wordedBranches = [] := by
  unfold settle
  split
  · exact wordedBranches_leaf label
  · rfl

/-- What pruning leaves of a tree has the branches that are kept. By induction over the children
that pruning sees: collapsing moves survivors up but never past one another, and a label goes in
front of them only where it stays. -/
theorem wordedBranches_prune_eq (keep : Text → Bool → Bool) (spaces : Bool) (tree : Tree) :
    (prune keep spaces tree).toList.flatMap wordedBranches = keptBranches keep spaces tree := by
  have below : ∀ siblings : List Tree,
      (∀ tree ∈ siblings, (prune keep spaces tree).toList.flatMap wordedBranches =
        keptBranches keep spaces tree) →
      (pruneAll keep spaces siblings).flatMap wordedBranches =
        siblings.flatMap (keptBranches keep spaces) := by
    intro siblings each
    rw [pruneAll_eq_flatMap, List.flatMap_assoc]
    exact List.flatMap_congr each
  induction tree using shownInduction with
  | leaf text => rw [prune_leaf, Option.toList_some, List.flatMap_singleton, wordedBranches_leaf,
      keptBranches_leaf]
  | group children ih =>
    rw [prune_group, wordedBranches_collapse_none, below children ih, keptBranches_group]
  | labeled label children ih =>
    have hbelow := below _ ih
    by_cases hlive : label = spacesLabel ∧ spaces = false
    · rw [prune_labeled_eq, if_pos hlive, keptBranches, liveNodes_labeled_eq, if_pos hlive]
      rfl
    have hprune : prune keep spaces (.labeled label children) =
        settle keep label (pruneAll keep spaces (shownChildren label children)) := by
      rw [prune_labeled_eq, if_neg hlive]
    by_cases hnil : pruneAll keep spaces (shownChildren label children) = []
    · rw [hnil] at hprune hbelow
      rw [hprune, wordedBranches_settle_nil, keptBranches_of_none hlive (keptLabel?_of_nil hnil),
        ← hbelow, List.flatMap_nil]
    rw [settle, List.isEmpty_eq_false_iff.mpr hnil] at hprune
    cases hkeep : keep label false with
    | false =>
      rw [hkeep, if_neg Bool.false_ne_true] at hprune
      rw [hprune, wordedBranches_collapse_none, hbelow,
        keptBranches_of_none hlive (keptLabel?_of_unwanted hkeep children)]
    | true =>
      rw [hkeep, if_pos rfl, collapse_branch label hnil] at hprune
      have hwords : survivingWords keep spaces (.labeled label children) =
          (pruneAll keep spaces (shownChildren label children)).flatMap leafTexts := by
        rw [survivingWords, hprune, Option.elim_some, leafTexts_labeled]
      rw [keptBranches_of_some hlive (keptLabel?_of_wanted hnil hkeep), hwords, hprune,
        Option.toList_some, List.flatMap_singleton, wordedBranches_labeled, hbelow]

/-- **The branches of a pruned tree are those of its live nodes that are left with a child and
whose label is wanted over one**, in their order, and each holds the words that are left of its
node alone. -/
theorem wordedBranches_prune {tree result : Tree} (h : prune keep spaces tree = some result) :
    result.wordedBranches = keptBranches keep spaces tree := by
  rw [← wordedBranches_prune_eq, h, Option.toList_some, List.flatMap_singleton]

/-- The words of a sumti move up out of a text and of a group around them, the blanks keep their
label over `_`, and a terminator becomes a leaf. -/
theorem wordedBranches_prune_sumti :
    prune (fun label childless => childless || label != "text") true
        (.labeled "text" [.group [.labeled "spaces" [.labeled "gismu" [.leaf "x"]]],
          .labeled "text" [.labeled "sumti" [.leaf "mi", .labeled "KU" []]], .group []]) =
      some (.group [.labeled "spaces" [.leaf "_"],
        .labeled "sumti" [.leaf "mi", .leaf "KU"]]) ∧
    (group [.labeled "spaces" [.leaf "_"],
        .labeled "sumti" [.leaf "mi", .leaf "KU"]]).wordedBranches =
      keptBranches (fun label childless => childless || label != "text") true
        (.labeled "text" [.group [.labeled "spaces" [.labeled "gismu" [.leaf "x"]]],
          .labeled "text" [.labeled "sumti" [.leaf "mi", .labeled "KU" []]], .group []]) ∧
    (group [.labeled "spaces" [.leaf "_"],
        .labeled "sumti" [.leaf "mi", .leaf "KU"]]).wordedBranches =
      ([("spaces", ["_"]), ("sumti", ["mi", "KU"])] : List (Text × List Text)) :=
  ⟨by decide, wordedBranches_prune (by decide), by decide⟩

end

end LojbanTree.Tree
