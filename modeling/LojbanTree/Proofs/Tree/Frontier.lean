import LojbanTree.Proofs.Tree.Survivors
import Mathlib.Data.List.Basic

/-!
The words of a pruned tree.

`frontier` reads off a tree the words that pruning shows, from left to right, without building the
pruned tree: the texts of the leaves, `_` for the first child of blanks, and the label of a wanted
branch that has nothing below it. Main statement: pruning leaves nothing exactly when the frontier
is empty, and otherwise the leaves of what it leaves are the frontier (`leafTexts_prune`), so no
word is lost, doubled or moved.
-/

namespace LojbanTree.Tree

/-- The words of a branch: those below it, or else its label, if the filter wants it bare. -/
def orLabel (keep : Text → Bool → Bool) (label : Text) (below : List Text) : List Text :=
  if below = [] then (if keep label true then [label] else []) else below

mutual

/-- The words that pruning shows of a tree. -/
def frontier (keep : Text → Bool → Bool) (spaces : Bool) : Tree → List Text
  | .leaf text => [text]
  | .group children => frontierAll keep spaces children
  | .labeled label children =>
    if label = spacesLabel then
      if spaces then orLabel keep label ("_" :: frontierAfterFirst keep spaces children) else []
    else orLabel keep label (frontierAll keep spaces children)

/-- The words that pruning shows of siblings. -/
def frontierAll (keep : Text → Bool → Bool) (spaces : Bool) : List Tree → List Text
  | [] => []
  | tree :: siblings => frontier keep spaces tree ++ frontierAll keep spaces siblings

/-- The words that pruning shows of all siblings but the first. -/
def frontierAfterFirst (keep : Text → Bool → Bool) (spaces : Bool) : List Tree → List Text
  | [] => []
  | _ :: siblings => frontierAll keep spaces siblings

end

section

variable {keep : Text → Bool → Bool} {spaces : Bool}

theorem frontierAll_eq_flatMap (siblings : List Tree) :
    frontierAll keep spaces siblings = siblings.flatMap (frontier keep spaces) := by
  induction siblings with
  | nil => rfl
  | cons tree siblings ih => simp [frontierAll, ih]

@[simp] theorem frontier_leaf (text : Text) : frontier keep spaces (.leaf text) = [text] := by
  rw [frontier]

@[simp] theorem frontier_group (children : List Tree) :
    frontier keep spaces (.group children) = children.flatMap (frontier keep spaces) := by
  rw [frontier, frontierAll_eq_flatMap]

/-- Like pruning, the frontier treats all labels alike once the first child of blanks is `_`. -/
theorem frontier_labeled_eq (label : Text) (children : List Tree) :
    frontier keep spaces (.labeled label children) =
      if label = spacesLabel ∧ spaces = false then []
      else orLabel keep label
        ((shownChildren label children).flatMap (frontier keep spaces)) := by
  have tail : frontierAfterFirst keep spaces children =
      children.tail.flatMap (frontier keep spaces) := by
    cases children with
    | nil => rfl
    | cons first rest => rw [frontierAfterFirst, frontierAll_eq_flatMap, List.tail_cons]
  by_cases hl : label = spacesLabel
  · subst hl
    cases spaces <;> simp [frontier, tail, blankLeaf]
  · simp [frontier, hl, shownChildren_of_ne hl, frontierAll_eq_flatMap]

end

/-- The frontier asks only which labels are wanted bare, and not even that where a leaf stands
among the children that pruning sees. -/
theorem frontier_congr {keep other : Text → Bool → Bool} {spaces : Bool} {tree : Tree}
    (h : ∀ label children, .labeled label children ∈ tree.subtrees →
      keep label true = other label true ∨ ∃ text, .leaf text ∈ shownChildren label children) :
    frontier keep spaces tree = frontier other spaces tree := by
  induction tree with
  | leaf text => rw [frontier_leaf, frontier_leaf]
  | group children ih =>
    rw [frontier_group, frontier_group]
    refine List.flatMap_congr fun child hc => ih child hc fun label below hm => ?_
    exact h label below (mem_subtrees_group hc hm)
  | labeled label children ih =>
    have below : (shownChildren label children).flatMap (frontier keep spaces) =
        (shownChildren label children).flatMap (frontier other spaces) := by
      refine List.flatMap_congr fun child hc => ?_
      rcases mem_of_mem_shownChildren hc with rfl | hc
      · rw [blankLeaf, frontier_leaf, frontier_leaf]
      · exact ih child hc fun label below hm => h label below (mem_subtrees_labeled hc hm)
    rw [frontier_labeled_eq, frontier_labeled_eq, below, orLabel, orLabel]
    rcases h label children (by simp) with hbare | ⟨text, hleaf⟩
    · rw [hbare]
    · have hwords : (shownChildren label children).flatMap (frontier other spaces) ≠ [] := by
        refine List.ne_nil_of_mem (a := text) (List.mem_flatMap.mpr ⟨_, hleaf, ?_⟩)
        rw [frontier_leaf]
        exact List.mem_singleton_self text
      rw [if_neg hwords, if_neg hwords]

/-! ### What is left of a tree and the words that it shows -/

/-- The outcome of pruning shows the words: nothing shows no words, and a tree shows those of its
leaves, of which it has some. -/
inductive Shows : Option Tree → List Text → Prop where
  | nothing : Shows none []
  | words {tree : Tree} : tree.leafTexts ≠ [] → Shows (some tree) tree.leafTexts

namespace Shows

variable {outcome : Option Tree} {words : List Text}

theorem eq_none_iff (h : Shows outcome words) : outcome = none ↔ words = [] := by
  cases h with
  | nothing => simp
  | words hne => simp [hne]

theorem leafTexts_eq {tree : Tree} (h : Shows (some tree) words) : tree.leafTexts = words := by
  cases h
  rfl

theorem leafTexts_ne_nil {tree : Tree} (h : Shows (some tree) words) : tree.leafTexts ≠ [] := by
  cases h with
  | words hne => exact hne

theorem toList_flatMap (h : Shows outcome words) : outcome.toList.flatMap leafTexts = words := by
  cases h <;> simp

end Shows

theorem leaf_shows (text : Text) : Shows (some (.leaf text)) [text] := by
  rw [← leafTexts_leaf]
  exact .words (by simp)

/-- Where each survivor shows a word, the words of the survivors are none exactly when there is no
survivor. -/
theorem flatMap_leafTexts_eq_nil_iff {survivors : List Tree}
    (h : ∀ survivor ∈ survivors, survivor.leafTexts ≠ []) :
    survivors.flatMap leafTexts = [] ↔ survivors = [] := by
  constructor
  · intro hnil
    apply List.eq_nil_iff_forall_not_mem.mpr
    intro survivor hs
    exact h survivor hs (List.flatMap_eq_nil_iff.mp hnil survivor hs)
  · rintro rfl
    rfl

/-- A branch without survivors shows the label that it keeps. -/
theorem collapse_nil_shows (kept : Option Text) : Shows (collapse kept []) kept.toList := by
  cases kept with
  | none => exact .nothing
  | some label => exact leaf_shows label

/-- A branch with survivors shows their words, whether it keeps its label or not. -/
theorem collapse_shows (kept : Option Text) {survivors : List Tree} (hne : survivors ≠ [])
    (h : ∀ survivor ∈ survivors, survivor.leafTexts ≠ []) :
    Shows (collapse kept survivors) (survivors.flatMap leafTexts) := by
  have hwords : survivors.flatMap leafTexts ≠ [] :=
    fun hw => hne ((flatMap_leafTexts_eq_nil_iff h).mp hw)
  cases hc : collapse kept survivors with
  | none => exact absurd (collapse_eq_none_iff.mp hc).2 hne
  | some result =>
    have same : result.leafTexts = survivors.flatMap leafTexts := by
      cases collapsed_of_collapse hc with
      | bare => exact absurd rfl hne
      | sole => simp
      | several => simp
      | branch => simp
    exact same ▸ Shows.words (same ▸ hwords)

section

variable {keep : Text → Bool → Bool} {spaces : Bool}

/-- Siblings that each show their frontier show it together, and each survivor shows a word. -/
theorem pruneAll_shows {siblings : List Tree}
    (h : ∀ tree ∈ siblings, Shows (prune keep spaces tree) (frontier keep spaces tree)) :
    (pruneAll keep spaces siblings).flatMap leafTexts =
        siblings.flatMap (frontier keep spaces) ∧
      ∀ survivor ∈ pruneAll keep spaces siblings, survivor.leafTexts ≠ [] := by
  constructor
  · rw [pruneAll_eq_flatMap, List.flatMap_assoc]
    exact List.flatMap_congr fun tree ht => (h tree ht).toList_flatMap
  · intro survivor hs
    obtain ⟨tree, ht, hp⟩ := mem_pruneAll.mp hs
    have shown := h tree ht
    rw [hp] at shown
    exact shown.leafTexts_ne_nil

/-- What pruning leaves of a tree shows the frontier. By induction over the children that pruning
sees: the filter is asked whether children are left and the frontier whether words are, which is
the same since each survivor shows a word. -/
theorem prune_shows (keep : Text → Bool → Bool) (spaces : Bool) (tree : Tree) :
    Shows (prune keep spaces tree) (frontier keep spaces tree) := by
  induction tree using shownInduction with
  | leaf text =>
    rw [prune_leaf, frontier_leaf]
    exact leaf_shows text
  | group children ih =>
    obtain ⟨words, each⟩ := pruneAll_shows ih
    rw [prune_group, frontier_group, ← words]
    by_cases hnil : pruneAll keep spaces children = []
    · rw [hnil]
      exact collapse_nil_shows none
    · exact collapse_shows none hnil each
  | labeled label children ih =>
    obtain ⟨words, each⟩ := pruneAll_shows ih
    rw [prune_labeled_eq, frontier_labeled_eq, ← words]
    split
    · exact .nothing
    by_cases hnil : pruneAll keep spaces (shownChildren label children) = []
    · rw [hnil]
      have shown := collapse_nil_shows (if keep label true then some label else none)
      rw [apply_ite Option.toList] at shown
      exact shown
    · have hwords := mt (flatMap_leafTexts_eq_nil_iff each).mp hnil
      rw [orLabel, if_neg hwords]
      exact collapse_shows _ hnil each

/-- **Pruning keeps the words.** Nothing is left of a tree exactly when its frontier is empty;
otherwise the leaves of what is left are the frontier, in its order. -/
theorem leafTexts_prune (keep : Text → Bool → Bool) (spaces : Bool) (tree : Tree) :
    (prune keep spaces tree = none ↔ frontier keep spaces tree = []) ∧
      ∀ result, prune keep spaces tree = some result →
        result.leafTexts = frontier keep spaces tree := by
  have shown := prune_shows keep spaces tree
  refine ⟨shown.eq_none_iff, fun result hr => ?_⟩
  rw [hr] at shown
  exact shown.leafTexts_eq

/-- Blanks, a word and an elided terminator, under a filter that keeps bare labels only. -/
theorem leafTexts_prune_terminator :
    prune (fun _ childless => childless) true
        (.group [.labeled "spaces" [], .labeled "sumti" [.leaf "mlatu", .labeled "KU" []]]) =
      some (.group [.leaf "_", .group [.leaf "mlatu", .leaf "KU"]]) ∧
    (group [.leaf "_", .group [.leaf "mlatu", .leaf "KU"]]).leafTexts =
      frontier (fun _ childless => childless) true
        (.group [.labeled "spaces" [], .labeled "sumti" [.leaf "mlatu", .labeled "KU" []]]) :=
  ⟨by decide, (leafTexts_prune _ true _).2 _ (by decide)⟩

end

end LojbanTree.Tree
