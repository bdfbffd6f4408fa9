import LojbanTree.Proofs.Tree.KeptBranches
import Mathlib.Data.List.Perm.Basic

/-!
The questions that pruning asks.

Pruning settles a live node after its children, so it comes to the live nodes from below: children
from left to right, then the branch that they are in. Main statement: the filter is asked once
about each, in this order, and told whether none of its children survives (`pruneTraced_eq`).
-/

namespace LojbanTree.Tree

mutual

/-- The labels of the live nodes with their children, in postorder: what is below a node from left
to right, then the node. -/
def settledBranches (spaces : Bool) : Tree → List (Text × List Tree)
  | .leaf _ => []
  | .group children => settledBranchesAll spaces children
  | .labeled label children =>
    if label = spacesLabel then
      if spaces then settledBranchesAfterFirst spaces children ++ [(label, children)] else []
    else settledBranchesAll spaces children ++ [(label, children)]

/-- The labels of the live nodes of siblings with their children. -/
def settledBranchesAll (spaces : Bool) : List Tree → List (Text × List Tree)
  | [] => []
  | tree :: siblings => settledBranches spaces tree ++ settledBranchesAll spaces siblings

/-- The labels of the live nodes of all siblings but the first with their children. -/
def settledBranchesAfterFirst (spaces : Bool) : List Tree → List (Text × List Tree)
  | [] => []
  | _ :: siblings => settledBranchesAll spaces siblings

end

/-- The question about a live node: its label, and whether none of the children that pruning sees
survives. -/
def question (keep : Text → Bool → Bool) (spaces : Bool) (branch : Text × List Tree) : Query :=
  (branch.1,
    (shownChildren branch.1 branch.2).all fun child => (prune keep spaces child).isNone)

section

variable {spaces : Bool}

theorem settledBranchesAll_eq_flatMap (siblings : List Tree) :
    settledBranchesAll spaces siblings = siblings.flatMap (settledBranches spaces) := by
  induction siblings with
  | nil => rfl
  | cons tree siblings ih => simp [settledBranchesAll, ih]

@[simp] theorem settledBranches_leaf (text : Text) :
    settledBranches spaces (.leaf text) = [] := by
  rw [settledBranches]

@[simp] theorem settledBranches_group (children : List Tree) :
    settledBranches spaces (.group children) = children.flatMap (settledBranches spaces) := by
  rw [settledBranches, settledBranchesAll_eq_flatMap]

/-- A live node comes after those below the children that pruning sees. -/
theorem settledBranches_labeled_eq (label : Text) (children : List Tree) :
    settledBranches spaces (.labeled label children) =
      if label = spacesLabel ∧ spaces = false then []
      else (shownChildren label children).flatMap (settledBranches spaces) ++
        [(label, children)] := by
  have tail : settledBranchesAfterFirst spaces children =
      children.tail.flatMap (settledBranches spaces) := by
    cases children with
    | nil => rfl
    | cons first rest =>
      rw [settledBranchesAfterFirst, settledBranchesAll_eq_flatMap, List.tail_cons]
  by_cases hl : label = spacesLabel
  · subst hl
    cases spaces <;> simp [settledBranches, tail, blankLeaf]
  · simp [settledBranches, hl, shownChildren_of_ne hl, settledBranchesAll_eq_flatMap]

/-- They are the live nodes in another order. -/
theorem settledBranches_perm_liveNodes (tree : Tree) :
    ((settledBranches spaces tree).map (Function.uncurry labeled)).Perm
      (liveNodes spaces tree) := by
  have all : ∀ children : List Tree,
      (∀ child ∈ children, ((settledBranches spaces child).map (Function.uncurry labeled)).Perm
        (liveNodes spaces child)) →
      ((children.flatMap (settledBranches spaces)).map (Function.uncurry labeled)).Perm
        (children.flatMap (liveNodes spaces)) := by
    intro children each
    rw [List.map_flatMap]
    exact List.Perm.flatMap_left children each
  induction tree using shownInduction with
  | leaf text =>
    rw [settledBranches_leaf, liveNodes_leaf, List.map_nil]
  | group children ih =>
    rw [settledBranches_group, liveNodes_group]
    exact all children ih
  | labeled label children ih =>
    rw [settledBranches_labeled_eq, liveNodes_labeled_eq]
    split
    · exact .nil
    · rw [List.map_append, List.map_singleton]
      exact (List.perm_append_singleton _ _).trans ((all _ ih).cons _)

end

/-! ### Pruning with a filter that notes the questions -/

section

variable {m : Type → Type} [Monad m] [LawfulMonad m] {spaces : Bool}

/-- With effects, too, all labels are treated alike once the first child of blanks is `_`. -/
theorem pruneM_labeled_eq (keep : LabelFilter m) (label : Text) (children : List Tree) :
    pruneM keep spaces (.labeled label children) =
      if label = spacesLabel ∧ spaces = false then pure none
      else pruneAllM keep spaces (shownChildren label children) >>= settleM keep label := by
  have tail : pruneAfterFirstM keep spaces children = pruneAllM keep spaces children.tail := by
    cases children <;> rfl
  by_cases hl : label = spacesLabel
  · subst hl
    cases spaces with
    | false => simp [pruneM]
    | true =>
      have blank : pruneM keep true blankLeaf = pure (some blankLeaf) := by rw [blankLeaf, pruneM]
      simp [pruneM, tail, pruneAllM, blank]
  · simp [pruneM, hl, shownChildren_of_ne hl]

end

section

variable {keep : Text → Bool → Bool} {spaces : Bool}

theorem question_labeled (label : Text) (children : List Tree) :
    question keep spaces (label, children) =
      (label, (pruneAll keep spaces (shownChildren label children)).isEmpty) := by
  rw [question, Prod.mk.injEq, Bool.eq_iff_iff, List.isEmpty_iff, pruneAll_eq_nil_iff,
    List.all_eq_true]
  simp

/-- A branch is settled by one question. -/
theorem run_settleM (label : Text) (survivors : List Tree) (asked : List Query) :
    (settleM (noting keep) label survivors).run asked =
      (settle keep label survivors, asked ++ [(label, survivors.isEmpty)]) :=
  rfl

/-- Siblings are asked about one after the other, if each is asked about from below whatever has
been asked before. -/
theorem run_pruneAllM {siblings : List Tree}
    (h : ∀ tree ∈ siblings, ∀ asked, (pruneM (noting keep) spaces tree).run asked =
      (prune keep spaces tree,
        asked ++ (settledBranches spaces tree).map (question keep spaces)))
    (asked : List Query) :
    (pruneAllM (noting keep) spaces siblings).run asked =
      (pruneAll keep spaces siblings,
        asked ++ (siblings.flatMap (settledBranches spaces)).map (question keep spaces)) := by
  induction siblings generalizing asked with
  | nil =>
    rw [pruneAllM, List.flatMap_nil, List.map_nil, List.append_nil]
    rfl
  | cons tree siblings ih =>
    obtain ⟨htree, hsiblings⟩ := List.forall_mem_cons.mp h
    have rest := ih hsiblings (asked ++ (settledBranches spaces tree).map (question keep spaces))
    rw [pruneAllM, StateT.run_bind, htree, pruneAll_cons, List.flatMap_cons, List.map_append,
      ← List.append_assoc]
    exact congrArg (fun found => ((prune keep spaces tree).toList ++ found.1, found.2)) rest

/-- The filter is asked about the live nodes from below, and pruning leaves what it leaves without
notes. By induction over the children that pruning sees, with any questions asked before: what a
branch is asked depends on the answers below it, so both are shown at once. -/
theorem run_pruneM (keep : Text → Bool → Bool) (spaces : Bool) (tree : Tree)
    (asked : List Query) :
    (pruneM (noting keep) spaces tree).run asked =
      (prune keep spaces tree,
        asked ++ (settledBranches spaces tree).map (question keep spaces)) := by
  induction tree using shownInduction generalizing asked with
  | leaf text =>
    rw [settledBranches_leaf, List.map_nil, List.append_nil, pruneM]
    rfl
  | group children ih =>
    rw [pruneM, StateT.run_bind, run_pruneAllM ih, settledBranches_group, prune_group]
    rfl
  | labeled label children ih =>
    rw [pruneM_labeled_eq, settledBranches_labeled_eq, prune_labeled_eq]
    split
    · rw [List.map_nil, List.append_nil]
      rfl
    · rw [StateT.run_bind, run_pruneAllM ih, List.map_append, List.map_singleton, question_labeled,
        ← List.append_assoc]
      exact run_settleM label (pruneAll keep spaces (shownChildren label children)) _

/-- Blanks are live only where they are kept. -/
theorem spaces_of_mem_settledBranches {tree : Tree} {children : List Tree}
    (h : (spacesLabel, children) ∈ settledBranches spaces tree) : spaces = true := by
  induction tree using shownInduction with
  | leaf text => simp at h
  | group siblings ih =>
    rw [settledBranches_group] at h
    obtain ⟨child, hchild, hbelow⟩ := List.mem_flatMap.mp h
    exact ih child hchild hbelow
  | labeled label below ih =>
    rw [settledBranches_labeled_eq] at h
    split at h
    · cases h
    rename_i hlive
    rcases List.mem_append.mp h with hbelow | hroot
    · obtain ⟨child, hchild, hbelow⟩ := List.mem_flatMap.mp hbelow
      exact ih child hchild hbelow
    · obtain ⟨rfl, _⟩ := Prod.mk.inj (List.mem_singleton.mp hroot)
      simpa using hlive

/-- Blanks are never left without children, as `_` survives. -/
theorem question_spaces (children : List Tree) :
    question keep spaces (spacesLabel, children) = (spacesLabel, false) := by
  rw [question, shownChildren_spaces, List.all_cons, blankLeaf, prune_leaf]
  rfl

/-- **The filter is asked once about each live node**, after those below it and those to its left,
and it is told whether none of the children that pruning sees survives. So it is asked about blanks
only where they are kept, and then never told that they are childless. -/
theorem pruneTraced_eq (keep : Text → Bool → Bool) (spaces : Bool) (tree : Tree) :
    pruneTraced keep spaces tree =
        (prune keep spaces tree, (settledBranches spaces tree).map (question keep spaces)) ∧
      ((settledBranches spaces tree).map (Function.uncurry labeled)).Perm (liveNodes spaces tree) ∧
      ∀ childless, (spacesLabel, childless) ∈ (pruneTraced keep spaces tree).2 →
        spaces = true ∧ childless = false := by
  have trace : pruneTraced keep spaces tree =
      (prune keep spaces tree, (settledBranches spaces tree).map (question keep spaces)) :=
    run_pruneM keep spaces tree []
  refine ⟨trace, settledBranches_perm_liveNodes tree, ?_⟩
  intro childless hasked
  rw [trace] at hasked
  obtain ⟨⟨label, children⟩, hbranch, hquestion⟩ := List.mem_map.mp hasked
  obtain rfl : label = spacesLabel := congrArg Prod.fst hquestion
  rw [question_spaces] at hquestion
  obtain ⟨_, rfl⟩ := Prod.mk.inj hquestion
  exact ⟨spaces_of_mem_settledBranches hbranch, rfl⟩

/-- The first child of the blanks is not asked about, the terminator after it is, and then the
blanks, which are left with a child. -/
theorem pruneTraced_eq_blanks :
    (pruneTraced (fun label _ => label == "sumti") true
        (.labeled "sumti" [.labeled "spaces" [.labeled "gismu" [.leaf "x"], .labeled "KU" []],
          .labeled "KEhO" [.group []]])).2 =
      ([("KU", true), ("spaces", false), ("KEhO", true), ("sumti", false)] : List Query) := by
  obtain ⟨trace, _, _⟩ := pruneTraced_eq (fun label _ => label == "sumti") true
    (.labeled "sumti" [.labeled "spaces" [.labeled "gismu" [.leaf "x"], .labeled "KU" []],
      .labeled "KEhO" [.group []]])
  rw [trace]
  rfl

end

end LojbanTree.Tree
