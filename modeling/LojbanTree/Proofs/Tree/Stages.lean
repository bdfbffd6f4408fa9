import LojbanTree.Proofs.Tree.Frontier

/-!
Pruning in stages.

A filter *refines* another if the two agree about bare labels and it keeps no more labels over
children than the other does. What the other one has taken away is nothing that the refinement
looks at: it finds the same children left below each branch, and is asked the same about those
that have lost all of them. Main statement: pruning with a filter and then with a refinement is
pruning with the refinement (`prune_stages`).
-/

namespace LojbanTree.Tree

/-- A filter that keeps the same bare labels as another and over children none but those that the
other keeps. -/
structure Refines (fine coarse : Text → Bool → Bool) : Prop where
  bare : ∀ label, coarse label true = fine label true
  branch : ∀ label, fine label false = true → coarse label false = true

section

variable {keep fine coarse : Text → Bool → Bool} {spaces : Bool}

/-! ### What is left at all -/

/-- Whether anything is left of a tree depends on the bare labels alone. -/
theorem Refines.prune_eq_none_iff (h : Refines fine coarse) (tree : Tree) :
    prune coarse spaces tree = none ↔ prune fine spaces tree = none := by
  have same : frontier coarse spaces tree = frontier fine spaces tree :=
    frontier_congr fun label _ _ => Or.inl (h.bare label)
  rw [(prune_shows coarse spaces tree).eq_none_iff, (prune_shows fine spaces tree).eq_none_iff,
    same]

theorem Refines.pruneAll_eq_nil_iff (h : Refines fine coarse) (siblings : List Tree) :
    pruneAll coarse spaces siblings = [] ↔ pruneAll fine spaces siblings = [] := by
  rw [Tree.pruneAll_eq_nil_iff, Tree.pruneAll_eq_nil_iff]
  exact forall₂_congr fun tree _ => h.prune_eq_none_iff tree

/-! ### The second stage over one branch -/

/-- Where blanks are kept, what is left below them begins with `_` already. -/
theorem shownChildren_pruneAll (label : Text) (children : List Tree) :
    shownChildren label (pruneAll keep spaces (shownChildren label children)) =
      pruneAll keep spaces (shownChildren label children) := by
  by_cases hl : label = spacesLabel
  · rw [hl]
    simp [blankLeaf]
  · rw [shownChildren_of_ne hl]

/-- A branch that has lost its label is pruned like a group, whatever it has become. -/
theorem bind_prune_collapse (survivors : List Tree) :
    (collapse none survivors).bind (prune keep spaces) = prune keep spaces (.group survivors) := by
  match survivors with
  | [] => rfl
  | [survivor] => exact (prune_group_singleton survivor).symm
  | _ :: _ :: _ => rfl

/-- A branch without children is settled once and for all. -/
theorem bind_prune_settle_nil (label : Text) :
    (settle keep label []).bind (prune keep spaces) = settle keep label [] := by
  unfold settle
  cases keep label [].isEmpty with
  | true => rfl
  | false => rfl

/-- A branch that has children left in both stages is settled by the refinement in the end. Where
the first stage takes the label away, the refinement would not have kept it. -/
theorem Refines.bind_prune_settle (h : Refines fine coarse) {label : Text}
    (hkept : ¬(label = spacesLabel ∧ spaces = false)) {survivors : List Tree}
    (hne : survivors ≠ []) (hleft : pruneAll fine spaces survivors ≠ [])
    (hshown : shownChildren label survivors = survivors) :
    (settle coarse label survivors).bind (prune fine spaces) =
      settle fine label (pruneAll fine spaces survivors) := by
  rw [settle, List.isEmpty_eq_false_iff.mpr hne]
  cases hcoarse : coarse label false with
  | true =>
    rw [if_pos rfl, collapse_branch label hne, Option.bind_some, prune_labeled_eq, if_neg hkept,
      hshown]
  | false =>
    have hfine : fine label false = false := by
      by_contra hkeep
      have := h.branch label (by simpa using hkeep)
      rw [hcoarse] at this
      cases this
    rw [if_neg Bool.false_ne_true, bind_prune_collapse, prune_group, settle,
      List.isEmpty_eq_false_iff.mpr hleft, hfine, if_neg Bool.false_ne_true]

/-! ### Both stages -/

/-- What the second stage finds of siblings is what it would have found without the first. -/
theorem pruneAll_pruneAll {siblings : List Tree}
    (h : ∀ tree ∈ siblings,
      (prune coarse spaces tree).bind (prune fine spaces) = prune fine spaces tree) :
    pruneAll fine spaces (pruneAll coarse spaces siblings) = pruneAll fine spaces siblings := by
  rw [pruneAll_eq_flatMap coarse, pruneAll_eq_flatMap fine, pruneAll_eq_flatMap fine,
    List.flatMap_assoc]
  refine List.flatMap_congr fun tree ht => ?_
  rw [← h tree ht]
  cases prune coarse spaces tree <;> simp

/-- The two stages after one another leave what the second leaves. By induction over the children
that pruning sees: the first stage leaves some exactly where the second does, so the second asks
about each label what it would have asked without the first. -/
theorem Refines.bind_prune (h : Refines fine coarse) (tree : Tree) :
    (prune coarse spaces tree).bind (prune fine spaces) = prune fine spaces tree := by
  induction tree using shownInduction with
  | leaf text => rfl
  | group children ih =>
    rw [prune_group, bind_prune_collapse, prune_group, pruneAll_pruneAll ih, prune_group]
  | labeled label children ih =>
    have again := pruneAll_pruneAll ih
    have none_iff : pruneAll coarse spaces (shownChildren label children) = [] ↔
        pruneAll fine spaces (shownChildren label children) = [] := h.pruneAll_eq_nil_iff _
    rw [prune_labeled_eq, prune_labeled_eq]
    split
    · rfl
    rename_i hkept
    by_cases hnil : pruneAll coarse spaces (shownChildren label children) = []
    · have hbare : settle coarse label [] = settle fine label [] := by
        rw [settle, settle, List.isEmpty_nil, h.bare]
      rw [hnil, none_iff.mp hnil, hbare, bind_prune_settle_nil]
    · have hleft := mt none_iff.mpr hnil
      rw [← again] at hleft ⊢
      exact h.bind_prune_settle hkept hnil hleft (shownChildren_pruneAll label children)

/-- **Pruning in stages is pruning at once.** A filter leaves nothing of a tree exactly when its
refinement leaves nothing, and of what it leaves the refinement leaves the same as of the tree. -/
theorem prune_stages (h : Refines fine coarse) (spaces : Bool) (tree : Tree) :
    (prune coarse spaces tree = none ↔ prune fine spaces tree = none) ∧
      ∀ between, prune coarse spaces tree = some between →
        prune fine spaces between = prune fine spaces tree := by
  refine ⟨h.prune_eq_none_iff tree, ?_⟩
  intro between hbetween
  rw [← h.bind_prune tree, hbetween, Option.bind_some]

/-- Blanks and a terminator below a sumti; the first stage keeps the selbri too, and the second
only the sumti. -/
theorem prune_stages_sumti :
    Refines (fun label childless => if childless then label == "KU" else label == "sumti")
      (fun label childless =>
        if childless then label == "KU" else label == "sumti" || label == "selbri") ∧
    prune (fun label childless =>
        if childless then label == "KU" else label == "sumti" || label == "selbri") true
        (.labeled "sentence" [.labeled "sumti" [.leaf "mi", .labeled "spaces" [], .labeled "KU" []],
          .labeled "selbri" [.leaf "klama"]]) =
      some (.group [.labeled "sumti" [.leaf "mi", .leaf "_", .leaf "KU"],
        .labeled "selbri" [.leaf "klama"]]) ∧
    prune (fun label childless => if childless then label == "KU" else label == "sumti") true
        (.group [.labeled "sumti" [.leaf "mi", .leaf "_", .leaf "KU"],
          .labeled "selbri" [.leaf "klama"]]) =
      prune (fun label childless => if childless then label == "KU" else label == "sumti") true
        (.labeled "sentence" [.labeled "sumti" [.leaf "mi", .labeled "spaces" [], .labeled "KU" []],
          .labeled "selbri" [.leaf "klama"]]) :=
  have refines : Refines (fun label childless => if childless then label == "KU"
      else label == "sumti") (fun label childless =>
        if childless then label == "KU" else label == "sumti" || label == "selbri") :=
    { bare := fun _ => rfl, branch := fun _ hkeep => Bool.or_eq_true_iff.mpr (Or.inl hkeep) }
  ⟨refines, by decide, (prune_stages refines true _).2 _ (by decide)⟩

end

end LojbanTree.Tree
