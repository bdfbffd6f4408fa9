import LojbanTree.Proofs.Tree.Subtrees
import LojbanTree.Tree.Pruning

/-!
What pruning can leave.

A labeled branch is treated alike whatever its label once its children have been replaced by those
that pruning sees (`shownChildren`), so all proofs about pruning follow three cases: a leaf, a
group and a labeled branch. `Collapsed` lists the forms that a branch can take when it has been
pruned. Main statement: a property of single nodes holds throughout a pruned tree if the leaves,
the groups of at least two and the branches that keep their label have it
(`every_of_prune_eq_some`).
-/

namespace LojbanTree.Tree

/-- The children of a labeled branch as pruning sees them: the first of blanks is `_`. -/
def shownChildren (label : Text) (children : List Tree) : List Tree :=
  if label = spacesLabel then blankLeaf :: children.tail else children

theorem shownChildren_of_ne {label : Text} (h : label ≠ spacesLabel) (children : List Tree) :
    shownChildren label children = children :=
  if_neg h

@[simp] theorem shownChildren_spaces (children : List Tree) :
    shownChildren spacesLabel children = blankLeaf :: children.tail :=
  if_pos rfl

/-- Pruning sees no other children than those of the branch and the blank. -/
theorem mem_of_mem_shownChildren {label : Text} {children : List Tree} {child : Tree}
    (h : child ∈ shownChildren label children) : child = blankLeaf ∨ child ∈ children := by
  unfold shownChildren at h
  split at h
  · rcases List.mem_cons.mp h with hb | ht
    · exact Or.inl hb
    · exact Or.inr (List.mem_of_mem_tail ht)
  · exact Or.inr h

/-- Induction over trees, the hypothesis being given for the children that pruning sees. -/
@[elab_as_elim]
theorem shownInduction {motive : Tree → Prop}
    (leaf : ∀ text, motive (.leaf text))
    (labeled : ∀ label children, (∀ child ∈ shownChildren label children, motive child) →
      motive (.labeled label children))
    (group : ∀ children, (∀ child ∈ children, motive child) → motive (.group children))
    (tree : Tree) : motive tree := by
  induction tree with
  | leaf text => exact leaf text
  | labeled label children ih =>
    refine labeled label children fun child hc => ?_
    rcases mem_of_mem_shownChildren hc with rfl | hc
    · exact leaf "_"
    · exact ih child hc
  | group children ih => exact group children ih

/-! ### What is left of one branch -/

/-- Asks a plain filter about a branch whose children have been pruned. -/
def settle (keep : Text → Bool → Bool) (label : Text) (survivors : List Tree) : Option Tree :=
  collapse (if keep label survivors.isEmpty then some label else none) survivors

/-- The forms of a branch that has been pruned, by the label that it keeps and the children that
survive. -/
inductive Collapsed : Option Text → List Tree → Tree → Prop where
  | bare (label : Text) : Collapsed (some label) [] (.leaf label)
  | sole (survivor : Tree) : Collapsed none [survivor] survivor
  | several {survivors : List Tree} : 2 ≤ survivors.length →
      Collapsed none survivors (.group survivors)
  | branch (label : Text) {survivors : List Tree} : survivors ≠ [] →
      Collapsed (some label) survivors (.labeled label survivors)

/-- Nothing is left of a branch exactly when it keeps neither its label nor a child. -/
theorem collapse_eq_none_iff {kept : Option Text} {survivors : List Tree} :
    collapse kept survivors = none ↔ kept = none ∧ survivors = [] := by
  cases kept with
  | none =>
    match survivors with
    | [] => simp [collapse]
    | [_] => simp [collapse]
    | _ :: _ :: _ => simp [collapse]
  | some label => cases survivors <;> simp [collapse]

theorem collapsed_of_collapse {kept : Option Text} {survivors : List Tree} {result : Tree}
    (h : collapse kept survivors = some result) : Collapsed kept survivors result := by
  cases kept with
  | none =>
    match survivors with
    | [] => cases h
    | [survivor] => exact Option.some.inj h ▸ .sole survivor
    | first :: second :: rest => exact Option.some.inj h ▸ .several (by simp)
  | some label =>
    cases survivors with
    | nil => exact Option.some.inj h ▸ .bare label
    | cons survivor rest => exact Option.some.inj h ▸ .branch label (List.cons_ne_nil _ _)

theorem collapse_several {survivors : List Tree} (h : 2 ≤ survivors.length) :
    collapse none survivors = some (.group survivors) := by
  cases survivors with
  | nil => cases h
  | cons first rest =>
    cases rest with
    | nil => simp at h
    | cons second rest => rfl

theorem collapse_branch (label : Text) {survivors : List Tree} (h : survivors ≠ []) :
    collapse (some label) survivors = some (.labeled label survivors) := by
  cases survivors with
  | nil => exact absurd rfl h
  | cons survivor rest => rfl

/-- What all survivors have throughout, the collapsed branch has, if it has it at its root. -/
theorem every_of_collapse {P : Tree → Prop} {kept : Option Text} {survivors : List Tree}
    {result : Tree} (h : collapse kept survivors = some result)
    (bare : ∀ label, kept = some label → P (.leaf label))
    (group : ∀ survivors, 2 ≤ survivors.length → P (.group survivors))
    (branch : ∀ label, kept = some label → survivors ≠ [] → P (.labeled label survivors))
    (each : ∀ survivor ∈ survivors, survivor.Every P) : result.Every P := by
  cases collapsed_of_collapse h with
  | bare label => exact every_leaf.mpr (bare label rfl)
  | sole => exact each result List.mem_cons_self
  | several hlen => exact every_group.mpr ⟨group _ hlen, each⟩
  | branch label hne => exact every_labeled.mpr ⟨branch label rfl hne, each⟩

section

variable {keep : Text → Bool → Bool} {spaces : Bool}

/-- Blanks go unless they are to be kept; every other labeled branch is settled by the filter,
given what is left of the children that pruning sees. -/
theorem prune_labeled_eq (label : Text) (children : List Tree) :
    prune keep spaces (.labeled label children) =
      if label = spacesLabel ∧ spaces = false then none
      else settle keep label (pruneAll keep spaces (shownChildren label children)) := by
  by_cases hl : label = spacesLabel
  · subst hl
    cases spaces with
    | false => simp
    | true => simp [prune_spaces_true, settle, blankLeaf]
  · rw [prune_labeled keep spaces hl, shownChildren_of_ne hl]
    simp [hl, settle]

theorem mem_pruneAll {siblings : List Tree} {result : Tree} :
    result ∈ pruneAll keep spaces siblings ↔
      ∃ tree ∈ siblings, prune keep spaces tree = some result := by
  simp [pruneAll_eq_flatMap]

theorem pruneAll_eq_nil_iff {siblings : List Tree} :
    pruneAll keep spaces siblings = [] ↔ ∀ tree ∈ siblings, prune keep spaces tree = none := by
  simp [pruneAll_eq_flatMap, List.flatMap_eq_nil_iff]

/-- What is left of siblings depends only on what is left of each. -/
theorem pruneAll_congr {siblings others : List Tree}
    (h : siblings.map (prune keep spaces) = others.map (prune keep spaces)) :
    pruneAll keep spaces siblings = pruneAll keep spaces others := by
  have left : ∀ trees : List Tree, pruneAll keep spaces trees =
      (trees.map (prune keep spaces)).flatMap Option.toList := by
    intro trees
    rw [pruneAll_eq_flatMap, List.flatMap_map]
  rw [left, left, h]

theorem prune_group_congr {siblings others : List Tree}
    (h : siblings.map (prune keep spaces) = others.map (prune keep spaces)) :
    prune keep spaces (.group siblings) = prune keep spaces (.group others) := by
  rw [prune_group, prune_group, pruneAll_congr h]

theorem prune_labeled_congr (label : Text) {siblings others : List Tree}
    (h : siblings.map (prune keep spaces) = others.map (prune keep spaces)) :
    prune keep spaces (.labeled label siblings) = prune keep spaces (.labeled label others) := by
  have shown : (shownChildren label siblings).map (prune keep spaces) =
      (shownChildren label others).map (prune keep spaces) := by
    by_cases hl : label = spacesLabel
    · rw [hl, shownChildren_spaces, shownChildren_spaces, List.map_cons, List.map_cons,
        List.map_tail, List.map_tail, h]
    · rw [shownChildren_of_ne hl, shownChildren_of_ne hl, h]
  rw [prune_labeled_eq, prune_labeled_eq, pruneAll_congr shown]

/-- A branch whose label is not wanted is pruned like a group. -/
theorem prune_of_unwanted {label : Text} (hspaces : label ≠ spacesLabel)
    (h : ∀ childless, keep label childless = false) (children : List Tree) :
    prune keep spaces (.labeled label children) = prune keep spaces (.group children) := by
  rw [prune_labeled keep spaces hspaces, h, prune_group]
  rfl

/-- A group around a single part is as good as the part. -/
theorem prune_group_singleton (tree : Tree) :
    prune keep spaces (.group [tree]) = prune keep spaces tree := by
  rw [prune_group, pruneAll_cons, pruneAll_nil, List.append_nil]
  cases prune keep spaces tree <;> rfl

theorem eq_of_kept {label kept : Text} {wanted : Bool}
    (h : (if wanted then some label else none) = some kept) : kept = label := by
  split at h
  · exact (Option.some.inj h).symm
  · cases h

/-- A label that the filter keeps over some child. -/
theorem keep_of_kept {label kept : Text} {survivors : List Tree}
    (h : (if keep label survivors.isEmpty then some label else none) = some kept)
    (hne : survivors ≠ []) : kept = label ∧ keep label false = true := by
  refine ⟨eq_of_kept h, ?_⟩
  rw [List.isEmpty_eq_false_iff.mpr hne] at h
  split at h
  · assumption
  · cases h

/-- **A property of nodes holds throughout a pruned tree** if all that can be in one have it: the
leaves of the tree, its labels as leaves, the blank, the groups of at least two, and each branch of
the tree that keeps its label over the survivors of its children. -/
theorem every_of_prune_eq_some {P : Tree → Prop} {tree result : Tree}
    (leaf : ∀ text, .leaf text ∈ tree.subtrees → P (.leaf text))
    (bare : ∀ label children, .labeled label children ∈ tree.subtrees → P (.leaf label))
    (blank : P blankLeaf)
    (group : ∀ survivors, 2 ≤ survivors.length → P (.group survivors))
    (branch : ∀ label children, .labeled label children ∈ tree.subtrees →
      ¬(label = spacesLabel ∧ spaces = false) →
      pruneAll keep spaces (shownChildren label children) ≠ [] → keep label false = true →
      P (.labeled label (pruneAll keep spaces (shownChildren label children))))
    (h : prune keep spaces tree = some result) : result.Every P := by
  induction tree generalizing result with
  | leaf text =>
    cases h
    exact every_leaf.mpr (leaf text (by simp))
  | group children ih =>
    rw [prune_group] at h
    refine every_of_collapse h (fun _ hk => nomatch hk) group (fun _ hk => nomatch hk) ?_
    intro survivor hs
    obtain ⟨child, hc, hp⟩ := mem_pruneAll.mp hs
    exact ih child hc (fun text hm => leaf text (mem_subtrees_group hc hm))
      (fun label below hm => bare label below (mem_subtrees_group hc hm))
      (fun label below hm => branch label below (mem_subtrees_group hc hm)) hp
  | labeled label children ih =>
    rw [prune_labeled_eq] at h
    split at h
    · cases h
    rename_i hspaces
    refine every_of_collapse h ?_ group ?_ ?_
    · intro kept hk
      obtain rfl := eq_of_kept hk
      exact bare _ children (by simp)
    · intro kept hk hne
      obtain ⟨rfl, hkeep⟩ := keep_of_kept hk hne
      exact branch _ children (by simp) hspaces hne hkeep
    · intro survivor hs
      obtain ⟨child, hc, hp⟩ := mem_pruneAll.mp hs
      rcases mem_of_mem_shownChildren hc with rfl | hc
      · cases hp
        exact every_leaf.mpr blank
      · exact ih child hc (fun text hm => leaf text (mem_subtrees_labeled hc hm))
          (fun label below hm => bare label below (mem_subtrees_labeled hc hm))
          (fun label below hm => branch label below (mem_subtrees_labeled hc hm)) hp

end

end LojbanTree.Tree
