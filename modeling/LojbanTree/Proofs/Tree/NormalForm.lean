import LojbanTree.Proofs.Tree.Survivors

/-!
The normal forms of pruning.

A tree is *normal* for a filter when pruning finds nothing to do in it: each group has at least two
parts, each labeled branch has a child and a label that is wanted over one, and blanks stand only
where they are kept, with `_` in front. For branches that stay branches the filter matters only
over children, so what it says of bare labels does not count. Main statement: pruning gives normal
trees, gives each of them, and leaves exactly these as they are (`prune_normalForms`).
-/

namespace LojbanTree.Tree

/-- A node at which pruning finds nothing to do. -/
def NormalNode (keep : Text → Bool → Bool) (spaces : Bool) : Tree → Prop
  | .leaf _ => True
  | .labeled label children =>
    children ≠ [] ∧ keep label false = true ∧
      (label = spacesLabel → spaces = true ∧ children.head? = some blankLeaf)
  | .group children => 2 ≤ children.length

instance (keep : Text → Bool → Bool) (spaces : Bool) : DecidablePred (NormalNode keep spaces)
  | .leaf _ => inferInstanceAs (Decidable True)
  | .labeled _ _ => inferInstanceAs (Decidable (_ ∧ _ ∧ _))
  | .group _ => inferInstanceAs (Decidable (_ ≤ _))

/-- Does pruning find nothing to do anywhere in the tree? -/
def Normal (keep : Text → Bool → Bool) (spaces : Bool) (tree : Tree) : Prop :=
  tree.Every (NormalNode keep spaces)

instance (keep : Text → Bool → Bool) (spaces : Bool) (tree : Tree) :
    Decidable (tree.Normal keep spaces) :=
  inferInstanceAs (Decidable (tree.Every _))

section

variable {keep : Text → Bool → Bool} {spaces : Bool}

/-! ### What pruning leaves is normal -/

/-- Where blanks are kept, the first thing to survive below them is `_`. -/
theorem head?_pruneAll_shownChildren_spaces (children : List Tree) :
    (pruneAll keep spaces (shownChildren spacesLabel children)).head? = some blankLeaf := by
  rw [shownChildren_spaces, pruneAll_cons, blankLeaf, prune_leaf]
  rfl

/-- Of the forms that a pruned branch can take, all are normal. -/
theorem normal_of_prune {tree result : Tree} (h : prune keep spaces tree = some result) :
    result.Normal keep spaces := by
  refine every_of_prune_eq_some ?leaf ?bare ?blank ?group ?branch h
  case leaf =>
    intro text _
    trivial
  case bare =>
    intro label children _
    trivial
  case blank => trivial
  case group =>
    intro survivors hlen
    exact hlen
  case branch =>
    intro label children _ hspaces hne hkeep
    refine ⟨hne, hkeep, ?_⟩
    rintro rfl
    have hkept : spaces = true := by
      cases hno : spaces with
      | true => rfl
      | false => exact absurd ⟨rfl, hno⟩ hspaces
    exact ⟨hkept, head?_pruneAll_shownChildren_spaces children⟩

/-! ### Pruning leaves normal trees as they are -/

/-- At a normal node pruning sees the children that are there. -/
theorem NormalNode.shownChildren_eq {label : Text} {children : List Tree}
    (h : (labeled label children).NormalNode keep spaces) :
    shownChildren label children = children := by
  obtain ⟨_, _, hblank⟩ := h
  by_cases hl : label = spacesLabel
  · obtain ⟨_, hhead⟩ := hblank hl
    obtain ⟨rest, rfl⟩ := List.head?_eq_some_iff.mp hhead
    rw [hl, shownChildren_spaces, List.tail_cons]
  · exact shownChildren_of_ne hl children

theorem pruneAll_eq_self {siblings : List Tree}
    (h : ∀ tree ∈ siblings, prune keep spaces tree = some tree) :
    pruneAll keep spaces siblings = siblings := by
  induction siblings with
  | nil => rfl
  | cons tree siblings ih =>
    obtain ⟨htree, hsiblings⟩ := List.forall_mem_cons.mp h
    rw [pruneAll_cons, htree, ih hsiblings, Option.toList_some, List.singleton_append]

/-- A normal node over children that pruning leaves alone is left alone. -/
theorem prune_of_normal {tree : Tree} (h : tree.Normal keep spaces) :
    prune keep spaces tree = some tree := by
  induction tree with
  | leaf text => exact prune_leaf keep spaces text
  | group children ih =>
    obtain ⟨hlen, hchildren⟩ := every_group.mp h
    rw [prune_group, pruneAll_eq_self fun child hc => ih child hc (hchildren child hc),
      collapse_several hlen]
  | labeled label children ih =>
    obtain ⟨hroot, hchildren⟩ := every_labeled.mp h
    have hshown := NormalNode.shownChildren_eq hroot
    obtain ⟨hne, hkeep, hblank⟩ := hroot
    have hkept : ¬(label = spacesLabel ∧ spaces = false) := by
      rintro ⟨hl, hno⟩
      obtain ⟨hyes, _⟩ := hblank hl
      rw [hno] at hyes
      cases hyes
    rw [prune_labeled_eq, if_neg hkept, hshown,
      pruneAll_eq_self fun child hc => ih child hc (hchildren child hc), settle,
      List.isEmpty_eq_false_iff.mpr hne, if_pos hkeep, collapse_branch label hne]

theorem prune_eq_some_self_iff {tree : Tree} :
    prune keep spaces tree = some tree ↔ tree.Normal keep spaces :=
  ⟨normal_of_prune, prune_of_normal⟩

/-- **The results of pruning are the normal trees, and these are what it leaves as they are.** So
pruning once more changes nothing. -/
theorem prune_normalForms (keep : Text → Bool → Bool) (spaces : Bool) (tree : Tree) :
    (∀ result, prune keep spaces tree = some result → result.Normal keep spaces) ∧
      (prune keep spaces tree = some tree ↔ tree.Normal keep spaces) ∧
      ((∃ source, prune keep spaces source = some tree) ↔ tree.Normal keep spaces) ∧
      (prune keep spaces tree).bind (prune keep spaces) = prune keep spaces tree := by
  refine ⟨fun result => normal_of_prune, prune_eq_some_self_iff, ?image, ?twice⟩
  case image =>
    constructor
    · rintro ⟨source, hs⟩
      exact normal_of_prune hs
    · intro hnormal
      exact ⟨tree, prune_of_normal hnormal⟩
  case twice =>
    cases h : prune keep spaces tree with
    | none => rfl
    | some result => exact prune_of_normal (normal_of_prune h)

/-- Blanks that keep their label, and a wanted label that loses one of two children. -/
theorem prune_normalForms_blanks :
    prune (fun label _ => label != "text") true
        (.labeled "text" [.labeled "spaces" [.leaf " "],
          .labeled "sumti" [.leaf "mi", .group []]]) =
      some (.group [.labeled "spaces" [.leaf "_"], .labeled "sumti" [.leaf "mi"]]) ∧
    (group [.labeled "spaces" [.leaf "_"], .labeled "sumti" [.leaf "mi"]]).Normal
      (fun label _ => label != "text") true :=
  ⟨by decide, (prune_normalForms (fun label _ => label != "text") true
    (.labeled "text" [.labeled "spaces" [.leaf " "],
      .labeled "sumti" [.leaf "mi", .group []]])).1 _ (by decide)⟩

end

end LojbanTree.Tree
