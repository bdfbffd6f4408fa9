import LojbanTree.Proofs.Tree.Labels
import LojbanTree.Proofs.Tree.Survivors
import Mathlib.Data.List.Flatten

/-!
The branches of a bridi in the processed tree.

Where the labels of bridi are kept, each node with such a label that is left with a child is found
again in the processed tree, in its place among the others. It is a branch with that label over
what is left of its children; only where words are tagged, and nothing but a single leaf is left,
is it taken for a word and shown as a tagged leaf. Main statement: `branches_process`.
-/

namespace LojbanTree.Tree

/-! ### Nodes outside blanks -/

mutual

/-- The subtrees at and below which there are blanks are left out; the others are listed from the
root down and from left to right. -/
def outsideBlanks : Tree → List Tree
  | .leaf text => [.leaf text]
  | .labeled label children =>
    if label = spacesLabel then [] else .labeled label children :: outsideBlanksAll children
  | .group children => .group children :: outsideBlanksAll children

/-- The subtrees of siblings that are not inside blanks. -/
def outsideBlanksAll : List Tree → List Tree
  | [] => []
  | tree :: siblings => outsideBlanks tree ++ outsideBlanksAll siblings

end

theorem outsideBlanksAll_eq_flatMap (siblings : List Tree) :
    outsideBlanksAll siblings = siblings.flatMap outsideBlanks := by
  induction siblings with
  | nil => rfl
  | cons tree siblings ih => simp [outsideBlanksAll, ih]

@[simp] theorem outsideBlanks_group (children : List Tree) :
    (group children).outsideBlanks = .group children :: children.flatMap outsideBlanks := by
  rw [outsideBlanks, outsideBlanksAll_eq_flatMap]

@[simp] theorem outsideBlanks_spaces (children : List Tree) :
    (labeled spacesLabel children).outsideBlanks = [] := by
  rw [outsideBlanks, if_pos rfl]

theorem outsideBlanks_labeled {label : Text} (h : label ≠ spacesLabel) (children : List Tree) :
    (labeled label children).outsideBlanks =
      .labeled label children :: children.flatMap outsideBlanks := by
  rw [outsideBlanks, if_neg h, outsideBlanksAll_eq_flatMap]

/-! ### Branches that pruning leaves -/

section

variable {keep : Text → Bool → Bool} {spaces : Bool}

/-- A labeled branch over what is left of its children. -/
def overSurvivors (keep : Text → Bool → Bool) (spaces : Bool) : Tree → Tree
  | .labeled label children => .labeled label (pruneAll keep spaces children)
  | node => node

/-- Does a node carry a label and have something left of its children? -/
def keepsChild (keep : Text → Bool → Bool) (spaces : Bool) (label : Text) (node : Tree) :
    Bool :=
  node.label? = some label && !(pruneAll keep spaces node.children).isEmpty

/-- The subtrees of the survivors are subtrees of what is made of them. -/
theorem subtrees_sublist_collapse (kept : Option Text) (survivors : List Tree) :
    (survivors.flatMap subtrees).Sublist ((collapse kept survivors).toList.flatMap subtrees) := by
  cases h : collapse kept survivors with
  | none =>
    obtain ⟨_, rfl⟩ := collapse_eq_none_iff.mp h
    exact List.Sublist.refl _
  | some result =>
    rw [Option.toList_some, List.flatMap_singleton]
    cases collapsed_of_collapse h with
    | bare => exact List.nil_sublist _
    | sole => simp
    | several =>
      rw [subtrees_group]
      exact List.sublist_cons_self _ _
    | branch =>
      rw [subtrees_labeled]
      exact List.sublist_cons_self _ _

/-- A label that is wanted over children stays on each branch that is left with one. -/
theorem overSurvivors_sublist {label : Text} (hkeep : keep label false = true) (tree : Tree) :
    ((tree.outsideBlanks.filter (keepsChild keep spaces label)).map
        (overSurvivors keep spaces)).Sublist
      ((prune keep spaces tree).toList.flatMap subtrees) := by
  have below : ∀ children : List Tree,
      (∀ child ∈ children, ((child.outsideBlanks.filter (keepsChild keep spaces label)).map
          (overSurvivors keep spaces)).Sublist
        ((prune keep spaces child).toList.flatMap subtrees)) →
      (((children.flatMap outsideBlanks).filter (keepsChild keep spaces label)).map
          (overSurvivors keep spaces)).Sublist
        ((pruneAll keep spaces children).flatMap subtrees) := by
    intro children each
    rw [List.filter_flatMap, List.map_flatMap, pruneAll_eq_flatMap, List.flatMap_assoc]
    exact List.Sublist.flatMap_right children each
  -- What is found below the children is found in any case; a node adds itself in front of it only
  -- where its label stays.
  induction tree with
  | leaf text => exact List.nil_sublist _
  | group children ih =>
    have hgroup : ¬keepsChild keep spaces label (.group children) = true := by
      simp [keepsChild, label?]
    rw [outsideBlanks_group, List.filter_cons_of_neg hgroup, prune_group]
    exact (below children ih).trans (subtrees_sublist_collapse _ _)
  | labeled other children ih =>
    by_cases hspaces : other = spacesLabel
    · rw [hspaces, outsideBlanks_spaces]
      exact List.nil_sublist _
    rw [outsideBlanks_labeled hspaces, prune_labeled keep spaces hspaces]
    cases hnode : keepsChild keep spaces label (.labeled other children) with
    | false =>
      rw [List.filter_cons_of_neg (by simp [hnode])]
      exact (below children ih).trans (subtrees_sublist_collapse _ _)
    | true =>
      obtain ⟨rfl, hne⟩ : other = label ∧ pruneAll keep spaces children ≠ [] := by
        simpa [keepsChild, label?, Tree.children] using hnode
      rw [List.filter_cons_of_pos hnode, List.map_cons, List.isEmpty_eq_false_iff.mpr hne,
        if_pos hkeep, collapse_branch other hne, Option.toList_some, List.flatMap_singleton,
        subtrees_labeled, overSurvivors]
      exact (below children ih).cons_cons _

end

/-! ### Labeled branches in the tagged tree -/

/-- What tagging makes of the labeled branches of a tree is found in the tagged tree. -/
theorem tagWords_sublist {code? : Text → Option Text} (tree : Tree) :
    ((tree.subtrees.filter fun node => node.label?.isSome).map (tagWords code?)).Sublist
      (tagWords code? tree).subtrees := by
  have below : ∀ children : List Tree,
      (∀ child ∈ children, ((child.subtrees.filter fun node => node.label?.isSome).map
          (tagWords code?)).Sublist (tagWords code? child).subtrees) →
      (((children.flatMap subtrees).filter fun node => node.label?.isSome).map
          (tagWords code?)).Sublist ((children.map (tagWords code?)).flatMap subtrees) := by
    intro children each
    rw [List.filter_flatMap, List.map_flatMap, List.flatMap_map]
    exact List.Sublist.flatMap_right children each
  induction tree using wordInduction with
  | leaf text => exact List.nil_sublist _
  | word label text => simp [label?]
  | labeled label children hno ih =>
    rw [subtrees_labeled, List.filter_cons_of_pos rfl, List.map_cons,
      tagWords_labeled code? label hno, subtrees_labeled]
    exact (below children ih).cons_cons _
  | group children ih =>
    rw [subtrees_group, List.filter_cons_of_neg Bool.false_ne_true, tagWords_group, subtrees_group]
    exact (below children ih).cons _

theorem subtrees_sublist_wrapLeaf (tree : Tree) :
    tree.subtrees.Sublist (wrapLeaf tree).subtrees := by
  cases tree with
  | leaf text => simp [wrapLeaf]
  | labeled label children => exact List.Sublist.refl _
  | group children => exact List.Sublist.refl _

section

variable {options : Options} {label : Text}

/-- A tree as it is shown: its words are tagged, if the options ask for it. -/
def withTags (options : Options) (tree : Tree) : Tree :=
  if options.tagsWords then tagWords wordClassCode? tree else tree

theorem withTags_sublist (tree : Tree) :
    ((tree.subtrees.filter fun node => node.label?.isSome).map (withTags options)).Sublist
      (finish options tree).subtrees := by
  unfold finish
  cases htags : options.tagsWords with
  | true =>
    have tags : withTags options = tagWords wordClassCode? := by
      funext node
      rw [withTags, if_pos htags]
    rw [tags, if_pos rfl]
    exact (tagWords_sublist tree).trans (subtrees_sublist_wrapLeaf _)
  | false =>
    have same : withTags options = id := by
      funext node
      rw [withTags, if_neg (by simp [htags])]
      rfl
    rw [same, List.map_id, if_neg Bool.false_ne_true]
    exact List.filter_sublist

/-! ### The labels of bridi -/

/-- The nodes outside blanks with a given label that are left with a child. -/
def bridiNodes (options : Options) (label : Text) (tree : Tree) : List Tree :=
  (strip options tree).outsideBlanks.filter (keepsChild options.keeps options.spaces label)

/-- What is to be found of such a node in the processed tree. -/
def shownBridi (options : Options) (node : Tree) : Tree :=
  withTags options (overSurvivors options.keeps options.spaces node)

/-- Is a node taken for a word, since words are tagged and nothing but a leaf is left below it? -/
def takenForWord (options : Options) (node : Tree) : Bool :=
  options.tagsWords && (overSurvivors options.keeps options.spaces node).isSingleWord

theorem labeled_of_mem_bridiNodes {tree node : Tree} (h : node ∈ bridiNodes options label tree) :
    ∃ children, node = .labeled label children := by
  have hnode := (List.mem_filter.mp h).2
  cases node with
  | leaf text => simp [keepsChild, label?] at hnode
  | labeled other children =>
    obtain ⟨rfl, _⟩ : other = label ∧ _ := by simpa [keepsChild, label?] using hnode
    exact ⟨children, rfl⟩
  | group children => simp [keepsChild, label?] at hnode

/-- All of them are found there, each in its place among the others. -/
theorem shownBridi_sublist (hlabels : options.nodeLabels = true) (hlabel : label ∈ bridiLabels)
    (tree : Tree) :
    ((bridiNodes options label tree).map (shownBridi options)).Sublist
      (process options tree).subtrees := by
  have pruned : ((bridiNodes options label tree).map
        (overSurvivors options.keeps options.spaces)).Sublist
      ((surviving? options (strip options tree)).toList.flatMap subtrees) :=
    overSurvivors_sublist (keeps_bridi hlabels hlabel false) (strip options tree)
  have branches : ((bridiNodes options label tree).map
      (overSurvivors options.keeps options.spaces)).filter (fun node => node.label?.isSome) =
        (bridiNodes options label tree).map (overSurvivors options.keeps options.spaces) := by
    refine List.filter_eq_self.mpr (List.forall_mem_map.mpr fun node hnode => ?_)
    obtain ⟨children, rfl⟩ := labeled_of_mem_bridiNodes hnode
    rfl
  unfold process processStripped
  cases hsurviving : surviving? options (strip options tree) with
  | none =>
    rw [hsurviving, Option.toList_none, List.flatMap_nil, List.sublist_nil,
      List.map_eq_nil_iff] at pruned
    rw [pruned]
    exact List.nil_sublist _
  | some result =>
    rw [hsurviving, Option.toList_some, List.flatMap_singleton] at pruned
    -- Tagging merges some leaves into others, so only the labeled branches are followed through it.
    have kept := pruned.filter fun node => node.label?.isSome
    rw [branches] at kept
    have shown := kept.map (withTags options)
    rw [List.map_map] at shown
    exact shown.trans (withTags_sublist result)

/-- Such a node is shown as a branch with its label, unless it is taken for a word. -/
theorem label?_shownBridi {tree node : Tree} (h : node ∈ bridiNodes options label tree)
    (hword : takenForWord options node = false) :
    (shownBridi options node).label? = some label := by
  obtain ⟨children, rfl⟩ := labeled_of_mem_bridiNodes h
  rw [shownBridi, withTags, overSurvivors]
  split
  · rename_i htags
    rw [takenForWord, htags, Bool.true_and, overSurvivors] at hword
    rw [tagWords_labeled]
    · rfl
    · intro text hleaf
      rw [hleaf] at hword
      cases hword
  · rfl

/-- If it is taken for a word, it is shown as the only leaf that is left, with its label for a
tag. -/
theorem shownBridi_of_takenForWord {tree node : Tree} (hlabel : label ∈ bridiLabels)
    (h : node ∈ bridiNodes options label tree) (hword : takenForWord options node = true) :
    ∃ text, pruneAll options.keeps options.spaces node.children = [.leaf text] ∧
      shownBridi options node = .leaf (label ++ ":" ++ text) := by
  have uncoded : ∀ label ∈ bridiLabels, wordClassCode? label = none := by decide
  obtain ⟨children, rfl⟩ := labeled_of_mem_bridiNodes h
  obtain ⟨htags, hsingle⟩ := Bool.and_eq_true_iff.mp hword
  obtain ⟨text, hleaf⟩ := isSingleWord_labeled_iff.mp hsingle
  refine ⟨text, hleaf, ?_⟩
  rw [shownBridi, withTags, if_pos htags, overSurvivors, hleaf, tagWords_word, taggedText,
    uncoded label hlabel]
  rfl

/-- **Each node with a label of bridi that is left with a child is found in the processed tree.**
It is a branch with its label unless it is taken for a word, so of each of these labels the
processed tree has at least as many branches as there are such nodes that are not. -/
theorem branches_process (options : Options) (tree : Tree) (hlabels : options.nodeLabels = true)
    {label : Text} (hlabel : label ∈ bridiLabels) :
    ((bridiNodes options label tree).map (shownBridi options)).Sublist
        (process options tree).subtrees ∧
      (∀ node ∈ bridiNodes options label tree, takenForWord options node = false →
        (shownBridi options node).label? = some label) ∧
      (∀ node ∈ bridiNodes options label tree, takenForWord options node = true →
        ∃ text, pruneAll options.keeps options.spaces node.children = [.leaf text] ∧
          shownBridi options node = .leaf (label ++ ":" ++ text)) ∧
      ((bridiNodes options label tree).countP fun node => !takenForWord options node) ≤
        (process options tree).subtrees.countP fun node => node.label? = some label := by
  have found := shownBridi_sublist hlabels hlabel tree
  refine ⟨found, fun node => label?_shownBridi, fun node => shownBridi_of_takenForWord hlabel, ?_⟩
  calc (bridiNodes options label tree).countP (fun node => !takenForWord options node)
      ≤ (bridiNodes options label tree).countP
          ((fun node => decide (node.label? = some label)) ∘ shownBridi options) := by
        refine List.countP_mono_left fun node hnode hword => ?_
        exact decide_eq_true (label?_shownBridi hnode (by simpa using hword))
    _ = ((bridiNodes options label tree).map (shownBridi options)).countP
          fun node => node.label? = some label := List.countP_map.symm
    _ ≤ (process options tree).subtrees.countP fun node => node.label? = some label :=
        found.countP_le

/-- Of two sumti, one of which is left with its terminator alone, only the other stays a branch
where words are tagged; where they are not, both do. -/
theorem branches_process_terminator :
    Options.nodeLabels { nodeLabels := true, selmaho := true, terminators := true } = true ∧
    ("sumti" : Text) ∈ bridiLabels ∧
    ((bridiNodes { nodeLabels := true, selmaho := true, terminators := true } "sumti"
        (.group [.labeled "sumti" [.labeled "KOhA" [.leaf "mi"]],
          .labeled "sumti" [.labeled "KU" []]])).countP fun node =>
            !takenForWord { nodeLabels := true, selmaho := true, terminators := true } node) ≤
      ((process { nodeLabels := true, selmaho := true, terminators := true }
        (.group [.labeled "sumti" [.labeled "KOhA" [.leaf "mi"]],
          .labeled "sumti" [.labeled "KU" []]])).subtrees.countP fun node =>
            node.label? = some ("sumti" : Text)) ∧
    (bridiNodes { nodeLabels := true, selmaho := true, terminators := true } "sumti"
      (.group [.labeled "sumti" [.labeled "KOhA" [.leaf "mi"]],
        .labeled "sumti" [.labeled "KU" []]])).length = 2 ∧
    process { nodeLabels := true, selmaho := true, terminators := true }
        (.group [.labeled "sumti" [.labeled "KOhA" [.leaf "mi"]],
          .labeled "sumti" [.labeled "KU" []]]) =
      .group [.labeled "sumti" [.leaf "KOhA:mi"], .leaf "sumti:KU"] ∧
    process { nodeLabels := true, terminators := true }
        (.group [.labeled "sumti" [.labeled "KOhA" [.leaf "mi"]],
          .labeled "sumti" [.labeled "KU" []]]) =
      .group [.labeled "sumti" [.leaf "mi"], .labeled "sumti" [.leaf "KU"]] :=
  ⟨rfl, by decide,
    (branches_process { nodeLabels := true, selmaho := true, terminators := true } _ rfl
      (by decide)).2.2.2, by decide, by decide, by decide⟩

end

end LojbanTree.Tree
