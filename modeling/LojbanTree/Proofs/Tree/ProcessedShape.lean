import LojbanTree.Proofs.Tree.Flattening
import LojbanTree.Proofs.Tree.Labels
import LojbanTree.Proofs.Tree.Survivors

/-!
The shape of the processed tree.

Three passes together leave no branch without a child and no group with a single part. Taking the
letters away leaves every word over a single leaf, pruning keeps the branches that the options name
and drops all groups of fewer than two, and tagging turns into leaves whatever word is still
labeled. Main statement: every processed tree has this shape (`processedShape_process`).
-/

namespace LojbanTree

/-- May a branch of the processed tree carry the label? -/
def Options.MayLabel (options : Options) (label : Text) : Prop :=
  options.nodeLabels = true ∧ label ∈ bridiLabels ∨
    options.morphology = true ∧ options.selmaho = true ∧ Selmaho.isName label = true

namespace Tree

/-- The shape of a processed tree: at its root it may be a group without a part, or, once words
have been tagged, a group around a single leaf. -/
structure ProcessedShape (options : Options) (tree : Tree) : Prop where
  hasChild : ∀ label children, .labeled label children ∈ tree.subtrees → children ≠ []
  mayLabel : ∀ label children, .labeled label children ∈ tree.subtrees → options.MayLabel label
  innerGroup : ∀ children, .group children ∈ tree.properSubtrees → 2 ≤ children.length
  rootGroup : ∀ children, tree = .group children →
    2 ≤ children.length ∨ children = [] ∨
      options.selmaho = true ∧ options.morphology = false ∧ ∃ text, children = [.leaf text]
  rootBranch : options.selmaho = true → options.morphology = false → tree.isLeaf = false

section

variable {options : Options}

/-! ### The pruned tree -/

/-- A node of the pruned tree: groups have parts, labeled branches have children, and each of these
carries a label of the result or stands over a word that is still to be tagged. -/
def PrunedNode (options : Options) : Tree → Prop
  | .leaf _ => True
  | .labeled label children =>
    children ≠ [] ∧
      (options.MayLabel label ∨ options.tagsWords = true ∧ ∃ text, children = [.leaf text])
  | .group children => 2 ≤ children.length

/-- A label that is kept over some child is one of the result, or that of a word to be tagged. -/
theorem mayLabel_of_keeps {label : Text} (h : options.keeps label false = true) :
    options.MayLabel label ∨
      options.tagsWords = true ∧ isMorphologyLabel label = true ∧ label ≠ spacesLabel := by
  rcases Bool.or_eq_true_iff.mp h with halways | hname
  · rcases Bool.or_eq_true_iff.mp halways with hbridi | hclass
    · obtain ⟨hlabels, hlabel⟩ := Bool.and_eq_true_iff.mp hbridi
      exact Or.inl (Or.inl ⟨hlabels, List.contains_iff_mem.mp hlabel⟩)
    · obtain ⟨htags, hlabel⟩ := Bool.and_eq_true_iff.mp hclass
      exact Or.inr ⟨htags, isMorphologyLabel_of_wordClass (List.contains_iff_mem.mp hlabel)⟩
  · obtain ⟨hname, hkept⟩ := Bool.and_eq_true_iff.mp hname
    have hselmaho : options.selmaho = true := by
      cases hno : options.selmaho with
      | true => rfl
      | false =>
        rw [hno] at hkept
        cases hkept
    cases hmorphology : options.morphology with
    | true => exact Or.inl (Or.inr ⟨hmorphology, hselmaho, hname⟩)
    | false =>
      exact Or.inr ⟨tagsWords_eq_true_iff.mpr ⟨hselmaho, hmorphology⟩,
        isMorphologyLabel_of_isName hname⟩

/-- What pruning leaves below a word is nothing or the word. -/
theorem pruneAll_of_holdsWord {keep : Text → Bool → Bool} {spaces : Bool} {label : Text}
    {children : List Tree} (hword : (labeled label children).HoldsWord)
    (hm : isMorphologyLabel label = true) (hspaces : label ≠ spacesLabel)
    (hne : pruneAll keep spaces (shownChildren label children) ≠ []) :
    ∃ text, pruneAll keep spaces (shownChildren label children) = [.leaf text] := by
  rw [shownChildren_of_ne hspaces] at hne ⊢
  rcases hword hm with rfl | ⟨text, _, rfl⟩
  · exact absurd rfl hne
  · exact ⟨text, rfl⟩

theorem flattened_strip (h : options.morphology = false) (tree : Tree) :
    (strip options tree).Flattened := by
  rw [strip_eq_withoutMorphology h]
  exact flattened_withoutMorphology tree

/-- Pruning leaves such nodes only. -/
theorem every_prunedNode {tree pruned : Tree}
    (h : surviving? options (strip options tree) = some pruned) :
    pruned.Every (PrunedNode options) := by
  refine every_of_prune_eq_some ?leaf ?bare ?blank ?group ?branch h
  case leaf =>
    intro text _
    trivial
  case bare =>
    intro label children _
    trivial
  case blank => trivial
  case group =>
    intro survivors hlen
    exact hlen
  case branch =>
    intro label children hmem _ hne hkeep
    refine ⟨hne, ?_⟩
    rcases mayLabel_of_keeps hkeep with hmay | ⟨htags, hm, hspaces⟩
    · exact Or.inl hmay
    · obtain ⟨_, hmorphology⟩ := tagsWords_eq_true_iff.mp htags
      have hword := flattened_strip hmorphology tree _ hmem
      exact Or.inr ⟨htags, pruneAll_of_holdsWord hword hm hspaces hne⟩

/-! ### The tagged tree -/

/-- A node of the result, if it is not at the root. -/
def ResultNode (options : Options) : Tree → Prop
  | .leaf _ => True
  | .labeled label children => children ≠ [] ∧ options.MayLabel label
  | .group children => 2 ≤ children.length

/-- Tagging leaves no label of a word, and takes no child from any other branch. -/
theorem every_tagWords {code? : Text → Option Text} {tree : Tree}
    (h : tree.Every (PrunedNode options)) :
    (tagWords code? tree).Every (ResultNode options) := by
  induction tree using wordInduction with
  | leaf text =>
    rw [tagWords_leaf]
    exact every_leaf.mpr trivial
  | word label text =>
    rw [tagWords_word]
    exact every_leaf.mpr trivial
  | labeled label children hno ih =>
    obtain ⟨⟨hne, hlabel⟩, hchildren⟩ := every_labeled.mp h
    rw [tagWords_labeled code? label hno]
    refine every_labeled.mpr ⟨⟨mt List.map_eq_nil_iff.mp hne, ?_⟩,
      List.forall_mem_map.mpr fun child hc => ih child hc (hchildren child hc)⟩
    rcases hlabel with hmay | ⟨_, text, hword⟩
    · exact hmay
    · exact absurd hword (hno text)
  | group children ih =>
    obtain ⟨hlen, hchildren⟩ := every_group.mp h
    rw [tagWords_group]
    refine every_group.mpr ⟨?_,
      List.forall_mem_map.mpr fun child hc => ih child hc (hchildren child hc)⟩
    rw [ResultNode, List.length_map]
    exact hlen

/-- Without tagging there is no word to be tagged. -/
theorem PrunedNode.resultNode (htags : options.tagsWords ≠ true) {node : Tree}
    (h : PrunedNode options node) : ResultNode options node := by
  cases node with
  | leaf text => trivial
  | labeled label children =>
    obtain ⟨hne, hmay | ⟨hyes, _⟩⟩ := h
    · exact ⟨hne, hmay⟩
    · exact absurd hyes htags
  | group children => exact h

/-! ### The root -/

theorem processedShape_empty : ProcessedShape options (.group []) where
  hasChild label children h := by simp at h
  mayLabel label children h := by simp at h
  innerGroup children h := by simp [properSubtrees, Tree.children] at h
  rootGroup children h := by
    cases h
    exact Or.inr (Or.inl rfl)
  rootBranch _ _ := rfl

theorem processedShape_wrapped (htags : options.tagsWords = true) (text : Text) :
    ProcessedShape options (.group [.leaf text]) where
  hasChild label children h := by simp at h
  mayLabel label children h := by simp at h
  innerGroup children h := by simp [properSubtrees, Tree.children] at h
  rootGroup children h := by
    cases h
    obtain ⟨hselmaho, hmorphology⟩ := tagsWords_eq_true_iff.mp htags
    exact Or.inr (Or.inr ⟨hselmaho, hmorphology, text, rfl⟩)
  rootBranch _ _ := rfl

/-- Nodes of the result make up a tree of the right shape, unless it is a leaf to be wrapped. -/
theorem processedShape_of_every {tree : Tree} (h : tree.Every (ResultNode options))
    (hleaf : options.tagsWords = true → tree.isLeaf = false) : ProcessedShape options tree where
  hasChild label children hmem := (h _ hmem).1
  mayLabel label children hmem := (h _ hmem).2
  innerGroup children hmem := by
    refine h (.group children) ?_
    rw [subtrees_eq_cons]
    exact List.mem_cons_of_mem tree hmem
  rootGroup children he := by
    have hroot := h.root
    rw [he] at hroot
    exact Or.inl hroot
  rootBranch hselmaho hmorphology := hleaf (tagsWords_eq_true_iff.mpr ⟨hselmaho, hmorphology⟩)

/-- **Every processed tree has the shape** of its options, whatever the tree was before. -/
theorem processedShape_process (options : Options) (tree : Tree) :
    ProcessedShape options (process options tree) := by
  unfold process processStripped
  cases h : surviving? options (strip options tree) with
  | none => exact processedShape_empty
  | some pruned =>
    have hpruned := every_prunedNode h
    by_cases htags : options.tagsWords = true
    · have htagged : (tagWords wordClassCode? pruned).Every (ResultNode options) :=
        every_tagWords hpruned
      simp only [finish, if_pos htags]
      cases hresult : tagWords wordClassCode? pruned with
      | leaf text => exact processedShape_wrapped htags text
      | labeled label children =>
        rw [hresult] at htagged
        exact processedShape_of_every htagged fun _ => rfl
      | group children =>
        rw [hresult] at htagged
        exact processedShape_of_every htagged fun _ => rfl
    · simp only [finish, if_neg htags]
      exact processedShape_of_every (hpruned.mono fun _ => PrunedNode.resultNode htags)
        fun hyes => absurd hyes htags

end

end Tree

end LojbanTree
