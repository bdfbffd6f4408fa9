import LojbanTree.Proofs.Tree.Frontier
import LojbanTree.Proofs.Tree.Labels
import LojbanTree.Proofs.Tree.Words
import Mathlib.Data.List.Forall2

/-!
The words of the processed tree.

The leaves of the processed tree show the frontier of the stripped tree, each word as it is or,
where words are tagged, perhaps after a tag. The frontier in turn asks the options only which bare
labels they keep. Main statement: whether selma'o are kept has no influence on the words but that
it may tag them (`leafTexts_process_selmaho`).
-/

namespace LojbanTree.Tree

/-! ### Tagging -/

/-- Is a word shown as it is, or after a tag and a colon? -/
def Tagged (word shown : Text) : Prop :=
  shown = word ∨ ∃ tag, shown = tag ++ ":" ++ word

theorem tagged_refl (words : List Text) : List.Forall₂ Tagged words words :=
  List.forall₂_same.mpr fun _ _ => Or.inl rfl

section

variable {code? : Text → Option Text}

theorem tagged_flatMap {children : List Tree}
    (h : ∀ child ∈ children, List.Forall₂ Tagged child.leafTexts (tagWords code? child).leafTexts) :
    List.Forall₂ Tagged (children.flatMap leafTexts)
      ((children.map (tagWords code?)).flatMap leafTexts) := by
  induction children with
  | nil => exact .nil
  | cons child children ih =>
    obtain ⟨hchild, hchildren⟩ := List.forall_mem_cons.mp h
    rw [List.map_cons, List.flatMap_cons, List.flatMap_cons]
    exact List.rel_append hchild (ih hchildren)

/-- Tagging neither adds nor drops nor moves a leaf. -/
theorem leafTexts_tagWords (tree : Tree) :
    List.Forall₂ Tagged tree.leafTexts (tagWords code? tree).leafTexts := by
  induction tree using wordInduction with
  | leaf text =>
    rw [tagWords_leaf]
    exact tagged_refl _
  | word label text =>
    rw [tagWords_word, leafTexts_labeled, List.flatMap_singleton, leafTexts_leaf, leafTexts_leaf]
    exact .cons (Or.inr ⟨_, rfl⟩) .nil
  | labeled label children hno ih =>
    rw [tagWords_labeled code? label hno, leafTexts_labeled, leafTexts_labeled]
    exact tagged_flatMap ih
  | group children ih =>
    rw [tagWords_group, leafTexts_group, leafTexts_group]
    exact tagged_flatMap ih

end

@[simp] theorem leafTexts_wrapLeaf (tree : Tree) : (wrapLeaf tree).leafTexts = tree.leafTexts := by
  cases tree <;> simp [wrapLeaf]

section

variable {options : Options}

theorem finish_eq_self (h : options.tagsWords = false) (tree : Tree) :
    finish options tree = tree := by
  rw [finish, h]
  rfl

theorem leafTexts_finish (tree : Tree) :
    List.Forall₂ Tagged tree.leafTexts (finish options tree).leafTexts := by
  cases h : options.tagsWords with
  | false =>
    rw [finish_eq_self h]
    exact tagged_refl _
  | true =>
    rw [finish, if_pos h, leafTexts_wrapLeaf]
    exact leafTexts_tagWords tree

/-! ### The whole of the passes -/

/-- The words that the options show of a tree, before they are tagged. -/
def shownWords (options : Options) (tree : Tree) : List Text :=
  frontier options.keeps options.spaces (strip options tree)

/-- Either there is no such word and the processed tree is empty, or it comes from tagging a tree
whose leaves are these words. -/
theorem process_cases (options : Options) (tree : Tree) :
    (process options tree = .group [] ∧ shownWords options tree = []) ∨
      ∃ pruned : Tree, process options tree = finish options pruned ∧
        pruned.leafTexts = shownWords options tree := by
  have shown : Shows (surviving? options (strip options tree)) (shownWords options tree) :=
    prune_shows options.keeps options.spaces (strip options tree)
  unfold process processStripped
  cases h : surviving? options (strip options tree) with
  | none => exact Or.inl ⟨rfl, shown.eq_none_iff.mp h⟩
  | some pruned =>
    rw [h] at shown
    exact Or.inr ⟨pruned, rfl, shown.leafTexts_eq⟩

/-- A processed tree shows those words, and some perhaps after a tag. -/
theorem tagged_leafTexts_process (options : Options) (tree : Tree) :
    List.Forall₂ Tagged (shownWords options tree) (process options tree).leafTexts := by
  rcases process_cases options tree with ⟨hempty, hnone⟩ | ⟨pruned, hfinish, hwords⟩
  · rw [hempty, hnone, leafTexts_group]
    exact .nil
  · rw [hfinish, ← hwords]
    exact leafTexts_finish pruned

/-- Where nothing is tagged, it shows exactly those words. -/
theorem leafTexts_process (h : options.tagsWords = false) (tree : Tree) :
    (process options tree).leafTexts = shownWords options tree := by
  rcases process_cases options tree with ⟨hempty, hnone⟩ | ⟨pruned, hfinish, hwords⟩
  · rw [hempty, hnone, leafTexts_group, List.flatMap_nil]
  · rw [hfinish, finish_eq_self h, hwords]

end

/-! ### Keeping selma'o -/

/-- Is every word below the label of a word class spelled with some letter? -/
def WordsSpelled (tree : Tree) : Prop :=
  ∀ node ∈ tree.morphologyNodes, ∀ label ∈ wordClassLabels,
    node.label? = some label → node.plainText ≠ ""

instance (tree : Tree) : Decidable tree.WordsSpelled :=
  inferInstanceAs (Decidable (∀ node ∈ tree.morphologyNodes, ∀ label ∈ wordClassLabels,
    node.label? = some label → node.plainText ≠ ""))

/-- Where letters are taken away, such a word is a leaf below its class. -/
theorem WordsSpelled.exists_leaf {tree : Tree} (h : tree.WordsSpelled) {label : Text}
    {children : List Tree} (hclass : label ∈ wordClassLabels)
    (hmem : labeled label children ∈ tree.withoutMorphology.subtrees) :
    ∃ text, leaf text ∈ shownChildren label children := by
  obtain ⟨hm, hspaces⟩ := isMorphologyLabel_of_wordClass hclass
  obtain ⟨letters, hnode, heq⟩ := exists_morphologyNode hm hmem
  have hspelled := h _ hnode label hclass rfl
  rw [word, if_neg hspelled] at heq
  obtain rfl := (Tree.labeled.inj heq).2
  rw [shownChildren_of_ne hspaces]
  exact ⟨_, List.mem_singleton_self _⟩

/-- The same words are shown, whether selma'o are kept or not. -/
theorem shownWords_selmaho (options : Options) {tree : Tree}
    (h : options.morphology = true ∨ tree.WordsSpelled) :
    shownWords { options with selmaho := true } tree =
      shownWords { options with selmaho := false } tree := by
  refine frontier_congr fun label children hmem => ?_
  rcases Bool.eq_false_or_eq_true options.morphology with hkeep | hstrip
  · exact Or.inl (keeps_bare_selmaho (Or.inl hkeep))
  · have hspelled : tree.WordsSpelled := h.resolve_left (by simp [hstrip])
    have hwords : strip { options with selmaho := true } tree = tree.withoutMorphology :=
      strip_eq_withoutMorphology hstrip tree
    rw [hwords] at hmem
    by_cases hclass : label ∈ wordClassLabels
    · exact Or.inr (hspelled.exists_leaf hclass hmem)
    · exact Or.inl (keeps_bare_selmaho (Or.inr hclass))

/-- **Keeping selma'o does not change the words.** With the letters of words kept, the words are
the same; without them, if no word below the label of a word class is empty, they are the same one
by one up to tags. -/
theorem leafTexts_process_selmaho (options : Options) (tree : Tree) :
    (options.morphology = true →
      (process { options with selmaho := true } tree).leafTexts =
        (process { options with selmaho := false } tree).leafTexts) ∧
    (options.morphology = false → tree.WordsSpelled →
      List.Forall₂ Tagged (process { options with selmaho := false } tree).leafTexts
        (process { options with selmaho := true } tree).leafTexts) := by
  have untagged : Options.tagsWords { options with selmaho := false } = false := rfl
  constructor
  · intro hmorphology
    have kept : Options.tagsWords { options with selmaho := true } = false := by
      simp [Options.tagsWords, hmorphology]
    rw [leafTexts_process kept, leafTexts_process untagged,
      shownWords_selmaho options (Or.inl hmorphology)]
  · intro _ hspelled
    rw [leafTexts_process untagged, ← shownWords_selmaho options (Or.inr hspelled)]
    exact tagged_leafTexts_process _ tree

/-- A root word in letters and an elided terminator, with words tagged and with letters kept. -/
theorem leafTexts_process_selmaho_terminator :
    (group [.labeled "gismu" [.leaf "k", .leaf "lama"], .labeled "VAU" []]).WordsSpelled ∧
    List.Forall₂ Tagged
      (process { terminators := true, selmaho := false }
        (.group [.labeled "gismu" [.leaf "k", .leaf "lama"], .labeled "VAU" []])).leafTexts
      (process { terminators := true, selmaho := true }
        (.group [.labeled "gismu" [.leaf "k", .leaf "lama"], .labeled "VAU" []])).leafTexts ∧
    (process { terminators := true, selmaho := true }
      (.group [.labeled "gismu" [.leaf "k", .leaf "lama"], .labeled "VAU" []])).leafTexts =
        (["G:klama", "VAU"] : List Text) ∧
    (process { terminators := true, morphology := true, selmaho := true }
        (.group [.labeled "gismu" [.leaf "k", .leaf "lama"], .labeled "VAU" []])).leafTexts =
      (process { terminators := true, morphology := true, selmaho := false }
        (.group [.labeled "gismu" [.leaf "k", .leaf "lama"], .labeled "VAU" []])).leafTexts :=
  ⟨by decide, (leafTexts_process_selmaho { terminators := true } _).2 rfl (by decide), by decide,
    (leafTexts_process_selmaho { terminators := true, morphology := true } _).1 rfl⟩

end LojbanTree.Tree
