import LojbanTree.Proofs.Tree.NormalForm
import LojbanTree.Proofs.Tree.ProcessedShape
import LojbanTree.Proofs.Tree.Wrappers

/-!
Processing a processed tree.

The nodes of a processed tree have no letters left to take away, and pruning has nothing to do at
any of them, so only tagging could change the tree once more. It does so where a label that stays
as a branch comes to lie over a tagged word, which then passes for a word itself. Main statement:
processing twice is processing once, under exactly those options that do not keep the labels of
sentences beside tagged words (`process_process_iff`).
-/

namespace LojbanTree.Tree

variable {options : Options}

/-! ### Nodes of the result -/

/-- Where letters have gone, no label of a word is left on a branch. -/
theorem isMorphologyLabel_of_mayLabel (hletters : options.morphology = false) {label : Text}
    (h : options.MayLabel label) : isMorphologyLabel label = false := by
  rcases h with ⟨_, hbridi⟩ | ⟨hmorphology, _⟩
  · exact isMorphologyLabel_of_bridi hbridi
  · rw [hletters] at hmorphology
    cases hmorphology

/-- A label of the result is wanted over children, and blanks carry none. -/
theorem keeps_of_mayLabel {label : Text} (h : options.MayLabel label) :
    options.keeps label false = true ∧ label ≠ spacesLabel := by
  rcases h with ⟨hlabels, hbridi⟩ | ⟨_, hselmaho, hname⟩
  · constructor
    · exact keeps_bridi hlabels hbridi false
    · exact ne_spacesLabel_of_isMorphologyLabel (isMorphologyLabel_of_bridi hbridi)
  · constructor
    · simp [Options.keeps, hselmaho, hname]
    · exact (isMorphologyLabel_of_isName hname).2

/-- A result has no letters to take away. -/
theorem strip_of_every_resultNode {tree : Tree} (h : tree.Every (ResultNode options)) :
    strip options tree = tree := by
  cases hmorphology : options.morphology with
  | true => exact strip_eq_self hmorphology tree
  | false =>
    rw [strip_eq_withoutMorphology hmorphology]
    apply withoutMorphology_eq_self
    refine h.mono fun node hnode => ?_
    cases node with
    | leaf text => trivial
    | labeled label children =>
      intro hword
      rw [isMorphologyLabel_of_mayLabel hmorphology hnode.2] at hword
      cases hword
    | group children => trivial

/-- At the nodes of a result pruning finds nothing to do. -/
theorem surviving?_of_every_resultNode {tree : Tree} (h : tree.Every (ResultNode options)) :
    surviving? options tree = some tree := by
  apply prune_of_normal
  refine h.mono fun node hnode => ?_
  cases node with
  | leaf text => trivial
  | labeled label children =>
    obtain ⟨hkeeps, hspaces⟩ := keeps_of_mayLabel hnode.2
    exact ⟨hnode.1, hkeeps, fun heq => absurd heq hspaces⟩
  | group children => exact hnode

/-- So a result is only tagged once more. -/
theorem process_of_every_resultNode {tree : Tree} (h : tree.Every (ResultNode options)) :
    process options tree = finish options tree := by
  rw [process, strip_of_every_resultNode h, processStripped, surviving?_of_every_resultNode h]

/-! ### Tagging once more -/

/-- Without the labels of sentences, what has been tagged has no labeled branch. -/
theorem tagWords_of_every_resultNode {code? : Text → Option Text}
    (htags : options.tagsWords = true) (hlabels : options.nodeLabels = false) {tree : Tree}
    (h : tree.Every (ResultNode options)) : tagWords code? tree = tree := by
  induction tree with
  | leaf text => exact tagWords_leaf code? text
  | labeled label children ih =>
    obtain ⟨hyes, _⟩ | ⟨hmorphology, _⟩ := h.root.2
    · rw [hlabels] at hyes
      cases hyes
    · rw [(tagsWords_eq_true_iff.mp htags).2] at hmorphology
      cases hmorphology
  | group children ih =>
    obtain ⟨_, hchildren⟩ := every_group.mp h
    have same : children.map (tagWords code?) = children :=
      (List.map_congr_left fun child hc => ih child hc (hchildren child hc)).trans
        (List.map_id children)
    rw [tagWords_group, same]

/-- The group around a single leaf is not seen when the tree is processed. -/
theorem process_wrapLeaf (options : Options) (tree : Tree) :
    process options (wrapLeaf tree) = process options tree := by
  cases tree with
  | leaf text => exact (Alike.group_singleton (.leaf text)).process_eq
  | labeled label children => rfl
  | group children => rfl

theorem process_empty (options : Options) : process options (.group []) = .group [] := by
  rw [process, strip_group, List.map_nil, processStripped, surviving?, prune_group, pruneAll_nil]
  rfl

/-- Processing leaves a processed tree alone, unless labels of sentences stand beside tagged
words. -/
theorem process_process (h : options.tagsWords = true → options.nodeLabels = false)
    (tree : Tree) : process options (process options tree) = process options tree := by
  cases hsurviving : surviving? options (strip options tree) with
  | none =>
    have hempty : process options tree = .group [] := by
      rw [process, processStripped, hsurviving]
    rw [hempty, process_empty]
  | some pruned =>
    have hpruned := every_prunedNode hsurviving
    have hresult : process options tree = finish options pruned := by
      rw [process, processStripped, hsurviving]
    by_cases htags : options.tagsWords = true
    · have htagged : (tagWords wordClassCode? pruned).Every (ResultNode options) :=
        every_tagWords hpruned
      have hfinish : ∀ tree, finish options tree = wrapLeaf (tagWords wordClassCode? tree) :=
        fun tree => if_pos htags
      rw [hresult, hfinish, process_wrapLeaf, process_of_every_resultNode htagged, hfinish,
        tagWords_of_every_resultNode htags (h htags) htagged]
    · have hnode : pruned.Every (ResultNode options) :=
        hpruned.mono fun _ => PrunedNode.resultNode htags
      have hfinish : finish options pruned = pruned := if_neg htags
      rw [hresult, hfinish, process_of_every_resultNode hnode, hfinish]

/-- A sumti that stays around its tagged word is taken for a word when it comes back, whatever the
other options are. -/
theorem process_sumti (htags : options.tagsWords = true) (hlabels : options.nodeLabels = true) :
    process options (.labeled "sumti" [.labeled "KOhA" [.leaf "mi"]]) =
        .labeled "sumti" [.leaf "KOhA:mi"] ∧
      process options (.labeled "sumti" [.leaf "KOhA:mi"]) = .group [.leaf "sumti:KOhA:mi"] := by
  obtain ⟨spaces, morphology, nodeLabels, selmaho, terminators, json, style⟩ := options
  obtain ⟨hselmaho, hmorphology⟩ := tagsWords_eq_true_iff.mp htags
  dsimp only at hselmaho hmorphology hlabels
  subst hselmaho hmorphology hlabels
  cases terminators with
  | true => exact ⟨rfl, rfl⟩
  | false => exact ⟨rfl, rfl⟩

/-- **Processing is idempotent under exactly those options that do not keep the labels of sentences
beside tagged words**, whatever the tree is: one that is pruned away, one that is reduced to a
single word or any other. -/
theorem process_process_iff (options : Options) :
    (∀ tree, process options (process options tree) = process options tree) ↔
      ¬(options.selmaho = true ∧ options.nodeLabels = true ∧ options.morphology = false) := by
  constructor
  · rintro hsame ⟨hselmaho, hlabels, hmorphology⟩
    have htags := tagsWords_eq_true_iff.mpr ⟨hselmaho, hmorphology⟩
    obtain ⟨hfirst, hsecond⟩ := process_sumti htags hlabels
    have h := hsame (.labeled "sumti" [.labeled "KOhA" [.leaf "mi"]])
    rw [hfirst, hsecond] at h
    cases h
  · intro hno
    apply process_process
    intro htags
    obtain ⟨hselmaho, hmorphology⟩ := tagsWords_eq_true_iff.mp htags
    cases hlabels : options.nodeLabels with
    | false => rfl
    | true => exact absurd ⟨hselmaho, hlabels, hmorphology⟩ hno

end LojbanTree.Tree
