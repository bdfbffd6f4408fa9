import LojbanTree.Proofs.Tree.Survivors
import LojbanTree.Tree.Processing

/-!
The code points of a processed tree.

The passes over a tree take the code points of its labels and texts, and add few of their own: `_`
for blanks, the colon before the text of a word and the codes of the word classes. So a condition
on single code points that these satisfy passes from a tree to the processed tree
(`spelled_process`).
-/

namespace LojbanTree.Tree

/-- The label of a branch or the text of a leaf. -/
def name? : Tree → Option Text
  | .leaf text => some text
  | .labeled label _ => some label
  | .group _ => none

/-- Do all code points of the labels and leaf texts have a property? -/
def Spelled (P : CodePoint → Prop) (tree : Tree) : Prop :=
  tree.Every fun node => ∀ name ∈ node.name?, ∀ c ∈ name.toList, P c

instance (P : CodePoint → Prop) [DecidablePred P] (tree : Tree) : Decidable (tree.Spelled P) :=
  haveI (name : Text) : Decidable (∀ c ∈ name.toList, P c) := List.decidableBAll P name.toList
  inferInstanceAs (Decidable (tree.Every fun node => ∀ name ∈ node.name?, ∀ c ∈ name.toList, P c))

section

variable {P : CodePoint → Prop} {tree : Tree} {label : Text} {children : List Tree}

@[simp] theorem spelled_leaf {text : Text} :
    (leaf text).Spelled P ↔ ∀ c ∈ text.toList, P c := by
  simp [Spelled, name?]

@[simp] theorem spelled_labeled :
    (labeled label children).Spelled P ↔
      (∀ c ∈ label.toList, P c) ∧ ∀ child ∈ children, child.Spelled P := by
  simp [Spelled, name?]

@[simp] theorem spelled_group :
    (group children).Spelled P ↔ ∀ child ∈ children, child.Spelled P := by
  simp [Spelled, name?]

/-- The leaf texts of a tree are spelled as its names are. -/
theorem Spelled.leafTexts (h : tree.Spelled P) :
    ∀ text ∈ tree.leafTexts, ∀ c ∈ text.toList, P c := by
  induction tree with
  | leaf text => simpa using h
  | labeled label children ih =>
    intro text ht
    rw [leafTexts_labeled, List.mem_flatMap] at ht
    obtain ⟨child, hc, ht⟩ := ht
    exact ih child hc ((spelled_labeled.mp h).2 child hc) text ht
  | group children ih =>
    intro text ht
    rw [leafTexts_group, List.mem_flatMap] at ht
    obtain ⟨child, hc, ht⟩ := ht
    exact ih child hc (spelled_group.mp h child hc) text ht

/-! ### The passes -/

/-- The text of a word is made of leaf texts. -/
theorem spelled_withoutMorphology (h : tree.Spelled P) : tree.withoutMorphology.Spelled P := by
  induction tree with
  | leaf text => simpa using h
  | labeled label children ih =>
    obtain ⟨hl, hcs⟩ := spelled_labeled.mp h
    by_cases hm : isMorphologyLabel label = true
    · have joined : ∀ c ∈ (Text.join (children.flatMap Tree.leafTexts)).toList, P c := by
        intro c hc
        rw [Text.toList_join, List.mem_flatMap] at hc
        obtain ⟨text, ht, hc⟩ := hc
        obtain ⟨child, hchild, ht⟩ := List.mem_flatMap.mp ht
        exact (hcs child hchild).leafTexts text ht c hc
      rw [withoutMorphology_word hm, word]
      split
      · exact spelled_labeled.mpr ⟨hl, fun _ hn => absurd hn List.not_mem_nil⟩
      · refine spelled_labeled.mpr ⟨hl, fun child hc => ?_⟩
        rw [List.mem_singleton.mp hc]
        exact spelled_leaf.mpr joined
    · rw [withoutMorphology_labeled (by simpa using hm), spelled_labeled]
      refine ⟨hl, List.forall_mem_map.mpr fun child hc => ?_⟩
      exact ih child hc (hcs child hc)
  | group children ih =>
    rw [withoutMorphology_group, spelled_group]
    exact List.forall_mem_map.mpr fun child hc => ih child hc (spelled_group.mp h child hc)

/-- Pruning adds the blank. -/
theorem spelled_of_prune_eq_some {keep : Text → Bool → Bool} {spaces : Bool} {result : Tree}
    (hblank : P '_') (h : tree.Spelled P) (hr : prune keep spaces tree = some result) :
    result.Spelled P := by
  refine every_of_prune_eq_some ?_ ?_ ?_ ?_ ?_ hr
  · intro text hm
    exact h _ hm
  · intro label below hm name hn
    obtain rfl := Option.some.inj hn
    exact h _ hm label rfl
  · intro name hn c hc
    obtain rfl := Option.some.inj hn
    obtain rfl := List.mem_singleton.mp hc
    exact hblank
  · intro survivors _ name hn
    cases hn
  · intro label below hm _ _ _ name hn
    obtain rfl := Option.some.inj hn
    exact h _ hm label rfl

/-- Tagging adds the colon and the codes of the word classes. -/
theorem spelled_tagWords {code? : Text → Option Text} (hcolon : P ':')
    (hcode : ∀ label code, code? label = some code → ∀ c ∈ code.toList, P c)
    (h : tree.Spelled P) : (tagWords code? tree).Spelled P := by
  induction tree using wordInduction with
  | leaf text => simpa using h
  | word label text =>
    obtain ⟨hl, ht⟩ := spelled_labeled.mp h
    have hclass : ∀ c ∈ ((code? label).getD label).toList, P c := by
      cases hk : code? label with
      | none => exact hl
      | some code => exact hcode label code hk
    rw [tagWords_word, spelled_leaf, taggedText]
    intro c hc
    rw [Text.toList_append, Text.toList_append, List.mem_append, List.mem_append] at hc
    rcases hc with (hc | hc) | hc
    · exact hclass c hc
    · obtain rfl := List.mem_singleton.mp hc
      exact hcolon
    · exact spelled_leaf.mp (ht _ List.mem_cons_self) c hc
  | labeled label children hne ih =>
    obtain ⟨hl, hcs⟩ := spelled_labeled.mp h
    rw [tagWords_labeled code? label hne, spelled_labeled]
    exact ⟨hl, List.forall_mem_map.mpr fun child hc => ih child hc (hcs child hc)⟩
  | group children ih =>
    rw [tagWords_group, spelled_group]
    exact List.forall_mem_map.mpr fun child hc => ih child hc (spelled_group.mp h child hc)

/-- The characters that the passes add. -/
def addedCharacters : List CodePoint := ['_', ':', 'C', 'G', 'L', 'Z']

theorem mem_addedCharacters_of_wordClassCode? {label code : Text}
    (h : wordClassCode? label = some code) : ∀ c ∈ code.toList, c ∈ addedCharacters := by
  have all : ∀ entry ∈ wordClassCodes, ∀ c ∈ entry.2.toList, c ∈ addedCharacters := by decide
  obtain ⟨before, after, hcodes, -⟩ := List.lookup_eq_some_iff.mp h
  exact all (label, code) (hcodes ▸ List.mem_append_right before List.mem_cons_self)

theorem spelled_strip (options : Options) (h : tree.Spelled P) :
    (strip options tree).Spelled P := by
  unfold strip
  split
  · exact h
  · exact spelled_withoutMorphology h

/-- **A condition on code points passes to the processed tree**, if the ones that the passes
add satisfy it. -/
theorem spelled_process (options : Options) (hadded : ∀ c ∈ addedCharacters, P c)
    (h : tree.Spelled P) : (process options tree).Spelled P := by
  unfold process processStripped
  cases hr : surviving? options (strip options tree) with
  | none => exact spelled_group.mpr fun _ hn => absurd hn List.not_mem_nil
  | some pruned =>
    have hpruned : pruned.Spelled P :=
      spelled_of_prune_eq_some (hadded _ (by decide)) (spelled_strip options h) hr
    show (finish options pruned).Spelled P
    unfold finish
    split
    · have htagged : (tagWords wordClassCode? pruned).Spelled P :=
        spelled_tagWords (hadded _ (by decide))
          (fun label code hk c hc => hadded c (mem_addedCharacters_of_wordClassCode? hk c hc))
          hpruned
      unfold wrapLeaf
      split
      · rename_i text heq
        rw [heq] at htagged
        exact spelled_group.mpr fun child hc => (List.mem_singleton.mp hc) ▸ htagged
      · exact htagged
    · exact hpruned

end

end LojbanTree.Tree
