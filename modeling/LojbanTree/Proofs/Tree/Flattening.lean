import LojbanTree.Proofs.Tree.Subtrees
import LojbanTree.Tree.ListForm
import LojbanTree.Tree.Morphology

/-!
Trees whose words are plain.

A tree is *flattened* when each branch that would hold the letters of a word holds the word itself,
and *readable* when the list form gives it back, which is so when no group begins with a leaf.
Main statements: taking the letters away gives a flattened tree (`flattened_withoutMorphology`) and
leaves a flattened tree alone (`withoutMorphology_eq_self`), and it keeps a readable tree readable
(`Readable.withoutMorphology`).
-/

namespace LojbanTree.Tree

/-! ### Flattened trees -/

/-- A morphology node has its word for its only child, or no child when the word is empty. -/
def HoldsWord : Tree → Prop
  | .labeled label children =>
    isMorphologyLabel label = true →
      children = [] ∨ ∃ text : Text, text ≠ "" ∧ children = [.leaf text]
  | _ => True

/-- Every morphology node holds its word plainly. -/
def Flattened (tree : Tree) : Prop :=
  tree.Every HoldsWord

theorem flattened_leaf (text : Text) : (leaf text).Flattened :=
  every_leaf.mpr trivial

theorem holdsWord_word (label text : Text) : (word label text).HoldsWord := by
  intro _
  by_cases h : text = ""
  · exact Or.inl (if_pos h)
  · exact Or.inr ⟨text, h, if_neg h⟩

/-- A word has no branch below it. -/
theorem flattened_word (label text : Text) : (word label text).Flattened := by
  refine every_labeled.mpr ⟨holdsWord_word label text, fun child hc => ?_⟩
  split at hc
  · cases hc
  · obtain rfl := List.mem_singleton.mp hc
    exact flattened_leaf text

/-- **Without the letters of words a tree is flattened.** -/
theorem flattened_withoutMorphology (tree : Tree) : tree.withoutMorphology.Flattened := by
  induction tree using morphologyInduction with
  | leaf text =>
    rw [withoutMorphology_leaf]
    exact flattened_leaf text
  | word label children hm =>
    rw [withoutMorphology_word hm]
    exact flattened_word label _
  | labeled label children hm ih =>
    rw [withoutMorphology_labeled hm]
    refine every_labeled.mpr ⟨fun h => ?_, List.forall_mem_map.mpr ih⟩
    rw [hm] at h
    cases h
  | group children ih =>
    rw [withoutMorphology_group]
    exact every_group.mpr ⟨trivial, List.forall_mem_map.mpr ih⟩

/-- A word takes the place of itself. -/
theorem withoutMorphology_of_holdsWord {label : Text} {children : List Tree}
    (hm : isMorphologyLabel label = true) (h : (labeled label children).HoldsWord) :
    (labeled label children).withoutMorphology = .labeled label children := by
  rw [withoutMorphology_word hm, word]
  rcases h hm with rfl | ⟨text, hne, rfl⟩
  · rfl
  · have hjoin : Text.join ([leaf text].flatMap leafTexts) = text := by simp
    rw [hjoin, if_neg hne]

/-- **A flattened tree has no letters to take away.** -/
theorem withoutMorphology_eq_self {tree : Tree} (h : tree.Flattened) :
    tree.withoutMorphology = tree := by
  have all : ∀ children : List Tree, (∀ child ∈ children, child.withoutMorphology = child) →
      children.map withoutMorphology = children :=
    fun children h => (List.map_congr_left h).trans (List.map_id children)
  induction tree using morphologyInduction with
  | leaf text => exact withoutMorphology_leaf text
  | word label children hm => exact withoutMorphology_of_holdsWord hm (every_labeled.mp h).1
  | labeled label children hm ih =>
    obtain ⟨_, hchildren⟩ := every_labeled.mp h
    rw [withoutMorphology_labeled hm, all children fun child hc => ih child hc (hchildren child hc)]
  | group children ih =>
    obtain ⟨_, hchildren⟩ := every_group.mp h
    rw [withoutMorphology_group, all children fun child hc => ih child hc (hchildren child hc)]

/-- Letters are taken away once and for all. -/
@[simp] theorem withoutMorphology_withoutMorphology (tree : Tree) :
    tree.withoutMorphology.withoutMorphology = tree.withoutMorphology :=
  withoutMorphology_eq_self (flattened_withoutMorphology tree)

/-! ### Readable trees -/

/-- A group that begins with a leaf would be read back as a labeled branch. -/
def ReadsBack : Tree → Prop
  | .group children => children.head?.any isLeaf = false
  | _ => True

/-- No group in the tree begins with a leaf. -/
def Readable (tree : Tree) : Prop :=
  tree.Every ReadsBack

theorem isLeaf_toTree_list (items : List ListForm) :
    (ListForm.list items).toTree.isLeaf = false := by
  by_cases h : ∃ label rest, items = .text label :: rest
  · obtain ⟨label, rest, rfl⟩ := h
    rw [ListForm.toTree_labeled]
    rfl
  · rw [ListForm.toTree_group fun label rest he => h ⟨label, rest, he⟩]
    rfl

/-- Every list form reads as such a tree. -/
theorem readable_toTree (form : ListForm) : form.toTree.Readable := by
  induction form using ListForm.treeInduction with
  | text text =>
    rw [ListForm.toTree_text]
    exact every_leaf.mpr trivial
  | labeled label items ih =>
    rw [ListForm.toTree_labeled]
    exact every_labeled.mpr ⟨trivial, List.forall_mem_map.mpr ih⟩
  | group items h ih =>
    rw [ListForm.toTree_group h]
    refine every_group.mpr ⟨?_, List.forall_mem_map.mpr ih⟩
    match items with
    | [] => rfl
    | .text label :: rest => exact absurd rfl (h label rest)
    | .list inner :: rest => exact isLeaf_toTree_list inner

/-- A group that does not begin with a leaf is no labeled branch in list form. -/
theorem map_toListForm_ne {children : List Tree} (h : (group children).ReadsBack)
    (label : Text) (rest : List ListForm) : children.map toListForm ≠ .text label :: rest := by
  intro he
  match children with
  | [] => cases he
  | .leaf text :: _ => cases h
  | .labeled _ _ :: _ => simp at he
  | .group _ :: _ => simp at he

/-- **A readable tree is what its list form reads as.** -/
theorem toTree_toListForm {tree : Tree} (h : tree.Readable) : tree.toListForm.toTree = tree := by
  have all : ∀ children : List Tree, (∀ child ∈ children, child.toListForm.toTree = child) →
      (children.map toListForm).map ListForm.toTree = children := by
    intro children h
    rw [List.map_map]
    exact (List.map_congr_left h).trans (List.map_id children)
  induction tree with
  | leaf text => rw [toListForm_leaf, ListForm.toTree_text]
  | labeled label children ih =>
    obtain ⟨_, hchildren⟩ := every_labeled.mp h
    rw [toListForm_labeled, ListForm.toTree_labeled,
      all children fun child hc => ih child hc (hchildren child hc)]
  | group children ih =>
    obtain ⟨hroot, hchildren⟩ := every_group.mp h
    rw [toListForm_group, ListForm.toTree_group (map_toListForm_ne hroot),
      all children fun child hc => ih child hc (hchildren child hc)]

@[simp] theorem isLeaf_withoutMorphology (tree : Tree) :
    tree.withoutMorphology.isLeaf = tree.isLeaf := by
  cases tree with
  | leaf text => rw [withoutMorphology_leaf]
  | labeled label children =>
    cases hm : isMorphologyLabel label with
    | true =>
      rw [withoutMorphology_word hm]
      rfl
    | false =>
      rw [withoutMorphology_labeled hm]
      rfl
  | group children =>
    rw [withoutMorphology_group]
    rfl

theorem readable_word (label text : Text) : (word label text).Readable := by
  refine every_labeled.mpr ⟨trivial, fun child hc => ?_⟩
  split at hc
  · cases hc
  · obtain rfl := List.mem_singleton.mp hc
    exact every_leaf.mpr trivial

/-- Taking letters away turns no branch into a leaf, so the tree stays readable. -/
theorem Readable.withoutMorphology {tree : Tree} (h : tree.Readable) :
    tree.withoutMorphology.Readable := by
  induction tree using morphologyInduction with
  | leaf text =>
    rw [withoutMorphology_leaf]
    exact h
  | word label children hm =>
    rw [withoutMorphology_word hm]
    exact readable_word label _
  | labeled label children hm ih =>
    obtain ⟨_, hchildren⟩ := every_labeled.mp h
    rw [withoutMorphology_labeled hm]
    exact every_labeled.mpr
      ⟨trivial, List.forall_mem_map.mpr fun child hc => ih child hc (hchildren child hc)⟩
  | group children ih =>
    obtain ⟨hroot, hchildren⟩ := every_group.mp h
    rw [withoutMorphology_group]
    refine every_group.mpr
      ⟨?_, List.forall_mem_map.mpr fun child hc => ih child hc (hchildren child hc)⟩
    rw [ReadsBack, List.head?_map, Option.any_map]
    rw [ReadsBack] at hroot
    rw [← hroot]
    congr 1
    funext child
    exact isLeaf_withoutMorphology child

end LojbanTree.Tree
