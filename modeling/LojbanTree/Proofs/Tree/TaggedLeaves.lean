import LojbanTree.Proofs.Tree.Outline
import LojbanTree.Tree.WordClass
import Mathlib.Data.List.Basic

/-!
Tagging leaf by leaf.

What happens to a leaf depends only on the branch just above it in the tree as it comes: if the leaf
is all that the branch holds, it takes the place of the branch, after a tag. A branch that comes to
hold a single leaf by this is not looked at again. Main statement: tagging gives each leaf its tag
or leaves it alone, in order, and keeps every branch that is not a word (`tagWords_leafwise`).
-/

namespace LojbanTree.Tree

/-! ### Leaves at their positions -/

/-- The text of a leaf and its position in a tree. -/
structure PlacedLeaf where
  position : List Nat
  text : Text
  deriving DecidableEq, Repr

/-- A leaf of a child, at its position in the whole tree. -/
def PlacedLeaf.below (number : Nat) (leaf : PlacedLeaf) : PlacedLeaf :=
  { leaf with position := number :: leaf.position }

mutual

/-- The leaves with their positions, from left to right. -/
def placedLeaves : Tree → List PlacedLeaf
  | .leaf text => [{ position := [], text := text }]
  | .labeled _ children => placedLeavesFrom 0 children
  | .group children => placedLeavesFrom 0 children

/-- The leaves of siblings, of which the first has the given number. -/
def placedLeavesFrom : Nat → List Tree → List PlacedLeaf
  | _, [] => []
  | number, tree :: siblings =>
    (placedLeaves tree).map (PlacedLeaf.below number) ++ placedLeavesFrom (number + 1) siblings

end

theorem placedLeavesFrom_eq_flatMap (number : Nat) (siblings : List Tree) :
    placedLeavesFrom number siblings =
      (siblings.zipIdx number).flatMap fun entry =>
        entry.1.placedLeaves.map (PlacedLeaf.below entry.2) := by
  induction siblings generalizing number with
  | nil => rfl
  | cons tree siblings ih => rw [placedLeavesFrom, ih, List.zipIdx_cons, List.flatMap_cons]

@[simp] theorem placedLeaves_leaf (text : Text) :
    (leaf text).placedLeaves = [{ position := [], text := text }] := by
  rw [placedLeaves]

theorem map_text_placedLeavesFrom {siblings : List Tree}
    (h : ∀ tree ∈ siblings, tree.placedLeaves.map PlacedLeaf.text = tree.leafTexts)
    (number : Nat) :
    (placedLeavesFrom number siblings).map PlacedLeaf.text = siblings.flatMap leafTexts := by
  induction siblings generalizing number with
  | nil => rfl
  | cons tree siblings ih =>
    obtain ⟨htree, hsiblings⟩ := List.forall_mem_cons.mp h
    rw [placedLeavesFrom, List.map_append, ih hsiblings, List.flatMap_cons, ← htree, List.map_map]
    rfl

/-- The leaves have the texts of the tree, in their order. -/
theorem map_text_placedLeaves (tree : Tree) :
    tree.placedLeaves.map PlacedLeaf.text = tree.leafTexts := by
  induction tree with
  | leaf text => rw [placedLeaves_leaf, leafTexts_leaf, List.map_singleton]
  | labeled label children ih =>
    rw [placedLeaves, leafTexts_labeled, map_text_placedLeavesFrom ih]
  | group children ih => rw [placedLeaves, leafTexts_group, map_text_placedLeavesFrom ih]

/-! ### What becomes of a leaf -/

/-- The branch just above a position. -/
def parentAt? (tree : Tree) : List Nat → Option Tree
  | [] => none
  | number :: below => tree.subtreeAt? (number :: below).dropLast

/-- The label of the word that has its text at a position: that of the branch just above, if there
is nothing else below this. -/
def wordLabelAt? (tree : Tree) (position : List Nat) : Option Text :=
  ((tree.parentAt? position).filter isSingleWord).bind label?

/-- A leaf of a tree after tagging: the text of a word stands in place of the word, after its tag,
and any other leaf is as it was. -/
def tagLeaf (code? : Text → Option Text) (tree : Tree) (leaf : PlacedLeaf) : PlacedLeaf :=
  match tree.wordLabelAt? leaf.position with
  | some label =>
    { position := leaf.position.dropLast, text := (code? label).getD label ++ ":" ++ leaf.text }
  | none => leaf

section

variable {code? : Text → Option Text} {tree child : Tree} {number : Nat}

/-- Below a branch that is not a word, the words are those of the children. -/
theorem wordLabelAt?_cons (hroot : tree.isSingleWord = false)
    (hchild : tree.children[number]? = some child) (below : List Nat) :
    tree.wordLabelAt? (number :: below) = child.wordLabelAt? below := by
  cases below with
  | nil =>
    rw [wordLabelAt?, parentAt?, List.dropLast_singleton, subtreeAt?_nil,
      Option.filter_some_neg (by simp [hroot])]
    rfl
  | cons next rest =>
    rw [wordLabelAt?, parentAt?, List.dropLast_cons_cons, subtreeAt?, hchild, Option.bind_some]
    rfl

theorem tagLeaf_below (hroot : tree.isSingleWord = false)
    (hchild : tree.children[number]? = some child) (leaf : PlacedLeaf) :
    tree.tagLeaf code? (leaf.below number) = (child.tagLeaf code? leaf).below number := by
  obtain ⟨position, text⟩ := leaf
  rw [tagLeaf, PlacedLeaf.below, wordLabelAt?_cons hroot hchild, tagLeaf]
  cases hlabel : child.wordLabelAt? position with
  | none => rfl
  | some label =>
    cases position with
    | nil => cases hlabel
    | cons next rest => rfl

/-- Any branch but a word is tagged child by child. -/
theorem children_tagWords (hroot : tree.isSingleWord = false) :
    (tagWords code? tree).children = tree.children.map (tagWords code?) := by
  cases tree with
  | leaf text =>
    rw [tagWords_leaf]
    rfl
  | labeled label children =>
    rw [tagWords_labeled]
    · rfl
    · rintro text rfl
      cases hroot
  | group children =>
    rw [tagWords_group]
    rfl

/-- The leaves of children that are tagged leaf by leaf, seen from the branch. -/
theorem placedLeavesFrom_tagWords (hroot : tree.isSingleWord = false)
    (h : ∀ child ∈ tree.children,
      (tagWords code? child).placedLeaves = child.placedLeaves.map (child.tagLeaf code?)) :
    placedLeavesFrom 0 (tree.children.map (tagWords code?)) =
      (placedLeavesFrom 0 tree.children).map (tree.tagLeaf code?) := by
  rw [placedLeavesFrom_eq_flatMap, placedLeavesFrom_eq_flatMap, List.zipIdx_map, List.flatMap_map,
    List.map_flatMap]
  apply List.flatMap_congr
  rintro ⟨child, number⟩ hentry
  have hchild : tree.children[number]? = some child := List.mk_mem_zipIdx_iff_getElem?.mp hentry
  simp only [Prod.map_fst, Prod.map_snd, id_eq]
  rw [h child (List.mem_of_getElem? hchild), List.map_map, List.map_map]
  exact List.map_congr_left fun leaf _ => (tagLeaf_below hroot hchild leaf).symm

/-- Tagging does to each leaf what the branch above it calls for. By induction over the words and
the other branches: what is a word is settled in the tree as it comes, and the branches above do not
see what has become of it. -/
theorem placedLeaves_tagWords (code? : Text → Option Text) (tree : Tree) :
    (tagWords code? tree).placedLeaves = tree.placedLeaves.map (tree.tagLeaf code?) := by
  induction tree using wordInduction with
  | leaf text =>
    rw [tagWords_leaf, placedLeaves_leaf]
    rfl
  | word label text =>
    rw [tagWords_word, placedLeaves_leaf]
    rfl
  | labeled label children hno ih =>
    have hroot : (labeled label children).isSingleWord = false := by
      apply Bool.eq_false_iff.mpr
      intro hword
      obtain ⟨text, hleaf⟩ := isSingleWord_labeled_iff.mp hword
      exact hno text hleaf
    rw [tagWords_labeled code? label hno, placedLeaves, placedLeaves]
    exact placedLeavesFrom_tagWords hroot ih
  | group children ih =>
    have hroot : (group children).isSingleWord = false := rfl
    rw [tagWords_group, placedLeaves, placedLeaves]
    exact placedLeavesFrom_tagWords hroot ih

/-! ### The branches -/

/-- All that is found at or below a leaf is the leaf. -/
theorem isLeaf_of_subtreeAt? {tree node : Tree} {position : List Nat} (h : tree.isLeaf = true)
    (hnode : tree.subtreeAt? position = some node) : node.isLeaf = true := by
  cases position with
  | nil =>
    rw [subtreeAt?_nil] at hnode
    rw [← Option.some.inj hnode]
    exact h
  | cons number below =>
    obtain ⟨child, hchild, _⟩ := subtreeAt?_cons_eq_some_iff.mp hnode
    cases tree with
    | leaf text => cases hchild
    | labeled label children => cases h
    | group children => cases h

/-- The only child of a word is its text. -/
theorem isLeaf_of_isSingleWord (hword : tree.isSingleWord = true)
    (hchild : tree.children[number]? = some child) : child.isLeaf = true := by
  cases tree with
  | leaf text => cases hword
  | group children => cases hword
  | labeled label children =>
    obtain ⟨text, rfl⟩ := isSingleWord_labeled_iff.mp hword
    obtain rfl := List.mem_singleton.mp (List.mem_of_getElem? hchild)
    rfl

/-- Above a branch there is no word. -/
theorem clearAbove_of_branch {tree node : Tree} {position : List Nat}
    (hnode : tree.subtreeAt? position = some node) (hbranch : node.isLeaf = false) :
    tree.ClearAbove isSingleWord position := by
  intro depth hdepth above habove
  apply Bool.eq_false_iff.mpr
  intro hword
  have hbelow : above.subtreeAt? (position.drop depth) = some node := by
    rw [← List.take_append_drop depth position, subtreeAt?_append, habove] at hnode
    exact hnode
  rw [List.drop_eq_getElem_cons hdepth] at hbelow
  obtain ⟨child, hchild, hrest⟩ := subtreeAt?_cons_eq_some_iff.mp hbelow
  rw [isLeaf_of_subtreeAt? (isLeaf_of_isSingleWord hword hchild) hrest] at hbranch
  cases hbranch

theorem sameKind_tagWords (hword : tree.isSingleWord = false) :
    SameKind tree (tagWords code? tree) := by
  cases tree with
  | leaf text =>
    rw [tagWords_leaf]
    exact .leaf text
  | labeled label children =>
    rw [tagWords_labeled]
    · exact .labeled label children _
    · rintro text rfl
      cases hword
  | group children =>
    rw [tagWords_group]
    exact .group children _

/-- **Tagging goes leaf by leaf**, each as the tree has it. The leaves of the tagged tree are those
of the tree in their order, the text of a word in place of the word and after its tag, and any other
where and as it was; and every branch that is not a word is found where it was, of its kind, with
its label and as many children. -/
theorem tagWords_leafwise (code? : Text → Option Text) (tree : Tree) :
    (tagWords code? tree).placedLeaves = tree.placedLeaves.map (tree.tagLeaf code?) ∧
      (tagWords code? tree).leafTexts =
        tree.placedLeaves.map (fun leaf => (tree.tagLeaf code? leaf).text) ∧
      ∀ position node, tree.subtreeAt? position = some node → node.isLeaf = false →
        node.isSingleWord = false →
        ∃ image, (tagWords code? tree).subtreeAt? position = some image ∧ SameKind node image ∧
          image.children.length = node.children.length := by
  refine ⟨placedLeaves_tagWords code? tree, ?_, ?_⟩
  · rw [← map_text_placedLeaves, placedLeaves_tagWords, List.map_map]
    rfl
  · intro position node hnode hbranch hword
    have hclear := clearAbove_of_branch hnode hbranch
    refine ⟨tagWords code? node, ?_, sameKind_tagWords hword, ?_⟩
    · rw [subtreeAt?_of_clearAbove (fun _ => children_tagWords) hclear, hnode, Option.map_some]
    · rw [children_tagWords hword, List.length_map]

/-- A word alone in a sumti gets a tag, and the sumti that is left with a single leaf gets none. -/
theorem tagWords_leafwise_sumti :
    (tagWords wordClassCode? (.labeled "sumti" [.labeled "KOhA" [.leaf "mi"]])).placedLeaves =
      [{ position := [0], text := "KOhA:mi" }] ∧
    ∃ image, (tagWords wordClassCode?
        (.labeled "sumti" [.labeled "KOhA" [.leaf "mi"]])).subtreeAt? [] = some image ∧
      SameKind (.labeled "sumti" [.labeled "KOhA" [.leaf "mi"]]) image ∧
      image.children.length = 1 := by
  obtain ⟨leaves, _, branches⟩ :=
    tagWords_leafwise wordClassCode? (.labeled "sumti" [.labeled "KOhA" [.leaf "mi"]])
  refine ⟨?_, branches [] _ rfl rfl rfl⟩
  rw [leaves]
  rfl

end

end LojbanTree.Tree
