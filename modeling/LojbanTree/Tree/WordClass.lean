import LojbanTree.Tree.Basic

/-!
Words with their class.

A labeled branch over a single leaf is a word with its class. `tagWords` puts a leaf in its place
that names the class, by a short code if it has one, before the text. A branch that comes to lie
over a single leaf only in this way is left alone.
-/

namespace LojbanTree

/-- The word classes that have a short code, and their codes. -/
def wordClassCodes : List (Text × Text) :=
  [("cmene", "C"), ("cmevla", "C"), ("gismu", "G"), ("lujvo", "L"), ("fuhivla", "Z")]

/-- The short code of a word class. -/
def wordClassCode? (label : Text) : Option Text :=
  wordClassCodes.lookup label

namespace Tree

/-- Is the tree a labeled branch over a single leaf? -/
def isSingleWord : Tree → Bool
  | .labeled _ [.leaf _] => true
  | _ => false

theorem isSingleWord_labeled_iff {label : Text} {children : List Tree} :
    (labeled label children).isSingleWord = true ↔ ∃ text, children = [.leaf text] := by
  constructor
  · intro h
    unfold isSingleWord at h
    split at h
    · rename_i text heq
      exact ⟨text, (Tree.labeled.inj heq).2⟩
    · cases h
  · rintro ⟨text, rfl⟩
    rfl

/-- The text of a word after the code of its class, or after its label if the class has none. -/
def taggedText (code? : Text → Option Text) (label text : Text) : Text :=
  (code? label).getD label ++ ":" ++ text

mutual

/-- The tree with a single tagged leaf in place of each word. -/
def tagWords (code? : Text → Option Text) : Tree → Tree
  | .leaf text => .leaf text
  | .labeled label [.leaf text] => .leaf (taggedText code? label text)
  | .labeled label children => .labeled label (tagWordsAll code? children)
  | .group children => .group (tagWordsAll code? children)

/-- Siblings with a single tagged leaf in place of each word. -/
def tagWordsAll (code? : Text → Option Text) : List Tree → List Tree
  | [] => []
  | tree :: siblings => tagWords code? tree :: tagWordsAll code? siblings

end

theorem tagWordsAll_eq_map (code? : Text → Option Text) (siblings : List Tree) :
    tagWordsAll code? siblings = siblings.map (tagWords code?) := by
  induction siblings with
  | nil => rfl
  | cons tree siblings ih => simp [tagWordsAll, ih]

/-- Induction over trees that tells words from other labeled branches. -/
@[elab_as_elim]
theorem wordInduction {motive : Tree → Prop}
    (leaf : ∀ text, motive (.leaf text))
    (word : ∀ label text, motive (.labeled label [.leaf text]))
    (labeled : ∀ label children, (∀ text, children ≠ [.leaf text]) →
      (∀ child ∈ children, motive child) → motive (.labeled label children))
    (group : ∀ children, (∀ child ∈ children, motive child) → motive (.group children))
    (tree : Tree) : motive tree := by
  induction tree with
  | leaf text => exact leaf text
  | labeled label children ih =>
    by_cases h : ∃ text, children = [.leaf text]
    · obtain ⟨text, rfl⟩ := h
      exact word label text
    · exact labeled label children (fun text he => h ⟨text, he⟩) ih
  | group children ih => exact group children ih

@[simp] theorem tagWords_leaf (code? : Text → Option Text) (text : Text) :
    tagWords code? (.leaf text) = .leaf text := by
  rw [tagWords]

/-- A word becomes a leaf. -/
@[simp] theorem tagWords_word (code? : Text → Option Text) (label text : Text) :
    tagWords code? (.labeled label [.leaf text]) = .leaf (taggedText code? label text) := by
  rw [tagWords]

/-- Any other labeled branch keeps its label. -/
theorem tagWords_labeled (code? : Text → Option Text) (label : Text) {children : List Tree}
    (h : ∀ text, children ≠ [.leaf text]) :
    tagWords code? (.labeled label children) = .labeled label (children.map (tagWords code?)) := by
  rw [tagWords, tagWordsAll_eq_map]
  rintro text rfl
  exact h text rfl

@[simp] theorem tagWords_group (code? : Text → Option Text) (children : List Tree) :
    tagWords code? (.group children) = .group (children.map (tagWords code?)) := by
  rw [tagWords, tagWordsAll_eq_map]

end Tree

end LojbanTree
