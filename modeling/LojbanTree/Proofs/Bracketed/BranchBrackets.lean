import LojbanTree.Proofs.Bracketed.Nesting
import LojbanTree.Rendering

/-!
The brackets of a tree in its flat text.

The labels and texts of most trees hold no brackets of their own, though they may hold quotes,
commas, blanks or control characters. Then the brackets of the flat text are those of the branches,
one matched pair each, in the order and nesting of the branches. Main statement: the flat text of a
processed tree has its bracket word, so that the glyphs are chosen at natural depths only
(`brackets_flatChars`).
-/

namespace LojbanTree

open Bracketed Text

namespace Tree

mutual

/-- The brackets of a tree: a pair around those of its children for each branch, and none for a
leaf. -/
def bracketWord : Tree → List CodePoint
  | .leaf _ => []
  | .labeled _ children => .char '[' :: (bracketWordAll children ++ [.char ']'])
  | .group children => .char '[' :: (bracketWordAll children ++ [.char ']'])

/-- The brackets of siblings. -/
def bracketWordAll : List Tree → List CodePoint
  | [] => []
  | tree :: siblings => bracketWord tree ++ bracketWordAll siblings

end

theorem bracketWordAll_eq_flatMap (siblings : List Tree) :
    bracketWordAll siblings = siblings.flatMap bracketWord := by
  induction siblings with
  | nil => rfl
  | cons tree siblings ih => simp [bracketWordAll, ih]

@[simp] theorem bracketWord_leaf (text : Text) : (leaf text).bracketWord = [] := by
  rw [bracketWord]

@[simp] theorem bracketWord_labeled (label : Text) (children : List Tree) :
    (labeled label children).bracketWord =
      .char '[' :: (children.flatMap bracketWord ++ [.char ']']) := by
  rw [bracketWord, bracketWordAll_eq_flatMap]

@[simp] theorem bracketWord_group (children : List Tree) :
    (group children).bracketWord = .char '[' :: (children.flatMap bracketWord ++ [.char ']']) := by
  rw [bracketWord, bracketWordAll_eq_flatMap]

/-- The brackets of a tree match. -/
theorem balanced_bracketWord (tree : Tree) : Balanced tree.bracketWord := by
  induction tree with
  | leaf text =>
    rw [bracketWord_leaf]
    exact balanced_nil
  | labeled label children ih =>
    rw [bracketWord_labeled]
    exact (balanced_flatMap ih).enclose
  | group children ih =>
    rw [bracketWord_group]
    exact (balanced_flatMap ih).enclose

end Tree

/-! ### Brackets in JSON text -/

/-- A text without brackets. -/
def Bracketless (text : List CodePoint) : Prop :=
  ∀ c ∈ text, isBracket c = false

/-- No escape is written with a bracket. -/
theorem filter_escapeChar {c : CodePoint} (h : isBracket c = false) :
    (escapeChar c).filter isBracket = [] := by
  have control : ∀ code ∈ List.range 0x20,
      (CodePoint.char '\\' :: .char 'u' :: (Text.hexDigits 4 code).map .char).filter isBracket =
        [] := by decide
  unfold escapeChar
  split
  case h_8 =>
    split
    · rename_i hlow
      exact control c.toNat (List.mem_range.mpr hlow)
    · rw [List.filter_cons_of_neg (by simp [h]), List.filter_nil]
  all_goals rfl

theorem filter_quoteText {s : Text} (h : Bracketless s.toList) :
    (quoteText s).filter isBracket = [] := by
  have letters : (s.toList.flatMap escapeChar).filter isBracket = [] := by
    rw [List.filter_flatMap, List.flatMap_eq_nil_iff]
    intro c hc
    exact filter_escapeChar (h c hc)
  have hquote : isBracket '"' = false := rfl
  rw [quoteText, List.filter_cons_of_neg (by simp [hquote]), List.filter_append, letters]
  rfl

namespace Tree

/-- The brackets of the compact JSON text of a tree are those of its branches. -/
def ShowsBrackets (tree : Tree) : Prop :=
  ∀ depth, (tree.toListForm.encodeAt .compact depth).filter isBracket = tree.bracketWord

section

variable {children : List Tree} (each : ∀ child ∈ children, child.ShowsBrackets) (depth : Nat)

include each

/-- The children after the first item, and the closing bracket of their branch. -/
theorem filter_encodeRest :
    (ListForm.encodeRest .compact depth (children.map toListForm)).filter isBracket =
      children.flatMap bracketWord ++ [.char ']'] := by
  induction children with
  | nil => rfl
  | cons child children ih =>
    obtain ⟨hchild, hchildren⟩ := List.forall_mem_cons.mp each
    rw [List.map_cons, ListForm.encodeRest, List.filter_cons_of_neg (by decide), Layout.gap,
      List.nil_append, List.filter_append, hchild, ih hchildren, List.flatMap_cons,
      List.append_assoc]

theorem showsBrackets_labeled {label : Text} (hlabel : Bracketless label.toList) :
    (labeled label children).ShowsBrackets := by
  intro depth
  rw [toListForm_labeled, ListForm.encodeAt, List.filter_cons_of_pos (by decide), Layout.gap,
    List.nil_append, ListForm.encodeAt, List.filter_append, filter_quoteText hlabel,
    filter_encodeRest each, List.nil_append, bracketWord_labeled]

theorem showsBrackets_group : (group children).ShowsBrackets := by
  intro depth
  rw [toListForm_group, bracketWord_group]
  cases children with
  | nil => rfl
  | cons child children =>
    obtain ⟨hchild, hchildren⟩ := List.forall_mem_cons.mp each
    rw [List.map_cons, ListForm.encodeAt, List.filter_cons_of_pos (by decide), Layout.gap,
      List.nil_append, List.filter_append, hchild, filter_encodeRest hchildren, List.flatMap_cons,
      List.append_assoc]

end

/-- By induction on the tree: what stands between the brackets of a branch are the texts of its
names, which hold none, and its children. -/
theorem showsBrackets {tree : Tree} (h : tree.Spelled fun c => isBracket c = false) :
    tree.ShowsBrackets := by
  induction tree with
  | leaf text =>
    intro depth
    rw [toListForm_leaf, ListForm.encodeAt, bracketWord_leaf]
    exact filter_quoteText (spelled_leaf.mp h)
  | labeled label children ih =>
    obtain ⟨hlabel, hchildren⟩ := spelled_labeled.mp h
    exact showsBrackets_labeled (fun child hc => ih child hc (hchildren child hc)) hlabel
  | group children ih =>
    have hchildren := spelled_group.mp h
    exact showsBrackets_group fun child hc => ih child hc (hchildren child hc)

/-! ### Brackets in flat text -/

/-- The flat text of a tree has the brackets of the tree. -/
theorem filter_flatten (nodeLabels : Bool) {tree : Tree}
    (h : tree.Spelled fun c => isBracket c = false) :
    (flattenChars nodeLabels (tree.encodeChars .compact)).filter isBracket = tree.bracketWord := by
  rw [filter_flattenChars]
  exact showsBrackets h 0

/-- So the brackets of the flat text match. -/
theorem balanced_flatten (nodeLabels : Bool) {tree : Tree}
    (h : tree.Spelled fun c => isBracket c = false) :
    Balanced (flattenChars nodeLabels (tree.encodeChars .compact)) := by
  apply balanced_of_filter
  rw [filter_flatten nodeLabels h]
  exact balanced_bracketWord tree

/-- **The brackets of the text that is shaped are those of the processed tree**, wherever the
labels and texts of the tree hold none. So the depth is never negative and zero at the end, and
each bracket gets the glyph and the numeral of a natural depth. -/
theorem brackets_flatChars {options : Options} (hstyle : options.style = .prettified)
    (hjson : options.json = false) {tree : Tree}
    (hspelled : tree.Spelled fun c => isBracket c = false) :
    tree.render options = Text.ofList (shapeFrom 0 (flatChars options tree)) ∧
      (flatChars options tree).filter isBracket = (process options tree).bracketWord ∧
      Balanced (flatChars options tree) ∧
      (∀ before after, flatChars options tree = before ++ .char '[' :: after →
        ∃ depth : Nat, netDepth before = depth ∧
          shapeFrom 0 (flatChars options tree) = shapeFrom 0 before ++
            openGlyph depth :: (roundNumeralChars depth ++ shapeFrom (depth + 1) after)) ∧
      (∀ before after, flatChars options tree = before ++ .char ']' :: after →
        ∃ depth : Nat, netDepth before = depth + 1 ∧
          shapeFrom 0 (flatChars options tree) = shapeFrom 0 before ++
            (roundNumeralChars depth ++ closeGlyph depth :: shapeFrom depth after)) := by
  have added : ∀ c ∈ addedCharacters, isBracket c = false :=
    fun _ hc => isBracket_eq_false_of_isPlain (isPlain_of_mem_addedCharacters hc)
  have processed : (process options tree).Spelled fun c => isBracket c = false :=
    spelled_process options added hspelled
  have balanced : Balanced (flatChars options tree) := balanced_flatten options.nodeLabels processed
  refine ⟨?rendered, filter_flatten options.nodeLabels processed, balanced, ?opening, ?closing⟩
  case rendered => simp [render, renderChars, hstyle, hjson]
  case opening =>
    intro before after heq
    have nested := balanced.nested
    rw [heq] at nested ⊢
    exact nested.shapeFrom_openBracket
  case closing =>
    intro before after heq
    have nested := balanced.nested
    rw [heq] at nested ⊢
    exact nested.shapeFrom_closeBracket

/-- Quotes, commas, blanks, a backslash and a line break in the texts of three branches. -/
theorem brackets_flatChars_texts :
    Options.style { nodeLabels := true } = .prettified ∧
    Options.json { nodeLabels := true } = false ∧
    (labeled "sentence"
      [.leaf "\",\"", .labeled "sumti" [.leaf "\\ \n", .leaf "spaces"], .group []]).Spelled
        (fun c => isBracket c = false) ∧
    (flatChars { nodeLabels := true } (.labeled "sentence"
      [.leaf "\",\"", .labeled "sumti" [.leaf "\\ \n", .leaf "spaces"], .group []])).filter
        isBracket = (Text.ofString "[[]]").toList ∧
    Balanced (flatChars { nodeLabels := true } (.labeled "sentence"
      [.leaf "\",\"", .labeled "sumti" [.leaf "\\ \n", .leaf "spaces"], .group []])) := by
  have style : Options.style { nodeLabels := true } = .prettified := rfl
  have spelled : (labeled "sentence"
      [.leaf "\",\"", .labeled "sumti" [.leaf "\\ \n", .leaf "spaces"], .group []]).Spelled
        fun c => isBracket c = false := by decide
  obtain ⟨_, word, balanced, _⟩ := brackets_flatChars style rfl spelled
  exact ⟨style, rfl, spelled, word.trans (by decide), balanced⟩

end Tree

end LojbanTree
