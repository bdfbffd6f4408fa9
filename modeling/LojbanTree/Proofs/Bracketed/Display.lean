import LojbanTree.Proofs.Bracketed.Items
import LojbanTree.Rendering

/-!
The text of a tree, printed directly.

`displayAt` prints a list form by recursion on its items and the depth of its brackets: each branch
between the glyphs of its depth, its items apart by blanks. Main statement: where no label and no
text of a tree holds a character that means something in JSON or between brackets, the text that
shows the tree, which is made from JSON text by substitutions, is what the direct printer gives for
the processed tree (`render_eq_display`).
-/

namespace LojbanTree

open Bracketed Text

namespace ListForm

mutual

/-- The text of an item whose brackets begin at a depth. -/
def displayAt (nodeLabels : Bool) (depth : Nat) : ListForm → List CodePoint
  | .text s => (markText s).toList
  | .list items =>
    openGlyph depth :: (roundNumeralChars depth ++
      ([.char ' '].intercalate (displayItems nodeLabels (depth + 1) true items) ++
        (roundNumeralChars depth ++ [closeGlyph depth])))

/-- The texts of the items of a branch. The first of several is a label if it is a text, and has a
tag if labels are asked for. -/
def displayItems (nodeLabels : Bool) (depth : Nat) (first : Bool) :
    List ListForm → List (List CodePoint)
  | [] => []
  | .text s :: rest =>
    (if nodeLabels ∧ first ∧ rest ≠ [] then tagText (markText s) else markText s).toList ::
      displayItems nodeLabels depth false rest
  | .list items :: rest =>
    displayAt nodeLabels depth (.list items) :: displayItems nodeLabels depth false rest

end

/-- The text that shows a list form. A leaf is shown as it is. -/
def display (nodeLabels : Bool) : ListForm → List CodePoint
  | .text s => s.toList
  | .list items => displayAt nodeLabels 0 (.list items)

end ListForm

/-! ### Glyphs around words -/

namespace Bracketed

theorem shapeFrom_openBracket (depth : Nat) (rest : List CodePoint) :
    shapeFrom depth (.char '[' :: rest) =
      openGlyph depth :: (roundNumeralChars depth ++ shapeFrom (depth + 1 : Nat) rest) :=
  shapeFrom_open depth rest

theorem shapeFrom_closeBracket (depth : Nat) (rest : List CodePoint) :
    shapeFrom (depth + 1 : Nat) (.char ']' :: rest) =
      roundNumeralChars depth ++ closeGlyph depth :: shapeFrom depth rest := by
  have hback : ((depth + 1 : Nat) : Int) - 1 = depth := by omega
  rw [shapeFrom_close, hback]

theorem shapeFrom_blank (depth : Int) (rest : List CodePoint) :
    shapeFrom depth (.char ' ' :: rest) = .char ' ' :: shapeFrom depth rest :=
  shapeFrom_other depth rest (by decide) (by decide)

/-- The glyphs leave words alone. -/
theorem shapeFrom_append {word : List CodePoint} (h : IsWord word) (depth : Int)
    (rest : List CodePoint) :
    shapeFrom depth (word ++ rest) = word ++ shapeFrom depth rest := by
  induction word with
  | nil => rfl
  | cons c word ih =>
    obtain ⟨hc, hword⟩ := isWord_cons.mp h
    have hopen : c ≠ '[' := by rintro rfl; exact absurd hc (by decide)
    have hclose : c ≠ ']' := by rintro rfl; exact absurd hc (by decide)
    rw [List.cons_append, shapeFrom_other _ _ hopen hclose, ih hword, List.cons_append]

end Bracketed

namespace ListForm

theorem intercalate_cons (first : List CodePoint) (rest : List (List CodePoint)) :
    [.char ' '].intercalate (first :: rest) = first ++ rest.flatMap (.char ' ' :: ·) := by
  induction rest generalizing first with
  | nil => simp
  | cons next rest ih => rw [List.intercalate_cons_cons, ih]; simp

/-- What is shown of a list form: blanks are marked, then labels tagged. -/
def shown (nodeLabels : Bool) (form : ListForm) : ListForm :=
  form.marked.tagged nodeLabels

section

variable {nodeLabels : Bool} {items : List ListForm}

theorem shown_list :
    (list items).shown nodeLabels =
      .list (tagFirst nodeLabels (items.map (shown nodeLabels))) := by
  rw [shown, marked_list, tagged_list, List.map_map]
  rfl

theorem tagFirst_text (s : Text) :
    tagFirst nodeLabels ((text s :: items).map (shown nodeLabels)) =
      .text (if nodeLabels ∧ true ∧ items ≠ [] then tagText (markText s) else markText s) ::
        items.map (shown nodeLabels) := by
  cases items <;> simp [shown, tagFirst]

theorem tagFirst_list (inner : List ListForm) :
    tagFirst nodeLabels ((list inner :: items).map (shown nodeLabels)) =
      (list inner).shown nodeLabels :: items.map (shown nodeLabels) := by
  rw [List.map_cons, shown_list]
  rfl

/-- The glyphs turn the brackets of the list form into those of the direct printer. -/
def Prints (nodeLabels : Bool) (form : ListForm) : Prop :=
  ∀ (depth : Nat) (rest : List CodePoint),
    shapeFrom depth ((form.shown nodeLabels).bracketed ++ rest) =
      form.displayAt nodeLabels depth ++ shapeFrom depth rest

theorem displayItems_false_cons (depth : Nat) (item : ListForm) :
    displayItems nodeLabels depth false (item :: items) =
      item.displayAt nodeLabels depth :: displayItems nodeLabels depth false items := by
  cases item <;> simp [displayItems, displayAt]

/-- The items after the first are printed one by one, then the closing bracket. -/
theorem shapeFrom_bracketedRest (each : ∀ item ∈ items, item.Prints nodeLabels) (depth : Nat)
    (rest : List CodePoint) :
    shapeFrom (depth + 1 : Nat) (bracketedRest (items.map (shown nodeLabels)) ++ rest) =
      (displayItems nodeLabels (depth + 1) false items).flatMap (.char ' ' :: ·) ++
        (roundNumeralChars depth ++ closeGlyph depth :: shapeFrom depth rest) := by
  induction items with
  | nil => exact shapeFrom_closeBracket depth rest
  | cons item items ih =>
    obtain ⟨hitem, heach⟩ := List.forall_mem_cons.mp each
    rw [List.map_cons, bracketedRest_cons_append, shapeFrom_blank, hitem, ih heach,
      displayItems_false_cons]
    simp

/-- A branch whose first item prints as a given text. -/
theorem shapeFrom_bracketed_cons {head : ListForm} {headText : List CodePoint} {depth : Nat}
    (hhead : ∀ rest, shapeFrom (depth + 1 : Nat) (head.bracketed ++ rest) =
      headText ++ shapeFrom (depth + 1 : Nat) rest)
    (each : ∀ item ∈ items, item.Prints nodeLabels) (rest : List CodePoint) :
    shapeFrom depth ((list (head :: items.map (shown nodeLabels))).bracketed ++ rest) =
      openGlyph depth :: (roundNumeralChars depth ++
        ([.char ' '].intercalate (headText :: displayItems nodeLabels (depth + 1) false items) ++
          (roundNumeralChars depth ++ [closeGlyph depth]))) ++ shapeFrom depth rest := by
  rw [bracketed_cons_append, shapeFrom_openBracket, hhead, shapeFrom_bracketedRest each,
    intercalate_cons]
  simp

theorem prints {form : ListForm} (h : form.Worded) : form.Prints nodeLabels := by
  induction form with
  | text s =>
    intro depth rest
    rw [shown, marked_text, tagged_text, bracketed, displayAt,
      shapeFrom_append (isWord_markText (worded_text.mp h))]
  | list items ih =>
    intro depth rest
    have each : ∀ item ∈ items, item.Prints nodeLabels :=
      fun item hi => ih item hi (worded_list.mp h item hi)
    rw [shown_list, displayAt]
    cases items with
    | nil =>
      show shapeFrom depth (.char '[' :: .char ']' :: rest) = _
      rw [shapeFrom_openBracket, shapeFrom_closeBracket, displayItems, List.intercalate_nil]
      simp
    | cons first items =>
      obtain ⟨hfirst, heach⟩ := List.forall_mem_cons.mp each
      cases first with
      | text s =>
        have hs : IsWord s.toList := worded_text.mp (worded_list.mp h _ List.mem_cons_self)
        have hword : IsWord (if nodeLabels ∧ true ∧ items ≠ [] then tagText (markText s)
            else markText s).toList := by
          split
          · exact isWord_tagText (isWord_markText hs)
          · exact isWord_markText hs
        rw [tagFirst_text, displayItems]
        refine shapeFrom_bracketed_cons (fun rest => ?_) heach rest
        rw [bracketed, shapeFrom_append hword]
      | list inner =>
        rw [tagFirst_list, displayItems]
        exact shapeFrom_bracketed_cons (hfirst (depth + 1)) heach rest

end

end ListForm

/-! ### The text that shows a tree -/

/-- The labels and texts in the list form of a tree are its own. -/
theorem Tree.Spelled.texts_toListForm {P : CodePoint → Prop} {tree : Tree} (h : tree.Spelled P) :
    ∀ s ∈ tree.toListForm.texts, ∀ c ∈ s.toList, P c :=
  ListForm.forall_mem_texts_toListForm.mpr h

/-- The flat text of a list form whose texts are plain, with glyphs for its brackets, is what the
direct printer gives. -/
theorem ListForm.shapeFrom_flattenChars (nodeLabels : Bool) {form : ListForm}
    (h : ∀ s ∈ form.texts, ∀ c ∈ s.toList, IsPlain c) :
    shapeFrom 0 (flattenChars nodeLabels (form.encodeAt .compact 0)) = form.display nodeLabels := by
  have worded : form.Worded := fun s hs => isWord_of_isPlain (h s hs)
  cases form with
  | text s =>
    have hcopy := shapeFrom_append (worded_text.mp worded) 0 []
    rw [List.append_nil] at hcopy
    rw [flattenChars_encodeAt_text nodeLabels (h s (by simp)), hcopy]
    exact List.append_nil _
  | list items =>
    have prints : (list items).Prints nodeLabels := prints worded
    have printed := prints 0 []
    rw [List.append_nil] at printed
    rw [flattenChars_encodeAt nodeLabels h, ListForm.display]
    exact printed.trans (List.append_nil _)

/-- **The text between brackets is the direct print of the processed tree**, wherever the labels
and texts of the tree are plain. -/
theorem Tree.render_eq_display (options : Options) (tree : Tree)
    (hstyle : options.style = .prettified) (hjson : options.json = false)
    (hplain : tree.Spelled IsPlain) :
    tree.render options =
      Text.ofList ((process options tree).toListForm.display options.nodeLabels) := by
  have processed : (process options tree).Spelled IsPlain :=
    spelled_process options (fun _ => isPlain_of_mem_addedCharacters) hplain
  rw [render, renderChars, hstyle]
  simp only [hjson, flatChars, encodeChars]
  rw [← ListForm.shapeFrom_flattenChars options.nodeLabels processed.texts_toListForm]
  rfl

/-- A tagged sentence with blanks, and a label that stays for want of a second item. -/
theorem Tree.render_eq_display_sentence :
    (labeled "text" [.labeled "spaces" [], .labeled "sentence"
        [.labeled "KOhA" [.leaf "mi"], .group [.labeled "prenex" [.leaf "", .leaf "spaces"]],
          .group [.leaf "selbri", .group [.leaf "sumti", .leaf ""]]]]).render
      { spaces := true, nodeLabels := true, terminators := true } =
    Text.ofList ((process { spaces := true, nodeLabels := true, terminators := true }
      (.labeled "text" [.labeled "spaces" [], .labeled "sentence"
        [.labeled "KOhA" [.leaf "mi"], .group [.labeled "prenex" [.leaf "", .leaf "spaces"]],
          .group [.leaf "selbri", .group [.leaf "sumti", .leaf ""]]]])).toListForm.display true) :=
  render_eq_display _ _ rfl rfl (by decide)

end LojbanTree
