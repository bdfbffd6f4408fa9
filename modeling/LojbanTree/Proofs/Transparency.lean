import LojbanTree.ParserOutput
import LojbanTree.Proofs.Json.RoundTrip
import LojbanTree.Proofs.Tree.Flattening

/-!
Showing what has been shown.

Raw and condensed output is the JSON text of the stripped tree, so it can be handed over again in
place of the tree. Every way of showing a tree strips it first, hence the text in between does not
matter unless it has lost letters that are asked for later. Main statement: a raw pass is
transparent (`ParserOutput.render_render`).
-/

namespace LojbanTree

/-! ### Stripping before showing -/

namespace Tree

/-- A second stripping sees no difference, unless letters that it keeps are gone. -/
theorem strip_strip {first second : Options}
    (h : first.morphology = true ∨ second.morphology = false) (tree : Tree) :
    strip second (strip first tree) = strip second tree := by
  cases hfirst : first.morphology with
  | true => rw [strip_eq_self hfirst]
  | false =>
    have hsecond : second.morphology = false := h.resolve_left (by simp [hfirst])
    rw [strip_eq_withoutMorphology hfirst, strip_eq_withoutMorphology hsecond,
      strip_eq_withoutMorphology hsecond, withoutMorphology_withoutMorphology]

/-- What is shown of a tree depends only on the stripped tree. -/
theorem render_congr {options : Options} {tree other : Tree}
    (h : strip options tree = strip options other) :
    render options tree = render options other := by
  simp only [render, renderChars, flatChars, process, h]

/-- Unless the processed tree is shown, the text is the stripped tree as JSON. -/
theorem render_eq_encode {options : Options} (h : options.style ≠ .prettified) :
    ∃ layout, ∀ tree, render options tree = (strip options tree).encode layout := by
  cases hstyle : options.style with
  | raw =>
    refine ⟨rawLayout, fun tree => ?_⟩
    rw [render, renderChars, hstyle, encode]
  | condensed =>
    refine ⟨.compact, fun tree => ?_⟩
    rw [render, renderChars, hstyle, encode]
  | prettified => exact absurd hstyle h

theorem isLeaf_strip (options : Options) (tree : Tree) :
    (strip options tree).isLeaf = tree.isLeaf := by
  unfold strip
  split
  · rfl
  · exact isLeaf_withoutMorphology tree

theorem Readable.strip {tree : Tree} (h : tree.Readable) (options : Options) :
    (Tree.strip options tree).Readable := by
  unfold Tree.strip
  split
  · exact h
  · exact h.withoutMorphology

end Tree

/-! ### Handing over what has been shown -/

/-- The value of a list of nested lists and texts is a tree. -/
theorem Reading.ofJson_list (items : List ListForm) :
    Reading.ofJson (ListForm.list items).toJson = .tree (ListForm.list items).toTree := by
  have hform := ListForm.ofJson_toJson (.list items)
  rw [ListForm.toJson] at hform ⊢
  rw [Reading.ofJson, Tree.ofJson, hform]

/-- Nested lists are shown as the tree that they stand for. -/
theorem ParserOutput.render_list (items : List ListForm) (mode : Mode) :
    (ParserOutput.value (ListForm.list items).toJson).render mode =
      .ok ((ListForm.list items).toTree.render mode.options) := by
  rw [ParserOutput.render, ParserOutput.reading, Reading.ofJson_list]

/-- The JSON text of a readable branch, in any layout, is taken for that branch. -/
theorem ParserOutput.reading_encode {tree : Tree} (h : tree.Readable)
    (hbranch : tree.isLeaf = false) (layout : Layout) :
    (ParserOutput.text (tree.encode layout)).reading = .tree tree := by
  have hread := Tree.read_encode layout tree
  obtain ⟨items, hitems⟩ : ∃ items, tree.toListForm = .list items := by
    cases tree with
    | leaf text => cases hbranch
    | labeled label children => exact ⟨_, Tree.toListForm_labeled label children⟩
    | group children => exact ⟨_, Tree.toListForm_group children⟩
  have htree := Tree.toTree_toListForm h
  rw [hitems] at htree
  rw [Tree.toJson, hitems] at hread
  simp only [ParserOutput.reading, hread, Reading.ofJson_list, htree]

/-- **A raw pass is transparent.** Raw and condensed output of nested lists, handed over again as
text, is shown in every mode as the nested lists are, unless that mode asks for letters that are
gone; in the mode of the first pass it stays as it is. -/
theorem ParserOutput.render_render (items : List ListForm) {first : Mode}
    (hstyle : first.options.style ≠ .prettified) :
    ∃ shown, (ParserOutput.value (ListForm.list items).toJson).render first = .ok shown ∧
      (ParserOutput.text shown).render first = .ok shown ∧
      ∀ second : Mode, first.options.morphology = true ∨ second.options.morphology = false →
        (ParserOutput.text shown).render second =
          (ParserOutput.value (ListForm.list items).toJson).render second := by
  have hreadable : (Tree.strip first.options (ListForm.list items).toTree).Readable :=
    (Tree.readable_toTree (.list items)).strip first.options
  have hbranch : (Tree.strip first.options (ListForm.list items).toTree).isLeaf = false := by
    rw [Tree.isLeaf_strip]
    exact Tree.isLeaf_toTree_list items
  obtain ⟨layout, hlayout⟩ := Tree.render_eq_encode hstyle
  have hagain : ∀ second : Mode,
      first.options.morphology = true ∨ second.options.morphology = false →
        (ParserOutput.text ((ListForm.list items).toTree.render first.options)).render second =
          (ParserOutput.value (ListForm.list items).toJson).render second := by
    intro second hmorphology
    rw [render_list, hlayout, render, reading_encode hreadable hbranch]
    exact congrArg Except.ok (Tree.render_congr (Tree.strip_strip hmorphology _))
  refine ⟨_, render_list items first, ?_, hagain⟩
  rw [hagain first (Bool.eq_false_or_eq_true _), render_list]

/-- A word in letters and an elided terminator, condensed, then shown between brackets. -/
theorem ParserOutput.render_render_condensed :
    (Mode.level 1).options.style ≠ .prettified ∧
    (Mode.level 3).options.morphology = false ∧
    ∃ shown,
      (ParserOutput.value (ListForm.list [.text "text",
        .list [.text "gismu", .text "k", .text "l"], .list [.text "KU"]]).toJson).render
          (.level 1) = .ok shown ∧
      (ParserOutput.text shown).render (.level 1) = .ok shown ∧
      (ParserOutput.text shown).render (.level 3) =
        (ParserOutput.value (ListForm.list [.text "text",
          .list [.text "gismu", .text "k", .text "l"], .list [.text "KU"]]).toJson).render
            (.level 3) := by
  obtain ⟨shown, hfirst, hsame, hagain⟩ :=
    render_render [.text "text", .list [.text "gismu", .text "k", .text "l"],
      .list [.text "KU"]] (show (Mode.level 1).options.style ≠ .prettified by decide)
  exact ⟨by decide, by decide, shown, hfirst, hsame, hagain (.level 3) (Or.inr (by decide))⟩

end LojbanTree
