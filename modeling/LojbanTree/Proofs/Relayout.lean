import LojbanTree.ParserOutput
import LojbanTree.Proofs.Json.RoundTrip

/-!
One tree in several layouts.

Whatever the layout, the JSON text of a tree reads as the value of the tree, so it can be laid out
anew without the tree. Raw and condensed output are such texts of one stripped tree and differ in
nothing but the layout. Main statement: `Tree.encode_lossless`.
-/

namespace LojbanTree

/-- The nested lists that a JSON text stands for, written in another layout. -/
def relayout? (layout : Layout) (text : Text) : Option Text :=
  match Json.read text with
  | .error _ => none
  | .ok value =>
    match ListForm.ofJson value with
    | .error _ => none
    | .ok form => some (.ofList (form.encodeAt layout 0))

/-- A tree's JSON text can be brought from any layout into any other. -/
theorem relayout?_encode (layout other : Layout) (tree : Tree) :
    relayout? layout (tree.encode other) = some (tree.encode layout) := by
  simp only [relayout?, Tree.read_encode, Tree.toJson, ListForm.ofJson_toJson]
  rfl

/-! ### Raw and condensed output -/

/-- Numbers that differ only in the level keep letters alike. -/
theorem morphology_ofLevel_succ (bits : Nat) :
    (Options.ofLevel (8 * bits + 1)).morphology = (Options.ofLevel (8 * bits)).morphology := by
  have hdiv : (8 * bits + 1) / 2 ^ 4 = 8 * bits / 2 ^ 4 := by omega
  simp only [Options.ofLevel, Nat.testBit_eq_decide_div_mod_eq, hdiv]

/-- At level 0 a tree is shown raw, at level 1 condensed, and stripped alike. -/
theorem Tree.render_ofLevel (bits : Nat) (tree : Tree) :
    ∃ stripped : Tree,
      tree.render (.ofLevel (8 * bits)) = stripped.encode rawLayout ∧
        tree.render (.ofLevel (8 * bits + 1)) = stripped.encode .compact := by
  refine ⟨Tree.strip (.ofLevel (8 * bits)) tree, ?raw, ?condensed⟩
  case raw =>
    have hstyle : (Options.ofLevel (8 * bits)).style = .raw := by
      simp [Options.ofLevel]
    rw [render, renderChars, hstyle, encode]
  case condensed =>
    have hstyle : (Options.ofLevel (8 * bits + 1)).style = .condensed := by
      simp [Options.ofLevel]
    have hstrip : strip (.ofLevel (8 * bits + 1)) tree = strip (.ofLevel (8 * bits)) tree := by
      rw [strip, strip, morphology_ofLevel_succ]
    rw [render, renderChars, hstyle, hstrip, encode]

/-- Is the parser output a list, as a value or as its JSON text? -/
def ParserOutput.IsList : ParserOutput → Prop
  | .tree _ => False
  | .value v => ∃ items, v = .arr items
  | .text s => ∃ items, Json.read s = .ok (.arr items)

/-- A list is read as a tree, or fails at a part that is neither a text nor a list. -/
theorem ParserOutput.IsList.reading_cases {output : ParserOutput} (h : output.IsList) :
    (∃ tree, output.reading = .tree tree) ∨ ∃ cause, output.reading = .failed cause := by
  have list : ∀ items, (∃ tree, Reading.ofJson (.arr items) = .tree tree) ∨
      ∃ cause, Reading.ofJson (.arr items) = .failed cause := by
    intro items
    cases hread : Tree.ofJson (.arr items) with
    | ok tree => exact Or.inl ⟨tree, by rw [Reading.ofJson, hread]⟩
    | error cause => exact Or.inr ⟨.unsupported cause, by rw [Reading.ofJson, hread]⟩
  cases output with
  | tree t => cases h
  | value v =>
    obtain ⟨items, rfl⟩ := h
    exact list items
  | text s =>
    obtain ⟨items, hread⟩ := h
    simp only [ParserOutput.reading, hread]
    exact list items

/-- Raw output of a list, laid out compactly, is its condensed output; where one fails, the other
fails for the same cause. -/
theorem ParserOutput.IsList.relayout?_render {output : ParserOutput} (h : output.IsList)
    (bits : Nat) :
    (output.render (.level (8 * bits))).map (relayout? .compact) =
      (output.render (.level (8 * bits + 1))).map some := by
  rcases h.reading_cases with ⟨tree, hreading⟩ | ⟨cause, hreading⟩
  · obtain ⟨stripped, hraw, hcondensed⟩ := tree.render_ofLevel bits
    simp only [render, hreading, Mode.options, hraw, hcondensed, Except.map, relayout?_encode]
  · simp only [render, hreading, Except.map]

/-- **Nothing of a tree is lost in its JSON text**, in any layout: the text reads as the value of
the tree, and laid out compactly it is the compact text. So raw output of a list, laid out
compactly, is its condensed output. -/
theorem Tree.encode_lossless :
    (∀ (layout : Layout) (tree : Tree), Json.read (tree.encode layout) = .ok tree.toJson) ∧
      (∀ (layout : Layout) (tree : Tree),
        relayout? .compact (tree.encode layout) = some (tree.encode .compact)) ∧
      ∀ (output : ParserOutput) (bits : Nat), output.IsList →
        (output.render (.level (8 * bits))).map (relayout? .compact) =
          (output.render (.level (8 * bits + 1))).map some :=
  ⟨read_encode, relayout?_encode .compact, fun _ bits h => h.relayout?_render bits⟩

/-- A list whose texts hold a quote, a line feed and brackets, in JSON text of its own, and one
with a part that is neither a text nor a list. -/
theorem Tree.encode_lossless_list :
    (ParserOutput.text "[\"a\\\"\\n\", [\"[]\"]]").IsList ∧
    ((ParserOutput.text "[\"a\\\"\\n\", [\"[]\"]]").render (.level 0)).map (relayout? .compact) =
      ((ParserOutput.text "[\"a\\\"\\n\", [\"[]\"]]").render (.level 1)).map some ∧
    ((ParserOutput.value (.arr [.str "a", .null])).render (.level 24)).map (relayout? .compact) =
      ((ParserOutput.value (.arr [.str "a", .null])).render (.level 25)).map some :=
  ⟨⟨_, rfl⟩, encode_lossless.2.2 _ 0 ⟨_, rfl⟩, encode_lossless.2.2 _ 3 ⟨_, rfl⟩⟩

end LojbanTree
