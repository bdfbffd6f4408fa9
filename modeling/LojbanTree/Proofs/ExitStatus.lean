import LojbanTree.Proofs.Bracketed.Openings
import LojbanTree.Proofs.Failures
import LojbanTree.Report

/-!
The exit status.

A run takes the text that it writes for a diagnostic if it begins like one. All diagnostics do, but
so does a tree that is shown as a single word with that beginning; no other tree can. Main
statement: what the status and the writes of a run say about its input (`runText_status`).
-/

namespace LojbanTree

/-! ### Texts that begin like a diagnostic -/

theorem Rejection.opening_inert : Bracketed.Inert Rejection.opening.toList := by
  decide

theorem Rejection.opening_prefix_message (rejection : Rejection) :
    opening.toList <+: rejection.message.toList := by
  simp only [message, Text.toList_append, List.append_assoc]
  exact List.prefix_append _ _

namespace Tree

/-- The tree is shown as a single word, which begins like a diagnostic. -/
def PosesAsDiagnostic (options : Options) (tree : Tree) : Prop :=
  options.style = .prettified ∧ options.json = false ∧
    ∃ word, process options tree = .leaf word ∧
      Rejection.opening.toList <+: word.toList.map Bracketed.commaAsBlank

/-- JSON text is no diagnostic. -/
theorem not_opening_prefix_encodeChars (layout : Layout) (tree : Tree) :
    ¬Rejection.opening.toList <+: tree.encodeChars layout := by
  rintro ⟨rest, hrest⟩
  have hhead := tree.head?_encodeChars layout
  have hopening : (Rejection.opening.toList ++ rest).head? = some (.char 'P') := rfl
  rw [← hrest, hopening] at hhead
  cases hleaf : tree.isLeaf <;> simp [hleaf] at hhead

/-- A tree is shown with the beginning of a diagnostic only where it poses as one. -/
theorem opening_prefix_render_iff (options : Options) (tree : Tree) :
    Rejection.opening.toList <+: (tree.render options).toList ↔ tree.PosesAsDiagnostic options := by
  rw [render, Text.toList_ofList, renderChars]
  cases hstyle : options.style with
  | raw =>
    exact iff_of_false (not_opening_prefix_encodeChars _ _) fun h => by simp [h.1] at hstyle
  | condensed =>
    exact iff_of_false (not_opening_prefix_encodeChars _ _) fun h => by simp [h.1] at hstyle
  | prettified =>
    cases hjson : options.json with
    | true =>
      exact iff_of_false (not_opening_prefix_encodeChars _ _) fun h => by simp [h.2.1] at hjson
    | false =>
      have hne : Rejection.opening.toList ≠ [] := by decide
      rw [PosesAsDiagnostic, hstyle, hjson]
      simpa [flatChars] using Rejection.opening_inert.prefix_shown_iff hne options.nodeLabels

end Tree

/-! ### What a text holds -/

/-- The text is JSON for a list all of whose elements are texts and lists, at all depths, and the
tree is the one that the list stands for. -/
def HoldsTree (text : Text) (tree : Tree) : Prop :=
  ∃ value, Json.read text = .ok value ∧ value.kind = .list ∧
    (∀ element ∈ value.elements, element.kind = .str ∨ element.kind = .list) ∧
    Tree.ofJson value = .ok tree

/-- The text is JSON for a list with an element, at some depth, that is neither a text nor a
list. -/
def HoldsForeign (text : Text) : Prop :=
  ∃ value, Json.read text = .ok value ∧ value.kind = .list ∧
    ∃ element ∈ value.elements, element.kind ≠ .str ∧ element.kind ≠ .list

theorem Reading.ofJson_eq_tree_iff {value : Json} {tree : Tree} :
    Reading.ofJson value = .tree tree ↔
      value.kind = .list ∧ value.foreign? = none ∧ Tree.ofJson value = .ok tree := by
  obtain ⟨hkind, h⟩ | ⟨hkind, hnone, other, htree, h⟩ | ⟨-, foreign, hforeign, h⟩ :=
    Reading.ofJson_cases value
  · simp [h, hkind]
  · simp [h, hkind, hnone, htree]
  · simp [h, hforeign]

namespace ParserOutput

variable {text : Text}

/-- A text is read as a tree exactly when it holds one. -/
theorem reading_eq_tree_iff {tree : Tree} :
    (ParserOutput.text text).reading = .tree tree ↔ HoldsTree text tree := by
  rw [reading, HoldsTree]
  cases hread : Json.read text with
  | ok value => simp [Reading.ofJson_eq_tree_iff, Json.foreign?_eq_none_iff]
  | error e => cases e <;> simp

/-- A text fails as unsupported exactly when it holds something foreign. -/
theorem exists_failed_unsupported_iff :
    (∃ cause, (ParserOutput.text text).reading = .failed (.unsupported cause)) ↔
      HoldsForeign text := by
  simp only [reading_eq_failed_iff, FailsFor]
  constructor
  · rintro ⟨cause, value, foreign, hvalue, hkind, hforeign, -⟩
    obtain ⟨hmem, hne⟩ := Json.mem_of_foreign? hforeign
    exact ⟨value, read_of_value? hvalue, hkind, foreign, hmem, hne⟩
  · rintro ⟨value, hread, hkind, element, hmem, hstr, hlist⟩
    have hvalue : (ParserOutput.text text).value? = some value := by
      rw [value?, hread]
      rfl
    cases hforeign : value.foreign? with
    | none =>
      rcases Json.foreign?_eq_none_iff.mp hforeign element hmem with h | h
      · exact absurd h hstr
      · exact absurd h hlist
    | some foreign => exact ⟨_, value, foreign, hvalue, hkind, hforeign, rfl⟩

end ParserOutput

/-! ### Reports -/

namespace Report

/-- The status of a shown text. -/
theorem status_ofText_eq_zero_iff {shown : Text} :
    (ofText shown).status = 0 ↔ ¬Rejection.opening.toList <+: shown.toList := by
  rw [ofText, ← List.isPrefixOf_iff_prefix]
  split <;> simp_all

theorem status_ofText (shown : Text) : (ofText shown).status = 0 ∨ (ofText shown).status = 1 := by
  rw [ofText]
  split <;> simp

end Report

/-- **What a run says about its input.** The status is 0 where the text holds a tree, unless the
tree is shown as a single word that begins like a diagnostic, and 1 otherwise. Nothing is written
where the text holds something foreign; otherwise what is shown is written once, with a line feed
after it. -/
theorem runText_status {text : Text} {mode : Mode} {report : Report}
    (h : runText text mode = .ok report) :
    (report.status = 0 ∨ report.status = 1) ∧
      (report.status = 0 ↔
        ∃ tree, HoldsTree text tree ∧ ¬tree.PosesAsDiagnostic mode.options) ∧
      (report.writes = [] ↔ HoldsForeign text) ∧
      (report.writes ≠ [] → ∃ shown,
        (ParserOutput.text text).render mode = .ok shown ∧ report.writes = [shown ++ "\n"]) := by
  simp only [← ParserOutput.reading_eq_tree_iff, ← ParserOutput.exists_failed_unsupported_iff]
  rw [runText] at h
  rw [ParserOutput.render] at h ⊢
  cases hreading : (ParserOutput.text text).reading with
  | tree tree =>
    rw [hreading] at h
    cases h
    refine ⟨Report.status_ofText _, ?_, ?_, ?_⟩
    · simp [Report.status_ofText_eq_zero_iff, Tree.opening_prefix_render_iff]
    · simp [Report.ofText]
    · simp [Report.ofText]
  | rejected rejection =>
    rw [hreading] at h
    cases h
    refine ⟨Report.status_ofText _, ?_, ?_, ?_⟩
    · simp [Report.status_ofText_eq_zero_iff, rejection.opening_prefix_message]
    · simp [Report.ofText]
    · simp [Report.ofText]
  | failed failure =>
    rw [hreading] at h
    cases failure with
    | unsupported cause =>
      cases h
      simp
    | oversizedInteger cause => cases h

/-- A list of two texts that is shown as its second, which begins like a diagnostic. -/
theorem runText_status_posing :
    HoldsTree "[\"text\",\"Postprocessor error:\"]"
        (.labeled "text" [.leaf "Postprocessor error:"]) ∧
      ∃ report, runText "[\"text\",\"Postprocessor error:\"]" (.level 2) = .ok report ∧
        report.status = 1 ∧ ¬HoldsForeign "[\"text\",\"Postprocessor error:\"]" := by
  have hread : Json.read "[\"text\",\"Postprocessor error:\"]" =
      .ok (.arr [.str "text", .str "Postprocessor error:"]) := rfl
  have hholds : HoldsTree "[\"text\",\"Postprocessor error:\"]"
      (.labeled "text" [.leaf "Postprocessor error:"]) := ⟨_, hread, rfl, by decide, rfl⟩
  have hshown : (Tree.labeled "text" [.leaf "Postprocessor error:"]).render (.ofLevel 2) =
      "Postprocessor error:" := by decide +kernel
  have hrender : (ParserOutput.text "[\"text\",\"Postprocessor error:\"]").render (.level 2) =
      .ok "Postprocessor error:" := by
    rw [ParserOutput.render, ParserOutput.reading_eq_tree_iff.mpr hholds]
    exact congrArg Except.ok hshown
  have hrun : runText "[\"text\",\"Postprocessor error:\"]" (.level 2) =
      .ok (.ofText "Postprocessor error:") := by rw [runText, hrender]
  refine ⟨hholds, _, hrun, by decide +kernel, fun h => ?_⟩
  exact absurd ((runText_status hrun).2.2.1.mpr h) (List.cons_ne_nil _ _)

end LojbanTree
