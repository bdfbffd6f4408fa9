import LojbanTree.Tree.Processing

/-!
The labels that options keep.

Word classes and selma'o come with letters, so of all other grammar rules only those that structure
a sentence are ever kept. Main statements: a plain rule is never kept (`keeps_of_plain`), and
keeping selma'o makes no difference to bare labels other than those of word classes
(`keeps_bare_selmaho`).
-/

namespace LojbanTree

/-- Is the label that of a grammar rule, one that the options do not ask for? -/
def Options.Plain (options : Options) (label : Text) : Prop :=
  isMorphologyLabel label = false ∧ (options.nodeLabels = true → label ∉ bridiLabels)

instance (options : Options) (label : Text) : Decidable (options.Plain label) :=
  inferInstanceAs (Decidable (_ ∧ _))

namespace Tree

variable {options : Options} {label : Text}

theorem tagsWords_eq_true_iff :
    options.tagsWords = true ↔ options.selmaho = true ∧ options.morphology = false := by
  simp [Options.tagsWords]

/-- Word classes come with letters, and blanks are none of them. -/
theorem isMorphologyLabel_of_wordClass (h : label ∈ wordClassLabels) :
    isMorphologyLabel label = true ∧ label ≠ spacesLabel := by
  have all : ∀ label ∈ wordClassLabels,
      isMorphologyLabel label = true ∧ label ≠ spacesLabel := by decide
  exact all label h

/-- Selma'o come with letters, and blanks are none of them. -/
theorem isMorphologyLabel_of_isName (h : Selmaho.isName label = true) :
    isMorphologyLabel label = true ∧ label ≠ spacesLabel := by
  refine ⟨by rw [isMorphologyLabel, h, Bool.or_true], ?_⟩
  rintro rfl
  revert h
  decide

/-- Blanks come with letters. -/
theorem ne_spacesLabel_of_isMorphologyLabel (h : isMorphologyLabel label = false) :
    label ≠ spacesLabel := by
  rintro rfl
  revert h
  decide

/-- The labels that structure a sentence come without letters. -/
theorem isMorphologyLabel_of_bridi (h : label ∈ bridiLabels) :
    isMorphologyLabel label = false := by
  have all : ∀ label ∈ bridiLabels, isMorphologyLabel label = false := by decide
  exact all label h

/-- Where node labels are kept, these are. -/
theorem keeps_bridi (hlabels : options.nodeLabels = true) (hlabel : label ∈ bridiLabels)
    (childless : Bool) : options.keeps label childless = true := by
  have hcontains : bridiLabels.contains label = true := List.contains_iff_mem.mpr hlabel
  rw [Options.keeps, Options.alwaysKeeps, hlabels, hcontains]
  rfl

/-- **A plain rule is never kept**, with children or without. -/
theorem keeps_of_plain (h : options.Plain label) (childless : Bool) :
    options.keeps label childless = false := by
  obtain ⟨hm, hbridi⟩ := h
  have hclass : label ∉ wordClassLabels := by
    intro hmem
    rw [(isMorphologyLabel_of_wordClass hmem).1] at hm
    cases hm
  have hname : Selmaho.isName label = false := by
    cases hname : Selmaho.isName label with
    | false => rfl
    | true =>
      rw [(isMorphologyLabel_of_isName hname).1] at hm
      cases hm
  simpa [Options.keeps, Options.alwaysKeeps, hclass, hname] using hbridi

/-- A bare label is kept if it always is, or as a terminator. -/
theorem keeps_bare (options : Options) (label : Text) :
    options.keeps label true =
      (options.alwaysKeeps label || Selmaho.isName label && options.terminators) := by
  cases h : options.selmaho <;> simp [Options.keeps, h]

/-- Keeping selma'o matters to bare labels only where words are tagged, and then only to those of
word classes. -/
theorem keeps_bare_selmaho (h : options.morphology = true ∨ label ∉ wordClassLabels) :
    Options.keeps { options with selmaho := true } label true =
      Options.keeps { options with selmaho := false } label true := by
  rw [keeps_bare, keeps_bare]
  rcases h with hkeep | hclass
  · simp [Options.alwaysKeeps, Options.tagsWords, hkeep]
  · simp [Options.alwaysKeeps, hclass]

end Tree

end LojbanTree
