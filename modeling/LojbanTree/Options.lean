import LojbanTree.Text.Basic

/-!
Options of one run.
-/

namespace LojbanTree

/-- How the result is shown. -/
inductive Style where
  /-- Indented JSON of the tree before pruning. -/
  | raw
  /-- JSON of the tree before pruning, on one line. -/
  | condensed
  /-- The pruned tree between brackets. -/
  | prettified
  deriving DecidableEq, Repr

/-- The name of a style. -/
def Style.name : Style → String
  | .raw => "raw"
  | .condensed => "condensed"
  | .prettified => "prettified"

/-- The switches of one run. -/
structure Options where
  /-- Keep blanks between words, as `_`. -/
  spaces : Bool := false
  /-- Keep the letters of which words consist. -/
  morphology : Bool := false
  /-- Keep and tag the branches `prenex`, `sentence`, `selbri` and `sumti`. -/
  nodeLabels : Bool := false
  /-- Keep the names of terminal categories. -/
  selmaho : Bool := false
  /-- Keep elided terminators, which are labels without children. -/
  terminators : Bool := false
  /-- Show the processed tree as JSON rather than between brackets. -/
  json : Bool := false
  style : Style := .prettified
  deriving DecidableEq, Repr

namespace Options

/-- Words are to be shown with their class: labels are kept and each word is a single leaf. -/
def tagsWords (options : Options) : Bool :=
  options.selmaho && !options.morphology

/-- The options for a level number. The number modulo eight is the level of detail; bit 8 keeps
blanks and bit 16 keeps the letters of words. -/
def ofLevel (number : Nat) : Options :=
  let level := number % 8
  { spaces := number.testBit 3
    morphology := number.testBit 4
    nodeLabels := level == 4 || level == 7
    selmaho := !(level == 2 || level == 5)
    terminators := decide (level < 5)
    json := false
    style := if level = 0 then .raw else if level = 1 then .condensed else .prettified }

/-- The options for a text of flag letters; other code points mean nothing. -/
def ofFlags (flags : Text) : Options :=
  let has (letter : Char) : Bool := flags.toList.contains (.char letter)
  { spaces := has 'S'
    morphology := has 'M'
    nodeLabels := has 'N'
    selmaho := has 'C'
    terminators := has 'T'
    json := has 'J'
    style := if has 'R' then .condensed else .prettified }

end Options

end LojbanTree
