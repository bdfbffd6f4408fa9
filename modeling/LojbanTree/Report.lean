import LojbanTree.ParserOutput

/-!
One run over a text: what is written, and the exit status.
-/

namespace LojbanTree

/-- The outcome of a run over a text. -/
structure Report where
  status : Nat
  /-- What is written, one entry for each time. -/
  writes : List Text
  deriving DecidableEq, Repr

/-- The report of a run that gives a text: status 1 if it begins like a diagnostic. -/
def Report.ofText (text : Text) : Report where
  status := if Rejection.opening.toList.isPrefixOf text.toList then 1 else 0
  writes := [text ++ "\n"]

/-- Runs over a text. A part of the tree that is unsupported ends the run with status 1 and nothing
written; only an integer with too many digits leaves no report. -/
def runText (text : Text) (mode : Mode) : Except Text.OversizedInteger Report :=
  match (ParserOutput.text text).render mode with
  | .ok result => .ok (.ofText result)
  | .error (.unsupported _) => .ok ⟨1, []⟩
  | .error (.oversizedInteger cause) => .error cause

/-- The events of a run over a text, in order. -/
def runTextEvents (text : Text) (mode : Mode) : List Event :=
  (ParserOutput.text text).events mode ++
    match (ParserOutput.text text).render mode with
    | .error (.unsupported cause) => [.malformed cause]
    | _ => []

end LojbanTree
