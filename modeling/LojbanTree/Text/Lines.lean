import LojbanTree.Text.Basic

/-!
Line ends.

A text that is read in may end its lines with a line feed, a carriage return or both. All three
become a line feed before anything else looks at the text.
-/

namespace LojbanTree.Text

/-- Every carriage return, with the line feed after it if there is one, becomes a line feed. -/
def unifyLineEnds : List CodePoint → List CodePoint
  | [] => []
  | '\r' :: '\n' :: rest => '\n' :: unifyLineEnds rest
  | '\r' :: rest => '\n' :: unifyLineEnds rest
  | c :: rest => c :: unifyLineEnds rest

/-- The text with a line feed at the end of each line. -/
def withUniformLineEnds (text : Text) : Text :=
  .ofList (unifyLineEnds text.toList)

end LojbanTree.Text
