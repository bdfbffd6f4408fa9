import LojbanTree.Text.Quoted

/-!
File paths.

A path is kept in the form in which messages show it: empty parts and `.` are dropped, and of the
slashes at the beginning one stays, or two if there are exactly two.
-/

namespace LojbanTree.CommandLine

/-- A path without superfluous parts. -/
structure Path where
  /-- How many slashes the path begins with. -/
  slashes : Nat
  parts : List Text
  deriving DecidableEq, Repr

namespace Path

/-- The pieces of a text between slashes. -/
def splitSlashes : List CodePoint → List (List CodePoint)
  | [] => [[]]
  | c :: rest =>
    if c = '/' then [] :: splitSlashes rest
    else
      match splitSlashes rest with
      | piece :: pieces => (c :: piece) :: pieces
      | [] => [[c]]

/-- How many slashes stay at the beginning of a text. -/
def leadingSlashes (text : List CodePoint) : Nat :=
  let count := (text.takeWhile (· = .char '/')).length
  if count = 2 then 2 else min count 1

/-- The path that a text names. -/
def ofText (text : Text) : Path where
  slashes := leadingSlashes text.toList
  parts := ((splitSlashes text.toList).map .ofList).filter fun piece => piece ≠ "" ∧ piece ≠ "."

/-- The path as a text; the empty path is the directory `.` itself. -/
def toText (path : Path) : Text :=
  if path.slashes = 0 ∧ path.parts = [] then "."
  else .ofList (.replicate path.slashes '/') ++ Text.intercalate "/" path.parts

/-- The path between quotes, as messages show it. -/
def quoted (path : Path) : String :=
  path.toText.quoted

end Path

end LojbanTree.CommandLine
