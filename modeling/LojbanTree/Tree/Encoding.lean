import LojbanTree.Text.Hexadecimal
import LojbanTree.Tree.ListForm

/-!
The JSON text of a tree.

The list form is written as nested JSON arrays. A layout says what stands between the tokens: the
compact one nothing, the indented one a line break before every item and before the closing
bracket, with blanks that show the depth. An array without items is `[]` in every layout.
-/

namespace LojbanTree

/-- How the arrays are laid out. -/
inductive Layout where
  | compact
  /-- Each level is set in by so many blanks; a negative width counts as zero. -/
  | indented (width : Int)
  deriving DecidableEq, Repr

namespace Layout

/-- What stands before an item, or before the closing bracket, at a depth. -/
def gap : Layout → Nat → List CodePoint
  | .compact, _ => []
  | .indented width, depth => '\n' :: List.replicate (width.toNat * depth) ' '

end Layout

/-- How a code point is written inside a JSON text. -/
def escapeChar (c : CodePoint) : List CodePoint :=
  match c with
  | '"' => ['\\', '"']
  | '\\' => ['\\', '\\']
  | '\n' => ['\\', 'n']
  | '\r' => ['\\', 'r']
  | '\t' => ['\\', 't']
  | '\x0c' => ['\\', 'f']
  | '\x08' => ['\\', 'b']
  | c => if c.toNat < 0x20 then '\\' :: 'u' :: (Text.hexDigits 4 c.toNat).map .char else [c]

/-- A text between double quotes. -/
def quoteText (text : Text) : List CodePoint :=
  .char '"' :: (text.toList.flatMap escapeChar ++ [.char '"'])

namespace ListForm

mutual

/-- The JSON text of a list form at a depth. -/
def encodeAt (layout : Layout) (depth : Nat) : ListForm → List CodePoint
  | .text s => quoteText s
  | .list [] => ['[', ']']
  | .list (first :: rest) =>
    '[' :: (layout.gap (depth + 1) ++ encodeAt layout (depth + 1) first ++
      encodeRest layout depth rest)

/-- The items after the first, and the closing bracket of the list at a depth. -/
def encodeRest (layout : Layout) (depth : Nat) : List ListForm → List CodePoint
  | [] => layout.gap depth ++ [.char ']']
  | item :: rest =>
    ',' :: (layout.gap (depth + 1) ++ encodeAt layout (depth + 1) item ++
      encodeRest layout depth rest)

end

end ListForm

namespace Tree

/-- The code points of a tree's JSON text. -/
def encodeChars (layout : Layout) (tree : Tree) : List CodePoint :=
  tree.toListForm.encodeAt layout 0

/-- The JSON text of a tree. -/
def encode (layout : Layout) (tree : Tree) : Text :=
  Text.ofList (tree.encodeChars layout)

end Tree

end LojbanTree
