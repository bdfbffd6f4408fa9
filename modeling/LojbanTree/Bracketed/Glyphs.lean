import LojbanTree.Text.Basic
import LojbanTree.Text.Numeral

/-!
Bracket glyphs.

Brackets take one of four shapes in turn, by their depth: `( )`, `[ ]`, braces and `< >`. From the
second round on a small raised numeral beside the round brackets counts the rounds. Where a text
closes more brackets than it has opened the depth is negative, and the shapes go on in the same
order.
-/

namespace LojbanTree.Bracketed

/-- The opening bracket at a depth. -/
def openGlyph (depth : Int) : CodePoint :=
  match (depth % 4).toNat with
  | 0 => '('
  | 1 => '['
  | 2 => '\x7b'
  | _ => '<'

/-- The closing bracket at a depth. -/
def closeGlyph (depth : Int) : CodePoint :=
  match (depth % 4).toNat with
  | 0 => ')'
  | 1 => ']'
  | 2 => '\x7d'
  | _ => '>'

/-- The raised numeral beside the brackets at a depth: the number of the round, where a round
begins, and nothing elsewhere or in the first. -/
def roundNumeralChars (depth : Int) : List CodePoint :=
  if depth ≠ 0 ∧ depth % 4 = 0 then
    (Text.integerDigits (depth / 4)).map fun c => .char (Text.superscript c)
  else []

/-- The raised numeral as a text. -/
def roundNumeral (depth : Int) : Text :=
  Text.ofList (roundNumeralChars depth)

/-- Shapes the brackets of a text that begins at a depth. -/
def shapeFrom : Int → List CodePoint → List CodePoint
  | _, [] => []
  | depth, c :: rest =>
    if c = '[' then openGlyph depth :: (roundNumeralChars depth ++ shapeFrom (depth + 1) rest)
    else if c = ']' then
      roundNumeralChars (depth - 1) ++ closeGlyph (depth - 1) :: shapeFrom (depth - 1) rest
    else c :: shapeFrom depth rest

/-- Shapes the brackets of a text. -/
def shape (text : Text) : Text :=
  Text.ofList (shapeFrom 0 text.toList)

section

variable (depth : Int) (rest : List CodePoint)

@[simp] theorem shapeFrom_nil : shapeFrom depth [] = [] := by
  rw [shapeFrom]

theorem shapeFrom_open :
    shapeFrom depth (.char '[' :: rest) =
      openGlyph depth :: (roundNumeralChars depth ++ shapeFrom (depth + 1) rest) := by
  rw [shapeFrom, if_pos rfl]

theorem shapeFrom_close :
    shapeFrom depth (.char ']' :: rest) =
      roundNumeralChars (depth - 1) ++ closeGlyph (depth - 1) :: shapeFrom (depth - 1) rest := by
  rw [shapeFrom, if_neg (by decide), if_pos rfl]

theorem shapeFrom_other {c : CodePoint} (hopen : c ≠ '[') (hclose : c ≠ ']') :
    shapeFrom depth (c :: rest) = c :: shapeFrom depth rest := by
  rw [shapeFrom, if_neg hopen, if_neg hclose]

end

end LojbanTree.Bracketed
