import LojbanTree.Json.Basic
import LojbanTree.Decimal.Layout
import LojbanTree.Text.Quoted

/-!
How messages show a JSON value.
-/

namespace LojbanTree.Json

/-- Numbers in messages have an exponent of at least two digits below `10 ^ -4` and from `10 ^ 16`
on, and a point otherwise. -/
def numberLayout : DecimalLayout where
  leastPositional := -4
  leastScientific := 16
  exponentWidth := 2

/-- A number in a message. -/
def Number.display : Number → List Char
  | .int n => Text.integerDigits n
  | .decimal d => numberLayout.write (Binary64.nearest d)
  | .infinite negative => numberLayout.write (.infinite negative)
  | .nan => "nan".toList

/-- A text in a message. -/
def displayText (text : Text) : List Char :=
  Text.Quoted.quoteChars text.toList

mutual

/-- A value in a message. -/
def display : Json → List Char
  | .null => "None".toList
  | .bool true => "True".toList
  | .bool false => "False".toList
  | .num n => n.display
  | .str s => displayText s
  | .arr items => '[' :: displayItems items
  | .obj fields => '\x7b' :: displayFields fields

/-- The items of a list, comma and blank between them, up to the closing bracket. -/
def displayItems : List Json → List Char
  | [] => [']']
  | [item] => display item ++ [']']
  | item :: rest => display item ++ ',' :: ' ' :: displayItems rest

/-- The fields of an object, comma and blank between them, up to the closing brace. -/
def displayFields : List (Text × Json) → List Char
  | [] => ['\x7d']
  | [(key, value)] => displayText key ++ ':' :: ' ' :: (display value ++ ['\x7d'])
  | (key, value) :: rest =>
    displayText key ++ ':' :: ' ' :: (display value ++ ',' :: ' ' :: displayFields rest)

end

end LojbanTree.Json
