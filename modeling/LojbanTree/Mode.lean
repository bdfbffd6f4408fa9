import LojbanTree.Json.Basic
import LojbanTree.Options

/-!
Modes: what a caller asks for.

A mode is given as a JSON value. Whole numbers from zero on select a level, texts are flag letters;
anything else is not understood and counts as level 0.
-/

namespace LojbanTree

/-- What a caller asks for. -/
inductive Mode where
  | level (number : Nat)
  | flags (letters : Text)
  /-- A truth value, which is no number. -/
  | truth (value : Bool)
  | unrecognized (value : Json)
  deriving Repr

namespace Mode

/-- The mode that a whole number gives. -/
def ofInt (n : Int) : Mode :=
  if n < 0 then .unrecognized (.num (.int n)) else .level n.toNat

/-- The mode that a value gives. A number with a point is a level if its value is whole. -/
def ofJson : Json → Mode
  | .str letters => .flags letters
  | .bool value => .truth value
  | .num n =>
    match n.integer? with
    | some value => ofInt value
    | none => .unrecognized (.num n)
  | value => .unrecognized value

/-- The options that a mode selects. -/
def options : Mode → Options
  | .level number => .ofLevel number
  | .flags letters => .ofFlags letters
  | .truth _ => .ofLevel 0
  | .unrecognized _ => .ofLevel 0

end Mode

end LojbanTree
