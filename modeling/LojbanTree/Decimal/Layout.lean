import LojbanTree.Decimal.Shortest
import LojbanTree.Text.Numeral

/-!
How a binary number is laid out as text.

A layout says for which powers of ten the digits stand around a point and when an exponent is
written instead.
-/

namespace LojbanTree

/-- The choices that a format makes. -/
structure DecimalLayout where
  /-- The least power of ten of the first digit that is written without an exponent. -/
  leastPositional : Int
  /-- From this power of ten on an exponent is written. -/
  leastScientific : Int
  /-- The least number of digits in an exponent. -/
  exponentWidth : Nat
  deriving Repr

namespace DecimalLayout

/-- Digits around a point: at least one before it and one after it. -/
def positional (digits : List Char) (point : Int) : List Char :=
  let whole := point.toNat
  if point ≤ 0 then '0' :: '.' :: (List.replicate (-point).toNat '0' ++ digits)
  else if digits.length ≤ whole then
    digits ++ List.replicate (whole - digits.length) '0' ++ ['.', '0']
  else digits.take whole ++ '.' :: digits.drop whole

/-- The exponent with its sign, filled up with zeros. -/
def exponentText (width : Nat) (power : Int) : List Char :=
  let digits := Text.naturalDigits power.natAbs
  (if power < 0 then '-' else '+') ::
    (List.replicate (width - digits.length) '0' ++ digits)

/-- One digit before the point and an exponent. -/
def scientific (width : Nat) (digits : List Char) (point : Int) : List Char :=
  let mantissa :=
    match digits with
    | first :: second :: rest => first :: '.' :: second :: rest
    | short => short
  mantissa ++ 'e' :: exponentText width (point - 1)

/-- The text of a binary64 number. -/
def write (layout : DecimalLayout) : Binary64 → List Char
  | .infinite negative => (if negative then ['-'] else []) ++ "inf".toList
  | .finite negative significand exponent =>
    let (digits, point) := Binary64.shortest significand exponent
    let power := point - 1
    let body :=
      if layout.leastPositional ≤ power ∧ power < layout.leastScientific then
        positional digits point
      else scientific layout.exponentWidth digits point
    (if negative then ['-'] else []) ++ body

end DecimalLayout

end LojbanTree
