/-!
Decimal numbers.

A decimal is a sign, a run of digits and a power of ten, as a literal with a point or an exponent
gives it.
-/

namespace LojbanTree

/-- The number `± digits · 10 ^ exponent`. -/
structure Decimal where
  negative : Bool
  digits : Nat
  exponent : Int
  deriving DecidableEq, Repr

end LojbanTree
