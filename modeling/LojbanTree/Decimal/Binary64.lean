import LojbanTree.Decimal.Basic

/-!
The binary number nearest to a decimal.

Binary64 numbers have 53 significant bits and exponents from -1074 on; from `2 ^ 1024` on there is
only infinity. Rounding is exact: the decimal is taken as a quotient of natural numbers and goes to
the nearest representable number, a tie to the even significand.
-/

namespace LojbanTree

/-- A binary64 number that is not a NaN. -/
inductive Binary64 where
  /-- The number `± significand · 2 ^ exponent`. -/
  | finite (negative : Bool) (significand : Nat) (exponent : Int)
  | infinite (negative : Bool)
  deriving DecidableEq, Repr

namespace Binary64

/-- The least exponent of a binary64 number. -/
def leastExponent : Int := -1074

/-- The whole number nearest to `num / den`, a tie to the even one. -/
def roundQuotient (num den : Nat) : Nat :=
  let low := num / den
  let twice := 2 * (num % den)
  if twice < den then low
  else if den < twice then low + 1
  else if low % 2 = 0 then low else low + 1

-- Powers are written by name, since `^` means another function once algebra is imported.

/-- `num / den` in units of `2 ^ exponent`, again as a quotient. -/
def inUnits (num den : Nat) (exponent : Int) : Nat × Nat :=
  (num * Nat.pow 2 (-exponent).toNat, den * Nat.pow 2 exponent.toNat)

/-- The exponent at which `num / den` has 53 significant bits, if it may be so small. -/
def unitExponent (num den : Nat) : Int :=
  let guess : Int := (num.log2 : Int) - (den.log2 : Int) - 53
  let (n, d) := inUnits num den guess
  max leastExponent (if n / d < Nat.pow 2 53 then guess else guess + 1)

/-- The binary64 number nearest to `± num / den`. -/
def nearestQuotient (negative : Bool) (num den : Nat) : Binary64 :=
  let exponent := unitExponent num den
  let (n, d) := inUnits num den exponent
  let significand := roundQuotient n d
  if Nat.pow 2 1024 ≤ significand * Nat.pow 2 exponent.toNat then .infinite negative
  else .finite negative significand exponent

/-- The binary64 number nearest to a decimal. A decimal that lies far outside the range is not
written out. -/
def nearest (d : Decimal) : Binary64 :=
  let magnitude := ((Nat.toDigits 10 d.digits).length : Int) + d.exponent
  if d.digits = 0 ∨ magnitude < -400 then .finite d.negative 0 leastExponent
  else if 400 < magnitude then .infinite d.negative
  else
    nearestQuotient d.negative (d.digits * Nat.pow 10 d.exponent.toNat)
      (Nat.pow 10 (-d.exponent).toNat)

/-- The value, when it is a whole number. -/
def integer? : Binary64 → Option Int
  | .finite negative significand exponent =>
    let unit := Nat.pow 2 (-exponent).toNat
    if significand % unit = 0 then
      let size : Int := (significand / unit * Nat.pow 2 exponent.toNat : Nat)
      some (if negative then -size else size)
    else none
  | .infinite _ => none

end Binary64

end LojbanTree
