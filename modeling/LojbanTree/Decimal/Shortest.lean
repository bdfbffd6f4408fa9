import LojbanTree.Decimal.Binary64

/-!
The shortest decimal for a binary number.

Of the decimals that round to a given binary64 number, the one with the fewest digits is taken, and
of several the nearest. For each count of digits the two neighbours of the number on the grid of
decimals with that many digits are tried, in exact arithmetic.
-/

namespace LojbanTree.Binary64

/-- What is needed to find decimals near `significand · 2 ^ exponent`: the number itself and the
ends of the interval that rounds to it, as multiples of `num / den`. -/
structure Interval where
  low : Nat
  value : Nat
  high : Nat
  /-- The ends themselves round to the number. -/
  closed : Bool
  num : Nat
  den : Nat
  deriving Repr

/-- The interval that rounds to `significand · 2 ^ exponent`, in quarters of the unit. Below a
power of two the numbers lie twice as dense. -/
def interval (significand : Nat) (exponent : Int) : Interval where
  low := 4 * significand - (if significand = Nat.pow 2 52 ∧ leastExponent < exponent then 1 else 2)
  value := 4 * significand
  high := 4 * significand + 2
  closed := significand % 2 = 0
  num := Nat.pow 2 (exponent - 2).toNat
  den := Nat.pow 2 (2 - exponent).toNat

/-- The same interval measured in units of `10 ^ power`. -/
def Interval.scale (i : Interval) (power : Int) : Interval :=
  { i with num := i.num * Nat.pow 10 (-power).toNat, den := i.den * Nat.pow 10 power.toNat }

/-- Does the whole number `n` of units round to the number? -/
def Interval.contains (i : Interval) (n : Nat) : Bool :=
  if i.closed then i.low * i.num ≤ n * i.den && n * i.den ≤ i.high * i.num
  else i.low * i.num < n * i.den && n * i.den < i.high * i.num

/-- The whole number of units in the interval that is nearest to the number, if its two
neighbours are not both outside; of two equally near ones the even. -/
def Interval.nearest? (i : Interval) : Option Nat :=
  let below := i.value * i.num / i.den
  let above := below + 1
  match i.contains below, i.contains above with
  | true, true =>
    let toBelow := i.value * i.num - below * i.den
    let toAbove := above * i.den - i.value * i.num
    if toBelow < toAbove ∨ (toBelow = toAbove ∧ below % 2 = 0) then some below else some above
  | true, false => some below
  | false, true => some above
  | false, false => none

/-- Tries decimals with more and more digits; `lead` is the power of ten of the first digit. -/
def shortestFrom (i : Interval) (lead : Int) : Nat → Int → Option (Nat × Int)
  | 0, _ => none
  | tries + 1, count =>
    let power := lead - count + 1
    match (i.scale power).nearest? with
    | some n => some (n, power)
    | none => shortestFrom i lead tries (count + 1)

/-- The power of ten of the first digit of a positive number: its digits are counted after
multiplying by a power of ten that makes every binary64 number larger than one. -/
def leadingPower (i : Interval) : Int :=
  let scaled := i.scale (-342)
  ((Nat.toDigits 10 (scaled.value * scaled.num / scaled.den)).length : Int) - 343

/-- The digits of the shortest decimal for `significand · 2 ^ exponent`, without zeros at the end,
and the power of ten that a point before the first digit would need. -/
def shortest (significand : Nat) (exponent : Int) : List Char × Int :=
  if significand = 0 then (['0'], 1)
  else
    let i := interval significand exponent
    match shortestFrom i (leadingPower i) 17 1 with
    | some (n, power) =>
      let digits := Nat.toDigits 10 n
      ((digits.reverse.dropWhile (· = '0')).reverse, (digits.length : Int) + power)
    | none => (['0'], 1)

end LojbanTree.Binary64
