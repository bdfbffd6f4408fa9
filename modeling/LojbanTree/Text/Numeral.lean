/-!
Decimal numerals.

Whole numbers are written in base ten without superfluous zeros. Reading has a limit on the
number of digits, leading zeros included.
-/

namespace LojbanTree.Text

/-- The decimal digits of a natural number. -/
def naturalDigits (n : Nat) : List Char :=
  Nat.toDigits 10 n

/-- The decimal numeral of an integer. -/
def integerDigits : Int → List Char
  | .ofNat n => naturalDigits n
  | .negSucc n => '-' :: naturalDigits (n + 1)

/-- The decimal numeral of an integer as a text. -/
def integerText (n : Int) : String :=
  String.ofList (integerDigits n)

/-- The number that a run of decimal digits stands for. -/
def digitsValue (digits : List Char) : Nat :=
  Nat.ofDigitChars 10 digits 0

/-- The most digits that an integer may be read from. -/
def digitLimit : Nat := 4300

/-- A numeral with more digits than may be read. -/
structure OversizedInteger where
  /-- How many digits there are, leading zeros included. -/
  digits : Nat
  deriving DecidableEq, Repr

/-- What is said about an oversized numeral. -/
def OversizedInteger.message (e : OversizedInteger) : String :=
  "Exceeds the limit (" ++ toString digitLimit ++ " digits) for integer string conversion: " ++
    "value has " ++ toString e.digits ++
    " digits; use sys.set_int_max_str_digits() to increase the limit"

/-- The number of a run of digits within the limit. -/
def readDigits (digits : List Char) : Except OversizedInteger Nat :=
  if digits.length ≤ digitLimit then .ok (digitsValue digits) else .error ⟨digits.length⟩

/-- The small raised form of a digit; other characters stay. -/
def superscript (c : Char) : Char :=
  match c with
  | '0' => '⁰'
  | '1' => '¹'
  | '2' => '²'
  | '3' => '³'
  | '4' => '⁴'
  | '5' => '⁵'
  | '6' => '⁶'
  | '7' => '⁷'
  | '8' => '⁸'
  | '9' => '⁹'
  | c => c

/-- Reading the digits of a number gives it back. -/
@[simp] theorem digitsValue_naturalDigits (n : Nat) : digitsValue (naturalDigits n) = n := by
  simp [digitsValue, naturalDigits, Nat.ofDigitChars_toDigits]

end LojbanTree.Text
