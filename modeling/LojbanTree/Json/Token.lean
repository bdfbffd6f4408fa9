import LojbanTree.Json.Basic
import LojbanTree.Text.Hexadecimal
import LojbanTree.Text.Numeral

/-!
The tokens of a JSON text.

The scanner walks over the text once, one code point at a time, in a mode that says what it is in
the middle of. Brackets, braces, commas and colons are tokens by themselves; a text between double
quotes is one token; a run of letters, digits, signs and points is an atom, which is a word such as
`null` or a number. Blank, tab, line feed and carriage return stand between tokens. At the first
code point that can belong to no token the scanner gives the token `invalid` and stops.

Inside a text a code point may be written by its code unit, or by two units that form a pair. Half
of a pair that is written without the other half is a surrogate that stands alone.
-/

namespace LojbanTree.Json

/-- A token. -/
inductive Token where
  | openBracket | closeBracket | openBrace | closeBrace | comma | colon
  | str (value : Text)
  /-- A number, a truth value or `null`. -/
  | scalar (value : Json)
  /-- An integer with too many digits. -/
  | oversized (cause : Text.OversizedInteger)
  | invalid
  deriving Repr

namespace Token

/-! ### Atoms -/

/-- The digits at the start, and what follows them. -/
def spanDigits (text : List Char) : List Char × List Char :=
  (text.takeWhile Char.isDigit, text.dropWhile Char.isDigit)

/-- The whole part of a number: a zero alone, or digits that do not start with one. -/
def scanWhole : List Char → Option (List Char × List Char)
  | '0' :: rest => some (['0'], rest)
  | c :: rest => if c.isDigit then some (spanDigits (c :: rest)) else none
  | [] => none

/-- The digits after a point; without a digit the point is not part of the number. -/
def scanFraction : List Char → List Char × List Char
  | '.' :: c :: rest => if c.isDigit then spanDigits (c :: rest) else ([], '.' :: c :: rest)
  | text => ([], text)

/-- The digits of an exponent after its sign, as a number. -/
def scanExponentDigits (negative : Bool) (text : List Char) : Option (Int × List Char) :=
  match spanDigits text with
  | ([], _) => none
  | (digits, rest) =>
    let size : Int := Text.digitsValue digits
    some (if negative then -size else size, rest)

/-- The exponent; without a digit the letter is not part of the number. -/
def scanExponent : List Char → Option (Int × List Char)
  | c :: rest =>
    if c = 'e' ∨ c = 'E' then
      match rest with
      | '-' :: digits => scanExponentDigits true digits
      | '+' :: digits => scanExponentDigits false digits
      | digits => scanExponentDigits false digits
    else none
  | [] => none

/-- The token of a number without a point and an exponent. -/
def ofWhole (negative : Bool) (digits : List Char) : Token :=
  match Text.readDigits digits with
  | .ok n => .scalar (.num (.int (if negative then -(n : Int) else n)))
  | .error cause => .oversized cause

/-- The token of a number with a point or an exponent. -/
def ofDecimal (negative : Bool) (whole fraction : List Char) (exponent : Int) : Token :=
  .scalar (.num (.decimal
    ⟨negative, Text.digitsValue (whole ++ fraction), exponent - fraction.length⟩))

/-- The longest number at the start of the text, and what follows it. -/
def scanUnsigned (negative : Bool) (text : List Char) : Option (Token × List Char) :=
  match scanWhole text with
  | none => none
  | some (whole, afterWhole) =>
    let (fraction, afterFraction) := scanFraction afterWhole
    match scanExponent afterFraction with
    | some (exponent, rest) => some (ofDecimal negative whole fraction exponent, rest)
    | none =>
      if fraction.isEmpty then some (ofWhole negative whole, afterFraction)
      else some (ofDecimal negative whole fraction 0, afterFraction)

/-- The longest number with an optional minus sign at the start of the text. -/
def scanNumber : List Char → Option (Token × List Char)
  | '-' :: text => scanUnsigned true text
  | text => scanUnsigned false text

/-- The words that stand for a value. -/
def ofWord? (atom : List Char) : Option Json :=
  if atom = "null".toList then some .null
  else if atom = "true".toList then some (.bool true)
  else if atom = "false".toList then some (.bool false)
  else if atom = "NaN".toList then some (.num .nan)
  else if atom = "Infinity".toList then some (.num (.infinite false))
  else if atom = "-Infinity".toList then some (.num (.infinite true))
  else none

/-- The tokens of an atom. What follows a number inside the atom belongs to no token. -/
def ofAtom (atom : List Char) : List Token :=
  match ofWord? atom with
  | some value => [.scalar value]
  | none =>
    match scanNumber atom with
    | some (token, []) => [token]
    | some (token, _ :: _) => [token, .invalid]
    | none => [.invalid]

/-- Can the character be part of an atom? -/
def isAtomChar (c : Char) : Bool :=
  c.isAlphanum || c = '-' || c = '+' || c = '.'

/-- May the character stand between tokens? -/
def isBlank (c : Char) : Bool :=
  c = ' ' || c = '\t' || c = '\n' || c = '\r'

/-! ### The scanner -/

/-- What the scanner is in the middle of. Texts and atoms are kept in reverse. -/
inductive Mode where
  | between
  | atom (seen : List Char)
  | text (seen : List CodePoint)
  /-- After a backslash in a text. -/
  | escape (seen : List CodePoint)
  /-- In the hexadecimal digits of a code unit: how many are missing, and the value so far. -/
  | unit (seen : List CodePoint) (missing value : Nat)
  /-- After the first half of a pair of code units. -/
  | half (seen : List CodePoint) (high : Nat)
  /-- After a backslash that follows the first half of a pair. -/
  | halfEscape (seen : List CodePoint) (high : Nat)
  /-- In the hexadecimal digits of a code unit that follows the first half of a pair. -/
  | halfUnit (seen : List CodePoint) (high missing value : Nat)
  deriving Repr

/-- The tokens that end with a code point, and the mode after it; without a mode the scan ends. -/
abbrev Step := List Token × Option Mode

/-- A code point that can belong to no token. -/
def refuse : Step := ([.invalid], none)

/-- A character between tokens. -/
def startStep (c : Char) : Step :=
  if isBlank c then ([], some .between)
  else if c = '[' then ([.openBracket], some .between)
  else if c = ']' then ([.closeBracket], some .between)
  else if c = '\x7b' then ([.openBrace], some .between)
  else if c = '\x7d' then ([.closeBrace], some .between)
  else if c = ',' then ([.comma], some .between)
  else if c = ':' then ([.colon], some .between)
  else if c = '"' then ([], some (.text []))
  else if isAtomChar c then ([], some (.atom [c]))
  else refuse

/-- A character in the middle of an atom, or right after it. -/
def atomStep (seen : List Char) (c : Char) : Step :=
  if isAtomChar c then ([], some (.atom (c :: seen)))
  else
    let (tokens, mode) := startStep c
    (ofAtom seen.reverse ++ tokens, mode)

/-- A code point inside a text. -/
def textStep (seen : List CodePoint) (c : CodePoint) : Step :=
  if c = '"' then ([.str (.ofList seen.reverse)], some .between)
  else if c = '\\' then ([], some (.escape seen))
  else if c.toNat < 0x20 then refuse
  else ([], some (.text (c :: seen)))

/-- The character for which a letter after a backslash stands. -/
def escaped? (c : Char) : Option Char :=
  match c with
  | '"' => some '"'
  | '\\' => some '\\'
  | '/' => some '/'
  | 'b' => some '\x08'
  | 'f' => some '\x0c'
  | 'n' => some '\n'
  | 'r' => some '\r'
  | 't' => some '\t'
  | _ => none

/-- The character after a backslash. -/
def escapeStep (seen : List CodePoint) (c : Char) : Step :=
  if c = 'u' then ([], some (.unit seen 4 0))
  else
    match escaped? c with
    | some plain => ([], some (.text (.char plain :: seen)))
    | none => refuse

/-- Is the code unit the first half of a pair? -/
def isHigh (unit : Nat) : Bool := 0xD800 ≤ unit && unit < 0xDC00

/-- Is the code unit the second half of a pair? -/
def isLow (unit : Nat) : Bool := 0xDC00 ≤ unit && unit < 0xE000

/-- The code point of a pair. -/
def ofPair (high low : Nat) : CodePoint :=
  .ofNat (0x10000 + (high - 0xD800) * 0x400 + (low - 0xDC00))

/-- A whole code unit has been read. The first half of a pair may still find the second; any other
unit is a code point by itself. -/
def unitMode (seen : List CodePoint) (unit : Nat) : Mode :=
  if isHigh unit then .half seen unit else .text (.ofNat unit :: seen)

/-- A whole code unit has been read after the first half of a pair. Unless it is the second half,
the first one stands alone. -/
def halfMode (seen : List CodePoint) (high unit : Nat) : Mode :=
  if isLow unit then .text (ofPair high unit :: seen) else unitMode (.ofNat high :: seen) unit

/-- A digit of a code unit: the mode while digits are missing, and the one after the last. -/
def digitStep (missing value : Nat) (next : Nat → Nat → Mode) (done : Nat → Mode) (c : Char) :
    Step :=
  match Text.hexValue? c with
  | none => refuse
  | some digit =>
    let value := value * 16 + digit
    ([], some (if missing = 1 then done value else next (missing - 1) value))

/-- One code point in a mode. -/
def step : Mode → CodePoint → Step
  | .between, .char c => startStep c
  | .atom seen, .char c => atomStep seen c
  | .atom seen, .surrogate _ => (ofAtom seen.reverse ++ [.invalid], none)
  | .text seen, c => textStep seen c
  | .escape seen, .char c => escapeStep seen c
  | .unit seen missing value, .char c => digitStep missing value (.unit seen) (unitMode seen) c
  | .half seen high, c =>
    if c = '\\' then ([], some (.halfEscape seen high)) else textStep (.ofNat high :: seen) c
  | .halfEscape seen high, .char c =>
    if c = 'u' then ([], some (.halfUnit seen high 4 0)) else escapeStep (.ofNat high :: seen) c
  | .halfUnit seen high missing value, .char c =>
    digitStep missing value (.halfUnit seen high) (halfMode seen high) c
  | _, .surrogate _ => refuse

/-- The tokens that the end of the text leaves. -/
def finish : Mode → List Token
  | .between => []
  | .atom seen => ofAtom seen.reverse
  | _ => [.invalid]

/-- The tokens of a text that goes on in a mode. -/
def scanFrom : Mode → List CodePoint → List Token
  | mode, [] => finish mode
  | mode, c :: rest =>
    match step mode c with
    | (tokens, some next) => tokens ++ scanFrom next rest
    | (tokens, none) => tokens

/-- The tokens of a text. -/
def scan (text : List CodePoint) : List Token :=
  scanFrom .between text

end Token

end LojbanTree.Json
