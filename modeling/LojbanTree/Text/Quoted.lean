import LojbanTree.Text.Basic
import LojbanTree.Text.Hexadecimal
import LojbanTree.Text.Printable

/-!
Quoted text for messages.

A text stands between single quotes, or between double quotes when it holds a single quote and
no double quote. The quote in use and the backslash take a backslash before them, tab, line feed
and carriage return have letters of their own, and every other code point that cannot be shown,
a surrogate among them, is written by its number in two, four or eight hexadecimal digits.
-/

namespace LojbanTree.Text

/-- A code point written by its number. -/
def numbered (code : Nat) : List Char :=
  if code < 0x100 then '\\' :: 'x' :: hexDigits 2 code
  else if code < 0x10000 then '\\' :: 'u' :: hexDigits 4 code
  else '\\' :: 'U' :: hexDigits 8 code

namespace Quoted

/-- The quote that a text stands between. -/
def quoteFor (text : List CodePoint) : Char :=
  if text.contains (.char '\'') && !text.contains (.char '"') then '"' else '\''

/-- How a character is written between the quotes. -/
def escapeChar (quote c : Char) : List Char :=
  if c = quote ∨ c = '\\' then ['\\', c]
  else if c = '\t' then ['\\', 't']
  else if c = '\n' then ['\\', 'n']
  else if c = '\r' then ['\\', 'r']
  else if isPrintable c then [c]
  else numbered c.toNat

/-- How a code point is written between the quotes. -/
def escape (quote : Char) : CodePoint → List Char
  | .char c => escapeChar quote c
  | .surrogate place => numbered (CodePoint.surrogate place).toNat

/-- The text between its quotes. -/
def quoteChars (text : List CodePoint) : List Char :=
  let quote := quoteFor text
  quote :: (text.flatMap (escape quote) ++ [quote])

end Quoted

/-- A text as it stands in messages without quotes: only surrogates are written by their number. -/
def escaped (text : Text) : String :=
  String.ofList (text.toList.flatMap fun
    | .char c => [c]
    | .surrogate place => numbered (CodePoint.surrogate place).toNat)

/-- A text between quotes, as messages show it. -/
def quoted (text : Text) : String :=
  String.ofList (Quoted.quoteChars text.toList)

end LojbanTree.Text
