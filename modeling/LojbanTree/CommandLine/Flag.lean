import LojbanTree.Text.Basic

/-!
The options of the command.
-/

namespace LojbanTree.CommandLine

/-- An option of the command. -/
inductive Flag where
  | help | mode | output | verbose
  deriving DecidableEq, Repr

namespace Flag

/-- All options, in the order in which they are listed. -/
def all : List Flag := [.help, .mode, .output, .verbose]

/-- The letter of an option. -/
def letter : Flag → Char
  | .help => 'h'
  | .mode => 'm'
  | .output => 'o'
  | .verbose => 'v'

/-- The short spelling of an option. -/
def short (flag : Flag) : String := .ofList ['-', flag.letter]

/-- The long spelling of an option. -/
def long : Flag → String
  | .help => "--help"
  | .mode => "--mode"
  | .output => "--outputfile"
  | .verbose => "--verbose"

/-- Does a value go with the option? -/
def takesValue : Flag → Bool
  | .help => false
  | .mode => true
  | .output => true
  | .verbose => false

/-- How messages name an option: by both spellings. -/
def displayName (flag : Flag) : String :=
  flag.short ++ "/" ++ flag.long

/-- The option with a letter. -/
def ofLetter? (c : CodePoint) : Option Flag :=
  all.find? fun flag => .char flag.letter = c

/-- The option with exactly this spelling. -/
def ofSpelling? (spelling : Text) : Option Flag :=
  all.find? fun flag => flag.short = spelling ∨ flag.long = spelling

/-- The options whose long spelling begins so. -/
def abbreviatedBy (start : Text) : List Flag :=
  all.filter fun flag => start.toList.isPrefixOf (flag.long : Text).toList

end Flag

/-- An option as it stands in an argument. -/
structure OptionUse where
  flag : Flag
  /-- It is written with one dash, so that further letters may follow. -/
  isShort : Bool
  /-- What follows in the same argument, right after a letter or after an equals sign. -/
  attached : Option Text
  deriving DecidableEq, Repr

end LojbanTree.CommandLine
