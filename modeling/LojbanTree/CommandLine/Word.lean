import LojbanTree.CommandLine.Usage
import LojbanTree.Text.DecimalDigit

/-!
What kind of word each argument is.

Up to the separator `--` an argument that begins with a dash is an option, spelled out or
abbreviated, or unknown; but a dash alone, a negative number, and an unknown argument with a blank
in it count as plain words. After the separator all words are plain.
-/

namespace LojbanTree.CommandLine

/-- An argument by its kind. -/
inductive Word where
  | plain (text : Text)
  | separator
  | option (use : OptionUse)
  | unknown (text : Text)
  deriving DecidableEq, Repr

namespace Word

/-- The parts of an argument before and after its first equals sign. -/
def splitEquals : List CodePoint → List CodePoint × Option (List CodePoint)
  | [] => ([], none)
  | c :: rest =>
    if c = '=' then ([], some rest)
    else
      let (before, after) := splitEquals rest
      (c :: before, after)

/-- The text without a line feed at its end. -/
def dropFinalLineFeed (text : List CodePoint) : List CodePoint :=
  if text.getLast? = some (.char '\n') then text.dropLast else text

/-- Is the code point a decimal digit of some script? -/
def isDigit (point : CodePoint) : Bool :=
  point.isChar Text.isDecimalDigit

/-- Digits, at least one. -/
def isDigits (text : List CodePoint) : Bool :=
  !text.isEmpty && text.all isDigit

/-- Does an argument look like a negative number: a dash and digits, with a point before the last
of them or without one? -/
def isNegativeNumber : List CodePoint → Bool
  | '-' :: rest =>
    let body := dropFinalLineFeed rest
    isDigits body ||
      match body.dropWhile isDigit with
      | '.' :: fraction => isDigits fraction
      | _ => false
  | _ => false

/-- The kind of an argument that begins with a dash and names no option. -/
def ofUnknown (argument : Text) : Word :=
  if isNegativeNumber argument.toList || argument.toList.contains (.char ' ') then .plain argument
  else .unknown argument

/-- The kind of an argument with two dashes that does not spell out an option. -/
def ofLong (argument : Text) : Except UsageError Word :=
  let (name, attached) := splitEquals argument.toList
  match Flag.abbreviatedBy (.ofList name) with
  | [] => .ok (ofUnknown argument)
  | [flag] => .ok (.option ⟨flag, false, attached.map .ofList⟩)
  | candidates => .error (.ambiguous argument candidates)

/-- The kind of an argument with one dash that does not spell out an option. -/
def ofShort (argument : Text) (c : CodePoint) (rest : List CodePoint) : Word :=
  match Flag.ofLetter? c with
  | some flag => .option ⟨flag, true, some (.ofList rest)⟩
  | none => ofUnknown argument

/-- The option that an argument spells out, alone or before an equals sign. -/
def spelledOut? (argument : Text) : Option OptionUse :=
  let isShort (spelling : Text) : Bool := spelling.length = 2
  match Flag.ofSpelling? argument with
  | some flag => some ⟨flag, isShort argument, none⟩
  | none =>
    match splitEquals argument.toList with
    | (_, none) => none
    | (name, some attached) =>
      (Flag.ofSpelling? (.ofList name)).map fun flag =>
        ⟨flag, isShort (.ofList name), some (.ofList attached)⟩

/-- The kind of an argument before the separator. -/
def ofArgument (argument : Text) : Except UsageError Word :=
  match spelledOut? argument with
  | some use => .ok (.option use)
  | none =>
    match argument.toList with
    | '-' :: '-' :: _ => ofLong argument
    | '-' :: c :: rest => .ok (ofShort argument c rest)
    | _ => .ok (.plain argument)

/-- The kinds of all arguments. -/
def ofArguments : List Text → Except UsageError (List Word)
  | [] => .ok []
  | argument :: rest =>
    if argument = "--" then .ok (.separator :: rest.map .plain)
    else
      match ofArgument argument with
      | .error e => .error e
      | .ok word =>
        match ofArguments rest with
        | .error e => .error e
        | .ok words => .ok (word :: words)

end Word

end LojbanTree.CommandLine
