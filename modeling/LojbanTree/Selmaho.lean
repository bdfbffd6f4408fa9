import LojbanTree.Text.Basic

/-!
Names of selma'o.

Terminal categories are named in capitals with `h` for the apostrophe: an optional leading letter,
a vowel or diphthong, then any number of further vowels or diphthongs with an `h` before each. A
name is recognised by this form alone, so categories that appear nowhere else are accepted too.
`Name` is the analysis of such a name and `Name.spell` its spelling; `Name.read?` finds the
analysis of a text.
-/

namespace LojbanTree.Selmaho

/-- A vowel or a diphthong. -/
inductive Core where
  | a | e | i | o | u | y | ai | ei | oi | au
  deriving DecidableEq, Repr

/-- How a core is written. -/
def Core.spell : Core → List Char
  | .a => ['A']
  | .e => ['E']
  | .i => ['I']
  | .o => ['O']
  | .u => ['U']
  | .y => ['Y']
  | .ai => ['A', 'I']
  | .ei => ['E', 'I']
  | .oi => ['O', 'I']
  | .au => ['A', 'U']

/-- The letters that a name may begin with before its first core. -/
def leadLetters : List Char :=
  ['I', 'U', 'B', 'C', 'D', 'F', 'G', 'J', 'K', 'L', 'M', 'N', 'P', 'R', 'S', 'T', 'V', 'X', 'Z']

/-- The analysis of a name: the leading letter if there is one, the first core, and the cores
that follow with an `h` before each. -/
structure Name where
  lead : Option { letter : Char // letter ∈ leadLetters }
  first : Core
  more : List Core
  deriving DecidableEq, Repr

/-- The cores of a name as they are written. -/
def spellCores (first : Core) (more : List Core) : List Char :=
  first.spell ++ more.flatMap fun core => 'h' :: core.spell

/-- A name as it is written. -/
def Name.spell (name : Name) : List Char :=
  (match name.lead with | some letter => [letter.val] | none => []) ++
    spellCores name.first name.more

/-- The core that a single letter is. -/
def vowel? : Char → Option Core
  | 'A' => some .a
  | 'E' => some .e
  | 'I' => some .i
  | 'O' => some .o
  | 'U' => some .u
  | 'Y' => some .y
  | _ => none

/-- The diphthong that a core makes with a following letter. -/
def Core.extend? : Core → Char → Option Core
  | .a, 'I' => some .ai
  | .e, 'I' => some .ei
  | .o, 'I' => some .oi
  | .a, 'U' => some .au
  | _, _ => none

/-- Reads the rest of a text after (part of) a core: the whole core and those that follow. -/
def readAfter (core : Core) : List Char → Option (Core × List Core)
  | [] => some (core, [])
  | 'h' :: c :: rest =>
    match vowel? c with
    | none => none
    | some next =>
      match readAfter next rest with
      | some (first, more) => some (core, first :: more)
      | none => none
  | c :: rest =>
    match core.extend? c with
    | some longer => readAfter longer rest
    | none => none

/-- Reads a text that is nothing but cores. -/
def readCores? : List Char → Option (Core × List Core)
  | [] => none
  | c :: rest =>
    match vowel? c with
    | some core => readAfter core rest
    | none => none

/-- The analysis of a text as a name. A letter that could lead is tried as a core first. -/
def Name.read? (text : List Char) : Option Name :=
  match readCores? text with
  | some (first, more) => some ⟨none, first, more⟩
  | none =>
    match text with
    | [] => none
    | letter :: rest =>
      if h : letter ∈ leadLetters then
        match readCores? rest with
        | some (first, more) => some ⟨some ⟨letter, h⟩, first, more⟩
        | none => none
      else none

/-- Does the text name a selma'o? No surrogate occurs in a name. -/
def isName (text : Text) : Bool :=
  match text.chars? with
  | some chars => (Name.read? chars).isSome
  | none => false

end LojbanTree.Selmaho
