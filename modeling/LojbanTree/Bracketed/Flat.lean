import LojbanTree.Text.Substitution

/-!
Flat bracketed text.

The JSON text of a tree loses its quotes, and blanks take the place of its commas. Words that stand
for blanks in the tree become `_`, and on request the labels that open the parts of a sentence
become tags.
-/

namespace LojbanTree.Bracketed

/-- The text without double quotes, and with a blank for each comma. -/
def dropQuotes (text : List CodePoint) : List CodePoint :=
  (text.filter (· ≠ .char '"')).map fun c => if c = .char ',' then .char ' ' else c

/-- The code points between which words stand. -/
def isDelimiter (c : CodePoint) : Bool :=
  c = ' ' || c = '[' || c = ']'

/-- Does the text begin with a delimiter? -/
def startsWithDelimiter : List CodePoint → Bool
  | c :: _ => isDelimiter c
  | [] => false

/-- The words that stand for blanks in a tree. -/
def blankNames : List (List CodePoint) :=
  ["initial_spaces".toList.map .char, "spaces".toList.map .char]

/-- Does the text begin with the whole word, up to a delimiter? -/
def beginsWithWord (word text : List CodePoint) : Bool :=
  word.isPrefixOf text && startsWithDelimiter (text.drop word.length)

/-- A word for blanks gives way to `_` if a delimiter stands before it and another after it. The
delimiter after it may be the one before the next. -/
def blankRule : Text.SubstitutionRule
  | c :: rest =>
    if isDelimiter c then
      (blankNames.find? fun name => beginsWithWord name rest).map fun name =>
        (name.length, [c, '_'])
    else none
  | [] => none

/-- The labels that get a tag, after the bracket that opens them, and their tags. -/
def tagTable : List (List CodePoint × List CodePoint) :=
  [("[prenex ".toList.map .char, "[PRENEX: ".toList.map .char),
   ("[sentence ".toList.map .char, "[BRIDI: ".toList.map .char),
   ("[selbri ".toList.map .char, "[SELBRI: ".toList.map .char),
   ("[sumti ".toList.map .char, "[SUMTI: ".toList.map .char)]

/-- Replaces the labels by their tags, one label after the other. -/
def tagLabels (text : List CodePoint) : List CodePoint :=
  tagTable.foldl (fun text entry => Text.substitute (Text.replacing entry.1 entry.2) text) text

/-- The flat text of a JSON text. -/
def flattenChars (nodeLabels : Bool) (text : List CodePoint) : List CodePoint :=
  let marked := Text.substitute blankRule (dropQuotes text)
  if nodeLabels then tagLabels marked else marked

/-- The flat text of a JSON text. -/
def flatten (nodeLabels : Bool) (text : Text) : Text :=
  Text.ofList (flattenChars nodeLabels text.toList)

end LojbanTree.Bracketed
