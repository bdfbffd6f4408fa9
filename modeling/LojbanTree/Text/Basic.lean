/-!
Texts.

A text is a row of code points. Most are characters; but a text that names its code units one by
one can name half of a pair without the other half, and such a surrogate is a code point of its
own. Words, labels and whole parse trees are texts in this sense, so nothing that is read is lost.
-/

namespace LojbanTree

/-- A character, or a surrogate that stands alone. -/
inductive CodePoint where
  | char (c : Char)
  /-- The surrogate so many places after the first, which is U+D800. -/
  | surrogate (place : Fin 0x800)
  deriving DecidableEq, Repr

instance : Coe Char CodePoint := ⟨.char⟩

namespace CodePoint

/-- The number of a code point. -/
def toNat : CodePoint → Nat
  | .char c => c.toNat
  | .surrogate place => 0xD800 + place

/-- The code point with a number. -/
def ofNat (code : Nat) : CodePoint :=
  if h : 0xD800 ≤ code ∧ code < 0xE000 then .surrogate ⟨code - 0xD800, by omega⟩
  else .char (Char.ofNat code)

/-- The character that a code point is, if it is one. -/
def char? : CodePoint → Option Char
  | .char c => some c
  | .surrogate _ => none

/-- Is the code point a character of this kind? -/
def isChar (kind : Char → Bool) : CodePoint → Bool
  | .char c => kind c
  | .surrogate _ => false

end CodePoint

/-- A text. -/
@[ext]
structure Text where
  /-- The text with these code points. -/
  ofList ::
  toList : List CodePoint
  deriving DecidableEq, Repr, Inhabited

namespace Text

/-- The text with the characters of a string. -/
def ofString (s : String) : Text where
  toList := s.toList.map .char

instance : Coe String Text := ⟨ofString⟩

instance : Append Text := ⟨fun s t => ⟨s.toList ++ t.toList⟩⟩

/-- Texts one after the other, with nothing between them. -/
def join (texts : List Text) : Text where
  toList := texts.flatMap toList

/-- How many code points there are. -/
def length (text : Text) : Nat :=
  text.toList.length

/-- The characters of a text, if it holds no surrogate. -/
def chars? (text : Text) : Option (List Char) :=
  text.toList.mapM CodePoint.char?

/-- Texts one after the other, with a text between every two. -/
def intercalate (separator : Text) (texts : List Text) : Text where
  toList := separator.toList.intercalate (texts.map toList)

theorem toList_inj {s t : Text} : s.toList = t.toList ↔ s = t :=
  ⟨Text.ext, congrArg toList⟩

theorem toList_ofList (points : List CodePoint) : (ofList points).toList = points :=
  rfl

@[simp] theorem toList_ofString (s : String) : (ofString s).toList = s.toList.map .char :=
  rfl

@[simp] theorem toList_append (s t : Text) : (s ++ t).toList = s.toList ++ t.toList :=
  rfl

theorem toList_join (texts : List Text) : (join texts).toList = texts.flatMap toList :=
  rfl

/-- A text is spelled like a string exactly when it is that string. -/
theorem toList_eq_iff {text : Text} {s : String} :
    text.toList = s.toList.map .char ↔ text = s :=
  toList_inj (t := ofString s)

theorem toList_eq_nil_iff {text : Text} : text.toList = [] ↔ text = "" :=
  toList_eq_iff (s := "")

@[simp] theorem join_singleton (text : Text) : join [text] = text := by
  rw [← toList_inj, toList_join, List.flatMap_singleton]

theorem join_append (texts others : List Text) :
    join (texts ++ others) = join texts ++ join others := by
  rw [← toList_inj, toList_append, toList_join, toList_join, toList_join, List.flatMap_append]

/-- A text is a row of characters exactly when it has these characters. -/
theorem chars?_eq_some_iff {text : Text} {chars : List Char} :
    text.chars? = some chars ↔ chars.map .char = text.toList := by
  obtain ⟨points⟩ := text
  rw [chars?]
  induction points generalizing chars with
  | nil => cases chars <;> simp
  | cons point points ih =>
    cases point with
    | char c =>
      simp only [List.mapM_cons, CodePoint.char?, Option.bind_eq_bind, Option.bind_some,
        Option.bind_eq_some_iff, ih]
      cases chars with
      | nil => simp
      | cons first chars =>
        constructor
        · rintro ⟨rest, hrest, hcons⟩
          cases hcons
          exact congrArg (CodePoint.char c :: ·) hrest
        · intro h
          obtain ⟨hfirst, hrest⟩ := List.cons.inj h
          cases hfirst
          exact ⟨chars, hrest, rfl⟩
    | surrogate place => cases chars <;> simp [CodePoint.char?]

end Text

end LojbanTree
