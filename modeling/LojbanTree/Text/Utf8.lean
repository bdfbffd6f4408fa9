import LojbanTree.Text.Quoted

/-!
Texts as bytes.

Files hold bytes. A character is written in one to four of them, the shorter the lower its number;
a surrogate has none, so a text with one cannot be written. Reading goes from byte to byte, and
stops at the first that no character can have where it stands.
-/

namespace LojbanTree.Utf8

/-! ### Writing -/

/-- Surrogates in a row that cannot be written. -/
structure EncodeError where
  /-- The place of the first in the text. -/
  start : Nat
  first : Fin 0x800
  /-- How many follow it. -/
  further : Nat
  deriving DecidableEq, Repr

/-- What is said about them. -/
def EncodeError.message (e : EncodeError) : String :=
  let place :=
    if e.further = 0 then
      "character '" ++ String.ofList (Text.numbered (CodePoint.surrogate e.first).toNat) ++
        "' in position " ++ toString e.start
    else "characters in position " ++ toString e.start ++ "-" ++ toString (e.start + e.further)
  "'utf-8' codec can't encode " ++ place ++ ": surrogates not allowed"

/-- How many surrogates a row of code points begins with. -/
def leadingSurrogates : List CodePoint → Nat
  | .surrogate _ :: rest => leadingSurrogates rest + 1
  | _ => 0

/-- The bytes of what is left of a text. A surrogate may stand for a byte of its own. -/
def encodeFrom (escaped? : Fin 0x800 → Option UInt8) (position : Nat) :
    List CodePoint → Except EncodeError (List UInt8)
  | [] => .ok []
  | .char c :: rest =>
    (encodeFrom escaped? (position + 1) rest).map (String.utf8EncodeChar c ++ ·)
  | .surrogate place :: rest =>
    match escaped? place with
    | some byte => (encodeFrom escaped? (position + 1) rest).map (byte :: ·)
    | none => .error ⟨position, place, leadingSurrogates rest⟩

/-- The bytes of a text. -/
def encode (text : Text) : Except EncodeError (List UInt8) :=
  encodeFrom (fun _ => none) 0 text.toList

/-- The bytes of a string. -/
def ofString (s : String) : List UInt8 :=
  s.toList.flatMap String.utf8EncodeChar

/-- A text without surrogates can be written. -/
theorem encode_ofString (s : String) : encode s = .ok (ofString s) := by
  rw [encode, Text.toList_ofString, ofString]
  generalize 0 = position
  induction s.toList generalizing position with
  | nil => rfl
  | cons c rest ih =>
    rw [List.map_cons, encodeFrom, ih]
    rfl

/-- The byte for which a surrogate stands in the name of a file: those from U+DC80 to U+DCFF stand
for the bytes from 80 to FF, which need not be part of any character there. -/
def escapedByte? (place : Fin 0x800) : Option UInt8 :=
  if 0x480 ≤ place.val ∧ place.val < 0x500 then some (.ofNat (place - 0x400)) else none

/-- The bytes of the name of a file. -/
def encodeName (text : Text) : Except EncodeError (List UInt8) :=
  encodeFrom escapedByte? 0 text.toList

/-! ### Reading -/

/-- What may be wrong with a byte. -/
inductive Fault where
  /-- No character begins with it. -/
  | start
  /-- It does not go on with the character before it. -/
  | continuation
  /-- There is no byte where one is missing. -/
  | ending
  deriving DecidableEq, Repr

/-- What is said about it. -/
def Fault.reason : Fault → String
  | .start => "invalid start byte"
  | .continuation => "invalid continuation byte"
  | .ending => "unexpected end of data"

/-- Bytes in a row that are no character. -/
structure DecodeError where
  fault : Fault
  /-- The place of the first. -/
  start : Nat
  first : UInt8
  /-- How many follow it. -/
  further : Nat
  deriving DecidableEq, Repr

/-- What is said about them. -/
def DecodeError.message (e : DecodeError) : String :=
  let place :=
    if e.further = 0 then
      "byte 0x" ++ String.ofList (Text.hexDigits 2 e.first.toNat) ++ " in position " ++
        toString e.start
    else "bytes in position " ++ toString e.start ++ "-" ++ toString (e.start + e.further)
  "'utf-8' codec can't decode " ++ place ++ ": " ++ e.fault.reason

/-- A character that has been read in part. -/
structure Pending where
  /-- The place of its first byte. -/
  start : Nat
  first : UInt8
  /-- How many bytes after the first have been read. -/
  further : Nat
  /-- The bits that these bytes give. -/
  value : Nat
  /-- How many bytes are missing after the next. -/
  owed : Nat
  /-- The least that the next byte may be, and the greatest. -/
  low : Nat
  high : Nat
  deriving DecidableEq, Repr

namespace Pending

/-- The character that a first byte of several announces. The second byte has narrower bounds
where it could make up a character that has fewer bytes, a surrogate, or no character at all. -/
def begin? (position : Nat) (byte : UInt8) : Option Pending :=
  let code := byte.toNat
  if code < 0xC2 then none
  else if code < 0xE0 then some ⟨position, byte, 0, code - 0xC0, 0, 0x80, 0xBF⟩
  else if code < 0xF0 then
    some ⟨position, byte, 0, code - 0xE0, 1, if code = 0xE0 then 0xA0 else 0x80,
      if code = 0xED then 0x9F else 0xBF⟩
  else if code < 0xF5 then
    some ⟨position, byte, 0, code - 0xF0, 2, if code = 0xF0 then 0x90 else 0x80,
      if code = 0xF4 then 0x8F else 0xBF⟩
  else none

/-- The bits with those of one more byte. -/
def valueWith (pending : Pending) (byte : UInt8) : Nat :=
  pending.value * 0x40 + (byte.toNat - 0x80)

/-- The character with one more byte, of which more are missing. -/
def take (pending : Pending) (byte : UInt8) (owed : Nat) : Pending :=
  { pending with
    further := pending.further + 1, value := pending.valueWith byte, owed
    low := 0x80, high := 0xBF }

/-- The bytes of a character that is not completed. -/
def error (pending : Pending) (fault : Fault) : DecodeError :=
  ⟨fault, pending.start, pending.first, pending.further⟩

end Pending

/-- The code points of what is left of some bytes. -/
def decodeFrom (position : Nat) :
    Option Pending → List UInt8 → Except DecodeError (List CodePoint)
  | none, [] => .ok []
  | some pending, [] => .error (pending.error .ending)
  | none, byte :: rest =>
    if byte.toNat < 0x80 then
      (decodeFrom (position + 1) none rest).map (.char (.ofNat byte.toNat) :: ·)
    else
      match Pending.begin? position byte with
      | some pending => decodeFrom (position + 1) (some pending) rest
      | none => .error ⟨.start, position, byte, 0⟩
  | some pending, byte :: rest =>
    if pending.low ≤ byte.toNat ∧ byte.toNat ≤ pending.high then
      match pending.owed with
      | 0 =>
        (decodeFrom (position + 1) none rest).map (.char (.ofNat (pending.valueWith byte)) :: ·)
      | owed + 1 => decodeFrom (position + 1) (some (pending.take byte owed)) rest
    else .error (pending.error .continuation)

/-- The text that bytes stand for. -/
def decode (bytes : List UInt8) : Except DecodeError Text :=
  (decodeFrom 0 none bytes).map .ofList

end LojbanTree.Utf8
