import LojbanTree.CommandLine.Path
import LojbanTree.Text.Utf8

/-!
Files and the paths to them.

Files hold bytes. Where a path leads is the system's affair: through directories and links, from
the root or from the working directory, with leave to read or without. All that counts here is
which file it is in the end, that is, its place. Two paths with one place are two names of a file.
-/

namespace LojbanTree.CommandLine

/-- Why a system refuses to follow a path. -/
structure Refusal where
  number : Nat
  reason : String
  deriving DecidableEq, Repr

namespace Refusal

def notFound : Refusal := ⟨2, "No such file or directory"⟩

def notADirectory : Refusal := ⟨20, "Not a directory"⟩

def isADirectory : Refusal := ⟨21, "Is a directory"⟩

/-- The path, or a name in it, is too long. -/
def tooLong : Refusal := ⟨36, "File name too long"⟩

end Refusal

/-- Why a file cannot be opened. -/
inductive PathError where
  | refused (path : Path) (refusal : Refusal)
  /-- The path holds a null character. -/
  | nullCharacter
  /-- The path has no bytes. -/
  | unencodable (cause : Utf8.EncodeError)
  deriving DecidableEq, Repr

/-- What is said about it. -/
def PathError.message : PathError → String
  | .refused path refusal =>
    "[Errno " ++ toString refusal.number ++ "] " ++ refusal.reason ++ ": " ++ path.quoted
  | .nullCharacter => "embedded null byte"
  | .unencodable cause => cause.message

/-- The files of a system, and where paths lead in it. -/
structure FileSystem (Place : Type) where
  /-- What the files hold. -/
  files : List (Place × List UInt8)
  /-- The place that a path leads to, for a file that is to be read. -/
  toRead (path : Path) : Except PathError Place
  /-- The same for a file that is to be written, whether it is there by now or not. -/
  toWrite (path : Path) : Except PathError Place

namespace FileSystem

variable {Place : Type} [DecidableEq Place]

/-- What the file at a place holds. -/
def get? (system : FileSystem Place) (place : Place) : Option (List UInt8) :=
  system.files.lookup place

/-- Creates a file, or replaces what it holds. -/
def put (system : FileSystem Place) (place : Place) (bytes : List UInt8) : FileSystem Place :=
  { system with
    files :=
      if (system.get? place).isSome then
        system.files.map fun file => if file.1 = place then (place, bytes) else file
      else system.files ++ [(place, bytes)] }

/-- Adds to what a file holds. -/
def append (system : FileSystem Place) (place : Place) (bytes : List UInt8) : FileSystem Place :=
  system.put place ((system.get? place).getD [] ++ bytes)

/-- What the file holds that a path leads to. -/
def read (system : FileSystem Place) (path : Path) : Except PathError (List UInt8) :=
  match system.toRead path with
  | .error e => .error e
  | .ok place =>
    match system.get? place with
    | some bytes => .ok bytes
    | none => .error (.refused path .notFound)

/-- Looking up a place after what is there has been replaced. -/
theorem lookup_replace (files : List (Place × List UInt8)) (place : Place) (bytes : List UInt8)
    (other : Place) :
    (files.map fun file => if file.1 = place then (place, bytes) else file).lookup other =
      if other = place then (files.lookup place).map fun _ => bytes else files.lookup other := by
  induction files with
  | nil => simp
  | cons file files ih =>
    obtain ⟨first, old⟩ := file
    by_cases hFirst : first = place <;> by_cases hOther : other = place <;>
      simp_all [List.lookup_cons] <;> grind

/-- A file that has been written holds what was written, and the others are as before. -/
theorem get?_put (system : FileSystem Place) (place : Place) (bytes : List UInt8)
    (other : Place) :
    (system.put place bytes).get? other =
      if other = place then some bytes else system.get? other := by
  unfold put get?
  split
  · next h =>
    obtain ⟨old, hOld⟩ := Option.isSome_iff_exists.mp h
    rw [lookup_replace, hOld, Option.map_some]
  · next h =>
    have hNone : system.files.lookup place = none := by
      rwa [Bool.not_eq_true, Option.isSome_eq_false_iff, Option.isNone_iff_eq_none] at h
    by_cases hOther : other = place
    · subst hOther
      simp [List.lookup_append, hNone]
    · have hNe : (other == place) = false := beq_false_of_ne hOther
      simp [List.lookup_append, List.lookup_cons, hOther, hNe]

/-- A file that has been added to holds what it held and what was added. -/
theorem get?_append (system : FileSystem Place) (place : Place) (bytes : List UInt8)
    (other : Place) :
    (system.append place bytes).get? other =
      if other = place then some ((system.get? place).getD [] ++ bytes)
      else system.get? other :=
  get?_put ..

end FileSystem

end LojbanTree.CommandLine
