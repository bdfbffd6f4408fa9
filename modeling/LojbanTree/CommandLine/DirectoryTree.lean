import LojbanTree.CommandLine.FileSystem

/-!
Directories within directories.

A plain file system: every directory and every file is found by one row of names from the root, and
anything may be read and written. A path is followed name by name, from the root or from the
working directory; `.` stays where it is and `..` goes back.
-/

namespace LojbanTree.CommandLine

/-- The bytes of a name. -/
abbrev FileName := List UInt8

/-- Directories and files, each by the names on the way to it. -/
structure DirectoryTree where
  /-- All directories but the root. -/
  directories : List (List FileName)
  files : List (List FileName × List UInt8)
  /-- The working directory. -/
  working : List FileName
  deriving DecidableEq, Repr

namespace DirectoryTree

/-- The name of a directory for itself. -/
def here : FileName := [0x2E]

/-- The name of a directory for the one that it is in. -/
def above : FileName := [0x2E, 0x2E]

/-- The most bytes that a name may have. -/
def nameLimit : Nat := 255

/-- The most bytes that a path may have. -/
def pathLimit : Nat := 4095

variable (tree : DirectoryTree)

/-- Is there a directory at a place? -/
def isDirectory (place : List FileName) : Bool :=
  place.isEmpty || tree.directories.contains place

/-- Follows the names of a path that are left, from a directory. -/
def follow (path : Path) (start : List FileName) : List FileName → Except PathError (List FileName)
  | [] => .error (.refused path .isADirectory)
  | name :: rest =>
    if nameLimit < name.length then .error (.refused path .tooLong)
    else if name = here then follow path start rest
    else if name = above then follow path start.dropLast rest
    else if tree.isDirectory (start ++ [name]) then follow path (start ++ [name]) rest
    else if rest.isEmpty then .ok (start ++ [name])
    else if (tree.files.lookup (start ++ [name])).isSome then
      .error (.refused path .notADirectory)
    else .error (.refused path .notFound)

/-- The place of the file that a path leads to. -/
def place (path : Path) : Except PathError (List FileName) :=
  match Utf8.encodeName path.toText with
  | .error e => .error (.unencodable e)
  | .ok bytes =>
    if bytes.contains 0 then .error .nullCharacter
    else if pathLimit < bytes.length then .error (.refused path .tooLong)
    else
      tree.follow path (if path.slashes = 0 then tree.working else [])
        ((bytes.splitOn 0x2F).filter (· ≠ []))

/-- The files with the way to them. -/
def system : FileSystem (List FileName) where
  files := tree.files
  toRead := tree.place
  toWrite := tree.place

variable {tree} {path : Path} {start rest : List FileName}

/-- Through the names of directories a path leads where the rest of it leads from the last of them.
So a path from the working directory may as well be taken from the root. -/
theorem follow_append {names : List FileName}
    (hnames : ∀ name ∈ names, name.length ≤ nameLimit ∧ name ≠ here ∧ name ≠ above)
    (hthere : ∀ part, part <+: names → part ≠ [] → tree.isDirectory (start ++ part) = true) :
    tree.follow path start (names ++ rest) = tree.follow path (start ++ names) rest := by
  induction names generalizing start with
  | nil => rw [List.nil_append, List.append_nil]
  | cons name names ih =>
    obtain ⟨hlength, hhere, habove⟩ := hnames name List.mem_cons_self
    have hfirst : tree.isDirectory (start ++ [name]) = true :=
      hthere [name] (List.prefix_append [name] names) (List.cons_ne_nil _ _)
    rw [List.cons_append, follow, if_neg (by omega), if_neg hhere, if_neg habove, if_pos hfirst,
      ih (fun other h => hnames other (List.mem_cons_of_mem _ h)), List.append_assoc,
      List.singleton_append]
    intro part hpart _
    rw [List.append_assoc, List.singleton_append]
    exact hthere (name :: part) ((List.prefix_cons_inj name).mpr hpart) (List.cons_ne_nil _ _)

end DirectoryTree

end LojbanTree.CommandLine
