import LojbanTree.CommandLine.Command

/-!
Executing the command among given files.

All that the command can change is kept in one state, so that a whole execution is a function of
the arguments, the input and the files.
-/

namespace LojbanTree.CommandLine

/-- All that the command can change. -/
structure World (Place : Type) where
  system : FileSystem Place
  stdout : List UInt8 := []
  stderr : String := ""
  /-- What has been written to the caller's sink, one entry for each time. -/
  sunk : List Text := []

/-- Steps among given files. -/
abbrev Steps (Place α : Type) := ExceptT Breakdown (StateM (World Place)) α

section

variable {Place : Type}

namespace World

/-- Takes steps. -/
def run {α : Type} (world : World Place) (steps : Steps Place α) :
    Except Breakdown α × World Place :=
  StateT.run steps.run world

/-- Does something with the files. -/
def updateSystem (update : FileSystem Place → FileSystem Place) : StateM (World Place) Unit :=
  modify fun world => { world with system := update world.system }

/-- Keeps a text for the caller. -/
def collect (text : Text) : StateM (World Place) Unit :=
  modify fun world => { world with sunk := world.sunk ++ [text] }

/-- What the command has to do with among given files, with or without a caller's sink. -/
def host [DecidableEq Place] (stdin : Except Utf8.DecodeError Text) (toSink : Bool) :
    Host (StateM (World Place)) where
  input := orBreak .undecodable stdin
  read path := do orBreak .path ((← get).system.read path)
  create path := do
    let place ← orBreak .path ((← get).system.toWrite path)
    updateSystem (·.put place [])
    return fun bytes => updateSystem (·.append place bytes)
  print bytes := modify fun world => { world with stdout := world.stdout ++ bytes }
  log message := modify fun world => { world with stderr := world.stderr ++ message }
  sink? := if toSink then some collect else none

end World

/-- What there is after the command. -/
structure Outcome (Place : Type) where
  /-- The exit status, or why there is none. -/
  status : Except Breakdown Nat
  world : World Place

/-- Executes the command. The standard input holds a text, or bytes that are none. -/
def execute [DecidableEq Place] (arguments : List Text) (stdin : Except Utf8.DecodeError Text)
    (system : FileSystem Place) (toSink : Bool) : Outcome Place :=
  let after := World.run { system } ((World.host stdin toSink).command arguments)
  { status := after.1, world := after.2 }

end

end LojbanTree.CommandLine
