import LojbanTree.CommandLine.Command

/-!
The command.

Only here are bytes really read and written. The steps of the command are those of the library.
-/

namespace LojbanTree.CommandLine

/-- All that a stream holds. -/
def readAll (stream : IO.FS.Stream) : IO (List UInt8) := do
  let mut bytes := ByteArray.empty
  repeat
    let chunk ← stream.read 0x10000
    if chunk.isEmpty then break
    bytes := bytes ++ chunk
  return bytes.toList

/-- The name by which the system knows a file. -/
def systemName (path : Path) : ExceptT Breakdown IO String := do
  let bytes ← orBreak (.path ∘ .unencodable) (Utf8.encodeName path.toText)
  match String.fromUTF8? ⟨bytes.toArray⟩ with
  | some name => return name
  | none => throw (.path (.refused path .notFound))

/-- The surroundings of a program. -/
def programHost : Host IO where
  input := do orBreak .undecodable (Utf8.decode (← readAll (← IO.getStdin)))
  read path := do return (← IO.FS.readBinFile (← systemName path)).toList
  create path := do
    let handle ← IO.FS.Handle.mk (← systemName path) .write
    return fun bytes => handle.write ⟨bytes.toArray⟩
  print bytes := do (← IO.getStdout).write ⟨bytes.toArray⟩
  log message := do (← IO.getStderr).putStr message
  sink? := none

end LojbanTree.CommandLine

open LojbanTree CommandLine in
/-- The command itself. -/
def main (arguments : List String) : IO UInt32 := do
  match ← (programHost.command (arguments.map Text.ofString)).run with
  | .ok status => return UInt32.ofNat status
  | .error cause =>
    (← IO.getStderr).putStr (cause.message ++ "\n")
    return 1
