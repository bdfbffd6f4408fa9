import LojbanTree.CommandLine.FileSystem
import LojbanTree.CommandLine.Request
import LojbanTree.Report
import LojbanTree.Text.Lines

/-!
What the command does, step by step.

The input is read first, then the output file is created or emptied, then the run takes place and
its writes go to the output file, to the screen or to a sink that a caller holds. A caller's sink
comes before an output file, which is then left alone. The steps are the same wherever the command
is executed; what they have to do with there is a parameter.
-/

namespace LojbanTree.CommandLine

/-- Why the command breaks off without an exit status. -/
inductive Breakdown where
  | path (cause : PathError)
  /-- There is no output file to open. -/
  | namelessOutput
  /-- What has been found is no text. -/
  | undecodable (cause : Utf8.DecodeError)
  | oversizedInteger (cause : Text.OversizedInteger)
  /-- What is to be written has no bytes. -/
  | unencodable (cause : Utf8.EncodeError)
  deriving DecidableEq, Repr

/-- What is said about it. -/
def Breakdown.message : Breakdown → String
  | .path cause => cause.message
  | .namelessOutput => "'list' object has no attribute 'open'"
  | .undecodable cause => cause.message
  | .oversizedInteger cause => cause.message
  | .unencodable cause => cause.message

/-- The least severity that is logged. -/
def leastSeverity : (verbosity : Nat) → Severity
  | 0 => .warning
  | 1 => .info
  | _ => .debug

/-- The log of some events. -/
def logText (verbosity : Nat) (events : List Event) : String :=
  String.join ((events.filter fun event =>
    (leastSeverity verbosity).rank ≤ event.severity.rank).map Event.line)

/-- What the command has to do with where it is executed. -/
structure Host (m : Type → Type) where
  /-- The text of the standard input. -/
  input : ExceptT Breakdown m Text
  /-- The bytes of a file. -/
  read (path : Path) : ExceptT Breakdown m (List UInt8)
  /-- Creates a file or empties it; what comes back adds to it. -/
  create (path : Path) : ExceptT Breakdown m (List UInt8 → m Unit)
  /-- Adds to the standard output. -/
  print (bytes : List UInt8) : m Unit
  /-- Adds to the standard error output. -/
  log (message : String) : m Unit
  /-- Adds to what a caller collects, if there is one who does. -/
  sink? : Option (Text → m Unit)

/-- What there is, or else a breakdown. -/
def orBreak {m : Type → Type} [Monad m] {ε α : Type} (breakdown : ε → Breakdown) :
    Except ε α → ExceptT Breakdown m α
  | .ok a => pure a
  | .error e => throw (breakdown e)

namespace Host

variable {m : Type → Type} [Monad m] (host : Host m) (invocation : Invocation)

/-- The text that an invocation is about, as it is. -/
def find : ExceptT Breakdown m Text :=
  match invocation.treeFile with
  | none => host.input
  | some path => do orBreak .undecodable (Utf8.decode (← host.read path))

/-- A way to write texts from a way to write bytes. -/
def encoding (write : List UInt8 → m Unit) (text : Text) : ExceptT Breakdown m Unit := do
  write (← orBreak .unencodable (Utf8.encode text))

/-- Makes ready for the result; what comes back writes there. -/
def openOutput : ExceptT Breakdown m (Text → ExceptT Breakdown m Unit) :=
  match host.sink?, invocation.output with
  | some sink, _ => return fun text => sink text
  | none, none => return encoding host.print
  | none, some .nameless => throw .namelessOutput
  | none, some (.file path) => return encoding (← host.create path)

/-- Runs over a text. -/
def deliver (text : Text) (write : Text → ExceptT Breakdown m Unit) : ExceptT Breakdown m Nat := do
  host.log (logText invocation.verbosity (runTextEvents text invocation.mode))
  let report ← orBreak .oversizedInteger (runText text invocation.mode)
  report.writes.forM write
  return report.status

/-- Goes on once the text to run over is there. -/
def complete (text : Text) : ExceptT Breakdown m Nat := do
  host.log (logText invocation.verbosity [.inputRead text.length])
  host.deliver invocation text (← host.openOutput invocation)

/-- Runs as an invocation asks. -/
def carryOut : ExceptT Breakdown m Nat := do
  host.complete invocation (Text.withUniformLineEnds (← host.find invocation))

/-- The command. What comes back is its exit status. -/
def command (arguments : List Text) : ExceptT Breakdown m Nat :=
  match Request.parse arguments with
  | .error e => do
    host.log e.report
    return 2
  | .ok .help => do
    encoding host.print helpText
    return 0
  | .ok (.run invocation) => host.carryOut invocation

end Host

end LojbanTree.CommandLine
