import LojbanTree.Json.Display
import LojbanTree.Tree.ListForm

/-!
What a run reports about itself.

Events are what may be logged on the way. Each has a severity, a component that it comes from, and
a wording.
-/

namespace LojbanTree

/-- How much an event matters. -/
inductive Severity where
  | debug | info | warning | error
  deriving DecidableEq, Repr

namespace Severity

/-- The name of a severity. -/
def name : Severity → String
  | .debug => "DEBUG"
  | .info => "INFO"
  | .warning => "WARNING"
  | .error => "ERROR"

/-- Severities in increasing order. -/
def rank : Severity → Nat
  | .debug => 0
  | .info => 1
  | .warning => 2
  | .error => 3

end Severity

/-- What may happen on the way. -/
inductive Event where
  /-- A truth value was given as a mode. -/
  | truthMode (value : Bool)
  | unrecognizedMode (value : Json)
  /-- Nothing was left of a tree. -/
  | prunedAway
  /-- The value given is neither a tree nor a text. -/
  | rejectedKind (kind : Json.Kind)
  /-- The text given cannot be read. -/
  | unreadable
  /-- A part of the value given is neither a text nor a list. -/
  | malformed (cause : UnsupportedElement)
  /-- The input has been read, so many characters. -/
  | inputRead (characters : Nat)
  deriving Repr

/-- How a mode is named when it is not understood: an object that has fields goes by the key of
the first. -/
def Json.displayMode : Json → List Char
  | .obj ((key, _) :: _) => displayText key
  | value => value.display

namespace Event

/-- How much the event matters. -/
def severity : Event → Severity
  | .truthMode _ => .debug
  | .unrecognizedMode _ => .debug
  | .prunedAway => .debug
  | .rejectedKind _ => .warning
  | .unreadable => .warning
  | .malformed _ => .error
  | .inputRead _ => .info

/-- The component that the event comes from. -/
def component : Event → String
  | .truthMode _ => "camxes_postproc.algorithm.config"
  | .unrecognizedMode _ => "camxes_postproc.algorithm.config"
  | .prunedAway => "camxes_postproc.postprocessor"
  | .rejectedKind _ => "camxes_postproc.api"
  | .unreadable => "camxes_postproc.api"
  | .malformed _ => "camxes_postproc.cli"
  | .inputRead _ => "camxes_postproc.cli"

/-- The wording of the event. -/
def message : Event → String
  | .truthMode value => "Boolean mode " ++ String.ofList (Json.bool value).display ++
      " treated as level 0"
  | .unrecognizedMode value => "Unrecognized mode " ++ String.ofList value.displayMode ++
      " treated as level 0"
  | .prunedAway => "Tree pruned away entirely"
  | .rejectedKind kind => "Rejected parse tree of type " ++ kind.name
  | .unreadable => "Parse tree is not valid JSON: JSONDecodeError"
  | .malformed cause => "Malformed parse tree: " ++ cause.message
  | .inputRead characters => "Read " ++ toString characters ++ " characters of parse tree"

/-- The event as a line of a log. -/
def line (event : Event) : String :=
  event.severity.name ++ ":" ++ event.component ++ ":" ++ event.message ++ "\n"

end Event

end LojbanTree
