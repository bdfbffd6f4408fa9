import LojbanTree.Event
import LojbanTree.Json.Reader
import LojbanTree.Mode
import LojbanTree.Rendering

/-!
From a parser's output to the text that shows it.

What a parser hands over is a tree, a value of nested lists, or a JSON text. Input that is not a
tree is turned down with a diagnostic text in place of a result. Two things are errors instead: a
part of the nested lists that is neither a text nor a list, and an integer with too many digits in
a JSON text.
-/

namespace LojbanTree

/-- What a parser hands over. -/
inductive ParserOutput where
  | tree (tree : Tree)
  | value (value : Json)
  | text (text : Text)

/-- Parser output given as a JSON value: a text in it is JSON text. -/
def ParserOutput.ofJson : Json → ParserOutput
  | .str s => .text s
  | other => .value other

/-- Why there is no result at all. -/
inductive Failure where
  | unsupported (cause : UnsupportedElement)
  | oversizedInteger (cause : Text.OversizedInteger)
  deriving DecidableEq, Repr

/-- What is said about a failure. -/
def Failure.message : Failure → String
  | .unsupported cause => cause.message
  | .oversizedInteger cause => cause.message

/-- Why input is turned down. -/
inductive Rejection where
  /-- The text is not JSON. -/
  | unreadable
  /-- The value is not a list. -/
  | wrongKind (kind : Json.Kind)
  deriving DecidableEq, Repr

namespace Rejection

/-- How each diagnostic begins. -/
def opening : Text := "Postprocessor error:"

/-- What is added when the input is a text. -/
def textHint : Text :=
  "\n\nThe postprocessor doesn't accept string inputs. Please check the parse tree produced by " ++
    "the parser hasn't been converted to a string before being passed to the postprocessor."

/-- The kind of the input. Text that cannot be read is a text. -/
def kind : Rejection → Json.Kind
  | .unreadable => .str
  | .wrongKind kind => kind

/-- The diagnostic for input that is turned down. -/
def message (rejection : Rejection) : Text :=
  opening ++ " invalid input type for the first argument. It should be of type 'list', but the " ++
    "argument given is of type '" ++ rejection.kind.name ++ "'." ++
    (if rejection.kind = .str then textHint else "")

/-- The event that goes with it. -/
def event : Rejection → Event
  | .unreadable => .unreadable
  | .wrongKind kind => .rejectedKind kind

end Rejection

/-- What parser output turns out to be. -/
inductive Reading where
  | tree (tree : Tree)
  | rejected (cause : Rejection)
  | failed (cause : Failure)

/-- What a value turns out to be: only lists are trees. -/
def Reading.ofJson : Json → Reading
  | .arr items =>
    match Tree.ofJson (.arr items) with
    | .ok t => .tree t
    | .error cause => .failed (.unsupported cause)
  | value => .rejected (.wrongKind value.kind)

/-- What parser output turns out to be. -/
def ParserOutput.reading : ParserOutput → Reading
  | .tree t => .tree t
  | .value v => .ofJson v
  | .text s =>
    match Json.read s with
    | .ok v => .ofJson v
    | .error .malformed => .rejected .unreadable
    | .error (.oversizedInteger cause) => .failed (.oversizedInteger cause)

/-- The events of choosing options by a mode. -/
def Mode.events : Mode → List Event
  | .truth value => [.truthMode value]
  | .unrecognized value => [.unrecognizedMode value]
  | _ => []

/-- The events of processing a stripped tree. -/
def Tree.processEvents (options : Options) (tree : Tree) : List Event :=
  if (surviving? options tree).isNone then [.prunedAway] else []

/-- The events of showing a tree: it is processed only where the result is shown. -/
def Tree.renderEvents (options : Options) (tree : Tree) : List Event :=
  if options.style = .prettified then processEvents options (strip options tree) else []

/-- The text that shows parser output in a mode. -/
def ParserOutput.render (output : ParserOutput) (mode : Mode) : Except Failure Text :=
  match output.reading with
  | .tree t => .ok (t.render mode.options)
  | .rejected cause => .ok cause.message
  | .failed cause => .error cause

/-- The events on the way to that text, in order. -/
def ParserOutput.events (output : ParserOutput) (mode : Mode) : List Event :=
  match output.reading with
  | .tree t => mode.events ++ t.renderEvents mode.options
  | .rejected cause => [cause.event]
  | .failed _ => []

/-- The mode in effect when none is asked for. -/
def Mode.default : Mode := .level 0

end LojbanTree
