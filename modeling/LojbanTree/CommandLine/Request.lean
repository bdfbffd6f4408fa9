import LojbanTree.CommandLine.Path
import LojbanTree.CommandLine.Word
import LojbanTree.Mode
import LojbanTree.Text.Numeral

/-!
What the arguments ask for.

The arguments are gone through from left to right. The first plain word names the file to read;
options may stand before and after it, a later value taking the place of an earlier one. Words that
mean nothing are gathered and refused at the end, so any other fault is reported first, and a
request for help ends everything at once.
-/

namespace LojbanTree

/-- The mode that a text on the command line names: digits alone are a level, anything else is
flag letters. -/
def Mode.ofArgument (text : Text) : Except Text.OversizedInteger Mode :=
  match text.chars? with
  | some (c :: rest) =>
    if (c :: rest).all Char.isDigit then
      match Text.readDigits (c :: rest) with
      | .ok number => .ok (.level number)
      | .error e => .error e
    else .ok (.flags text)
  | _ => .ok (.flags text)

namespace CommandLine

/-- Where the result goes when it does not go to the standard output. -/
inductive Target where
  | file (path : Path)
  /-- The value of the option has been dropped, so there is no file to open. -/
  | nameless
  deriving DecidableEq, Repr

/-- A run that the arguments ask for. -/
structure Invocation where
  /-- The file to read in place of the standard input. -/
  treeFile : Option Path := none
  mode : Mode := .level 2
  /-- Where to write in place of the standard output. -/
  output : Option Target := none
  verbosity : Nat := 0
  deriving Repr

/-- What the arguments ask for. -/
inductive Request where
  | help
  | run (invocation : Invocation)
  deriving Repr

/-- Whether the file to read may still be named. -/
inductive FileSlot where
  | vacant
  /-- It has been named by the word before; a separator that follows belongs to it. -/
  | justFilled
  | filled
  deriving DecidableEq, Repr

/-- What has been gathered from the arguments so far. -/
structure Progress where
  invocation : Invocation := {}
  slot : FileSlot := .vacant
  /-- Words that mean nothing. -/
  extras : List Text := []
  deriving Repr

/-- Something that an option does. The value `--` counts as a separator and is dropped. -/
inductive Action where
  | help
  | verbose
  | mode (value : Text)
  | output (value : Text)
  deriving DecidableEq, Repr

/-- The mode for the value of its option; where the value has been dropped the mode is the empty
list, which is not understood. -/
def modeOfValue (value : Text) : Except UsageError Mode :=
  if value = "--" then .ok (.unrecognized (.arr []))
  else
    match Mode.ofArgument value with
    | .ok mode => .ok mode
    | .error _ => .error (.invalidMode value)

/-- The output for the value of its option. -/
def Target.ofValue (value : Text) : Target :=
  if value = "--" then .nameless else .file (Path.ofText value)

namespace Progress

/-- Notes a word that means nothing. -/
def addExtra (progress : Progress) (text : Text) : Progress :=
  { progress with extras := progress.extras ++ [text] }

/-- After this, a separator no longer belongs to the file name. -/
def leaveSlot (progress : Progress) : Progress :=
  { progress with slot := if progress.slot = .vacant then .vacant else .filled }

/-- A plain word. -/
def takePlain (progress : Progress) (text : Text) : Progress :=
  match progress.slot with
  | .vacant =>
    { progress with
      invocation := { progress.invocation with treeFile := some (Path.ofText text) }
      slot := .justFilled }
  | _ => progress.leaveSlot.addExtra text

/-- The separator. -/
def takeSeparator (progress : Progress) : Progress :=
  match progress.slot with
  | .filled => progress.addExtra "--"
  | _ => progress

/-- Sets the mode. -/
def setMode (progress : Progress) (mode : Mode) : Progress :=
  { progress with invocation := { progress.invocation with mode := mode } }

/-- Sets the output. -/
def setOutput (progress : Progress) (target : Target) : Progress :=
  { progress with invocation := { progress.invocation with output := some target } }

/-- Performs the actions of an argument; nothing comes back when help is asked for. -/
def perform (progress : Progress) : List Action → Except UsageError (Option Progress)
  | [] => .ok (some progress)
  | .help :: _ => .ok none
  | .verbose :: rest =>
    perform { progress with
      invocation :=
        { progress.invocation with verbosity := progress.invocation.verbosity + 1 } } rest
  | .mode value :: rest =>
    match modeOfValue value with
    | .ok mode => perform (progress.setMode mode) rest
    | .error e => .error e
  | .output value :: rest => perform (progress.setOutput (.ofValue value)) rest

/-- The request, at the end of the arguments. -/
def finish (progress : Progress) : Except UsageError Request :=
  if progress.extras.isEmpty then .ok (.run progress.invocation)
  else .error (.unrecognized progress.extras)

end Progress

namespace Flag

/-- What an option without a value does. -/
def plainAction : Flag → Action
  | .help => .help
  | _ => .verbose

/-- What an option with a value does. -/
def valueAction (flag : Flag) (value : Text) : Action :=
  match flag with
  | .output => .output value
  | _ => .mode value

end Flag

/-- The options in one argument. -/
structure Cluster where
  /-- Options without a value, in order. -/
  plain : List Flag
  /-- The last option, if it takes a value, and the value, if it is attached. -/
  valued : Option (Flag × Option Text)
  deriving DecidableEq, Repr

namespace Cluster

/-- The cluster of a single option without anything attached. -/
def single (flag : Flag) : Cluster :=
  if flag.takesValue then ⟨[], some (flag, none)⟩ else ⟨[flag], none⟩

/-- The cluster with an option before the others. -/
def prepend (flag : Flag) (cluster : Cluster) : Cluster :=
  { cluster with plain := flag :: cluster.plain }

/-- Takes apart what is attached to an option. An option that takes a value takes all of it. After
another one with a single dash the next letter must be an option too, with what follows it
attached. -/
def read (flag : Flag) (isShort : Bool) (attached : List CodePoint) :
    Except UsageError Cluster :=
  if flag.takesValue then .ok ⟨[], some (flag, some (.ofList attached))⟩
  else
    match attached with
    | [] => .error (.ignoredArgument flag "")
    | c :: rest =>
      match if isShort then Flag.ofLetter? c else none with
      | none => .error (.ignoredArgument flag (.ofList (c :: rest)))
      | some next =>
        if rest.isEmpty then .ok ((single next).prepend flag)
        else (read next true rest).map (prepend flag)

/-- What the options without a value do. -/
def plainActions (cluster : Cluster) : List Action :=
  cluster.plain.map Flag.plainAction

/-- What the options do with a value for the last. -/
def actionsWith (cluster : Cluster) (flag : Flag) (value : Text) : List Action :=
  cluster.plainActions ++ [flag.valueAction value]

end Cluster

/-- The options in an argument. -/
def OptionUse.cluster (use : OptionUse) : Except UsageError Cluster :=
  match use.attached with
  | none => .ok (Cluster.single use.flag)
  | some attached => Cluster.read use.flag use.isShort attached.toList

/-- Goes through the words that are left. -/
def gather (progress : Progress) : List Word → Except UsageError Request
  | [] => progress.finish
  | .plain text :: rest => gather (progress.takePlain text) rest
  | .separator :: rest => gather progress.takeSeparator rest
  | .unknown text :: rest => gather (progress.leaveSlot.addExtra text) rest
  | .option use :: rest =>
    match use.cluster with
    | .error e => .error e
    | .ok cluster =>
      match cluster.valued with
      | none =>
        match progress.leaveSlot.perform cluster.plainActions with
        | .error e => .error e
        | .ok none => .ok .help
        | .ok (some next) => gather next rest
      | some (flag, some value) =>
        match progress.leaveSlot.perform (cluster.actionsWith flag value) with
        | .error e => .error e
        | .ok none => .ok .help
        | .ok (some next) => gather next rest
      | some (flag, none) =>
        match rest with
        | .plain value :: rest =>
          match progress.leaveSlot.perform (cluster.actionsWith flag value) with
          | .error e => .error e
          | .ok none => .ok .help
          | .ok (some next) => gather next rest
        | _ => .error (.expectedArgument flag)

/-- What the arguments ask for. -/
def Request.parse (arguments : List Text) : Except UsageError Request :=
  match Word.ofArguments arguments with
  | .error e => .error e
  | .ok words => gather {} words

end CommandLine

end LojbanTree
