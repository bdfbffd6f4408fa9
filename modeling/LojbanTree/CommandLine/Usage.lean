import LojbanTree.CommandLine.Flag
import LojbanTree.Text.Quoted

/-!
What the command says about its use.
-/

namespace LojbanTree.CommandLine

/-- The usage line. -/
def usageLine : String :=
  "usage: camxes-postproc [-h] [-m MODE] [-o OUTPUTFILE] [-v] [treefile]\n"

/-- The help text. -/
def helpText : String :=
  usageLine ++
    "\n" ++
    "Command-line front end: postprocess a JSON parse tree read from a file or\n" ++
    "stdin.\n" ++
    "\n" ++
    "positional arguments:\n" ++
    "  treefile              JSON parse tree [default: stdin]\n" ++
    "\n" ++
    "options:\n" ++
    "  -h, --help            show this help message and exit\n" ++
    "  -m MODE, --mode MODE  numeric mode 0-31 or flag letters among SMNCTJR [2]\n" ++
    "  -o OUTPUTFILE, --outputfile OUTPUTFILE\n" ++
    "                        write the result there instead of stdout\n" ++
    "  -v, --verbose         -v for info, -vv for debug messages\n"

/-- Why the arguments are refused. -/
inductive UsageError where
  /-- An abbreviation that fits several options. -/
  | ambiguous (argument : Text) (candidates : List Flag)
  /-- Something is attached to an option that takes no value. -/
  | ignoredArgument (flag : Flag) (attached : Text)
  /-- The value of an option is missing. -/
  | expectedArgument (flag : Flag)
  /-- The mode is a number with too many digits. -/
  | invalidMode (value : Text)
  /-- Arguments that mean nothing. -/
  | unrecognized (arguments : List Text)
  deriving DecidableEq, Repr

namespace UsageError

/-- A complaint about one option. -/
def aboutFlag (flag : Flag) (complaint : String) : String :=
  "argument " ++ flag.displayName ++ ": " ++ complaint

/-- What is said about the arguments. -/
def message : UsageError → String
  | .ambiguous argument candidates =>
    "ambiguous option: " ++ argument.escaped ++ " could match " ++
      ", ".intercalate (candidates.map Flag.long)
  | .ignoredArgument flag attached =>
    aboutFlag flag ("ignored explicit argument " ++ attached.quoted)
  | .expectedArgument flag => aboutFlag flag "expected one argument"
  | .invalidMode value => aboutFlag .mode ("invalid parse_mode value: " ++ value.quoted)
  | .unrecognized arguments =>
    "unrecognized arguments: " ++ " ".intercalate (arguments.map Text.escaped)

/-- The whole answer to arguments that are refused. -/
def report (e : UsageError) : String :=
  usageLine ++ "camxes-postproc: error: " ++ e.message ++ "\n"

end UsageError

end LojbanTree.CommandLine
