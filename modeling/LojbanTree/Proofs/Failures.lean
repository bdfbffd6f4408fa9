import LojbanTree.Proofs.Json.Elements
import LojbanTree.Proofs.Json.OversizedInteger

/-!
The failures of parser output.

Parser output is shown, or turned down with a diagnostic, in all but two cases: a list with an
element that is neither a text nor a list, and a text at which reading stops for an integer with
too many digits. The mode plays no part. Main statement: these are the failures, each with its
cause, and a text that cannot be read for any other reason is turned down (`render_failures`).
-/

namespace LojbanTree

/-- A failure for an element of a list says of which kind the element is. -/
theorem Reading.ofJson_eq_failed_iff {value : Json} {failure : Failure} :
    Reading.ofJson value = .failed failure ↔
      value.kind = .list ∧
        ∃ foreign, value.foreign? = some foreign ∧ failure = .unsupported ⟨foreign.kind⟩ := by
  obtain ⟨hkind, h⟩ | ⟨-, hnone, _, -, h⟩ | ⟨hkind, foreign, hforeign, h⟩ :=
    Reading.ofJson_cases value
  · simp [h, hkind]
  · simp [h, hnone]
  · simp [h, hkind, hforeign, eq_comm]

namespace ParserOutput

/-- The value that parser output is, or that its text stands for. -/
def value? : ParserOutput → Option Json
  | .tree _ => none
  | .value v => some v
  | .text s => (Json.read s).toOption

/-- The value of a text is what reading it gives. -/
theorem read_of_value? {s : Text} {value : Json} (h : (text s).value? = some value) :
    Json.read s = .ok value := by
  rw [value?] at h
  cases hread : Json.read s with
  | ok other =>
    rw [hread] at h
    rw [Option.some.inj h]
  | error e =>
    rw [hread] at h
    cases h

/-- The causes for which parser output fails. -/
def FailsFor (output : ParserOutput) : Failure → Prop
  | .unsupported cause =>
    ∃ value foreign, output.value? = some value ∧ value.kind = .list ∧
      value.foreign? = some foreign ∧ cause = ⟨foreign.kind⟩
  | .oversizedInteger cause =>
    ∃ text, output = .text text ∧ Json.read text = .error (.oversizedInteger cause)

variable {output : ParserOutput} {mode : Mode} {failure : Failure}

/-- What a value fails for, as parser output of its own or read from a text. -/
theorem failsFor_of_value? {value : Json} (h : output.value? = some value) :
    output.FailsFor failure ↔ Reading.ofJson value = .failed failure := by
  rw [Reading.ofJson_eq_failed_iff]
  cases failure with
  | unsupported cause => simp [FailsFor, h]
  | oversizedInteger cause =>
    constructor
    · rintro ⟨text, rfl, hstop⟩
      rw [read_of_value? h] at hstop
      cases hstop
    · rintro ⟨-, foreign, -, h⟩
      cases h

/-- Parser output fails for its causes and no others. -/
theorem reading_eq_failed_iff : output.reading = .failed failure ↔ output.FailsFor failure := by
  cases output with
  | tree t => cases failure <;> simp [reading, FailsFor, value?]
  | value v => exact (failsFor_of_value? rfl).symm
  | text s =>
    rw [reading]
    cases hread : Json.read s with
    | ok v => exact (failsFor_of_value? (by simp [value?, hread, Except.toOption])).symm
    | error e =>
      cases e with
      | malformed => cases failure <;> simp [FailsFor, value?, hread, Except.toOption]
      | oversizedInteger cause =>
        cases failure <;> simp [FailsFor, value?, hread, Except.toOption]

theorem render_eq_error_iff : output.render mode = .error failure ↔ output.FailsFor failure := by
  rw [← reading_eq_failed_iff, render]
  cases output.reading <;> simp

/-- **Parser output fails in two cases only**, in every mode. A list fails at its first element
that is neither a text nor a list, and is shown if it has none. A text fails where reading it stops
at an integer, and then it holds more digits in a row than an integer may have. A text that cannot
be read for any other reason is turned down as a text. -/
theorem render_failures (output : ParserOutput) (mode : Mode) :
    (∀ failure, output.render mode = .error failure ↔ output.FailsFor failure) ∧
      (∀ cause, output.FailsFor (.unsupported cause) → cause.kind ≠ .str ∧ cause.kind ≠ .list) ∧
      (∀ cause, output.FailsFor (.oversizedInteger cause) →
        ∃ text, output = .text text ∧ Json.DigitRun text.toList cause) ∧
      ∀ text, output = .text text → Json.read text = .error .malformed →
        output.render mode = .ok Rejection.unreadable.message := by
  refine ⟨fun failure => render_eq_error_iff, ?_, ?_, ?_⟩
  · rintro cause ⟨value, foreign, -, -, hforeign, rfl⟩
    exact (Json.mem_of_foreign? hforeign).2
  · rintro cause ⟨text, htext, hread⟩
    exact ⟨text, htext, Json.digitRun_of_read hread⟩
  · rintro text rfl hread
    rw [render, reading, hread]

/-- Reading does stop at such integers: a text fails that is a list of one integer with too many
digits. -/
theorem render_list_of_digits {digits : List Char} (hall : ∀ c ∈ digits, c.isDigit = true)
    (hzero : digits.head? ≠ some '0') (hlimit : Text.digitLimit < digits.length) (mode : Mode) :
    (text (.ofList (.char '[' :: (digits.map .char ++ [.char ']'])))).render mode =
      .error (.oversizedInteger ⟨digits.length⟩) :=
  render_eq_error_iff.mpr ⟨_, rfl, Json.read_list_of_digits hall hzero hlimit⟩

end ParserOutput

end LojbanTree
