import LojbanTree.Proofs.Json.RoundTrip
import Mathlib.Data.List.Infix
import Mathlib.Data.List.TakeWhile

/-!
Oversized integers in a JSON text.

The scanner gives the token for an oversized integer only where it has read the digits one after
the other. What it has read and not yet made a token of is the atom that it is in the middle of, so
one step loses no digit from sight. Main statements: where reading a text stops at an oversized
integer, the text holds a run of that many digits, which is above the limit (`digitRun_of_read`),
and a list of one such run does stop it (`read_list_of_digits`).
-/

namespace LojbanTree.Json

/-- A run of digits in the text, as many as the integer has and more than it may have. -/
def DigitRun (text : List CodePoint) (cause : Text.OversizedInteger) : Prop :=
  Text.digitLimit < cause.digits ∧
    ∃ digits : List Char, digits.map .char <:+: text ∧ digits.length = cause.digits ∧
      ∀ c ∈ digits, c.isDigit = true

theorem DigitRun.mono {text whole : List CodePoint} {cause : Text.OversizedInteger}
    (h : DigitRun text cause) (hwithin : text <:+: whole) : DigitRun whole cause := by
  obtain ⟨hlimit, digits, hdigits, hlength, hall⟩ := h
  exact ⟨hlimit, digits, hdigits.trans hwithin, hlength, hall⟩

namespace Token

/-! ### Atoms -/

section

variable {text : List Char} {cause : Text.OversizedInteger}

/-- The whole part of a number is made of the digits at the start of the text. -/
theorem digits_of_scanWhole {whole after : List Char} (h : scanWhole text = some (whole, after)) :
    whole <+: text ∧ ∀ c ∈ whole, c.isDigit = true := by
  unfold scanWhole at h
  split at h
  · cases h
    exact ⟨⟨after, rfl⟩, List.forall_mem_singleton.mpr rfl⟩
  · split at h
    · cases h
      exact ⟨List.takeWhile_prefix _, List.all_eq_true.mp List.all_takeWhile⟩
    · cases h
  · cases h

/-- Only the whole part of a number can be too long. -/
theorem digitRun_of_ofWhole {negative : Bool} {digits : List Char}
    (h : ofWhole negative digits = .oversized cause) (hdigits : digits <+: text)
    (hall : ∀ c ∈ digits, c.isDigit = true) : DigitRun (text.map .char) cause := by
  unfold ofWhole Text.readDigits at h
  split at h
  · cases h
  · rename_i e he
    cases h
    split at he
    · cases he
    · rename_i hlimit
      cases he
      exact ⟨by simpa using hlimit, digits, (hdigits.map _).isInfix, rfl, hall⟩

theorem digitRun_of_scanUnsigned {negative : Bool} {after : List Char}
    (h : scanUnsigned negative text = some (.oversized cause, after)) :
    DigitRun (text.map .char) cause := by
  unfold scanUnsigned at h
  split at h
  · cases h
  · rename_i whole afterWhole hwhole
    obtain ⟨hstart, hall⟩ := digits_of_scanWhole hwhole
    dsimp only at h
    split at h
    · simp [ofDecimal] at h
    · split at h
      · simp only [Option.some.injEq, Prod.mk.injEq] at h
        exact digitRun_of_ofWhole h.1 hstart hall
      · simp [ofDecimal] at h

theorem digitRun_of_scanNumber {after : List Char}
    (h : scanNumber text = some (.oversized cause, after)) : DigitRun (text.map .char) cause := by
  unfold scanNumber at h
  split at h
  · exact (digitRun_of_scanUnsigned h).mono (List.suffix_cons _ _).isInfix
  · exact digitRun_of_scanUnsigned h

theorem digitRun_of_ofAtom (h : .oversized cause ∈ ofAtom text) :
    DigitRun (text.map .char) cause := by
  unfold ofAtom at h
  split at h
  · simp at h
  · split at h
    · rename_i token hnumber
      obtain rfl := List.mem_singleton.mp h
      exact digitRun_of_scanNumber hnumber
    · rename_i hnumber
      rw [List.mem_cons, List.mem_singleton] at h
      rcases h with rfl | h
      · exact digitRun_of_scanNumber hnumber
      · cases h
    · simp at h

end

/-! ### The scanner -/

section

variable {text : List CodePoint} {cause : Text.OversizedInteger}

/-- What has been read and is not part of a token yet, as far as it can be part of a number. -/
def pending : Mode → List CodePoint
  | .atom seen => seen.reverse.map .char
  | _ => []

/-- A step with no token for an oversized integer, after which no more than a text is pending. -/
def Leaves (cause : Text.OversizedInteger) (taken : Step) (text : List CodePoint) : Prop :=
  .oversized cause ∉ taken.1 ∧ ∀ next, taken.2 = some next → pending next <:+ text

theorem leaves_refuse : Leaves cause refuse text :=
  ⟨by simp [refuse], fun next h => by cases h⟩

/-- Between tokens an atom may begin. -/
theorem leaves_startStep (c : Char) : Leaves cause (startStep c) [.char c] := by
  unfold startStep
  repeat' split
  all_goals simp [Leaves, refuse, pending]

theorem leaves_textStep (seen : List CodePoint) (c : CodePoint) :
    Leaves cause (textStep seen c) [] := by
  unfold textStep
  repeat' split
  all_goals simp [Leaves, refuse, pending]

theorem leaves_escapeStep (seen : List CodePoint) (c : Char) :
    Leaves cause (escapeStep seen c) [] := by
  unfold escapeStep
  repeat' split
  all_goals simp [Leaves, refuse, pending]

/-- In the digits of a code unit nothing is pending, and neither after them. -/
theorem leaves_digitStep {next : Nat → Nat → Mode} {done : Nat → Mode}
    (hnext : ∀ missing value, pending (next missing value) = [])
    (hdone : ∀ unit, pending (done unit) = []) (missing value : Nat) (c : Char) :
    Leaves cause (digitStep missing value next done c) [] := by
  unfold digitStep
  split
  · exact leaves_refuse
  · refine ⟨List.not_mem_nil, fun mode h => ?_⟩
    obtain rfl := Option.some.inj h
    split
    · rw [hdone]
    · rw [hnext]

theorem pending_unitMode (seen : List CodePoint) (unit : Nat) :
    pending (unitMode seen unit) = [] := by
  unfold unitMode
  split <;> rfl

theorem pending_halfMode (seen : List CodePoint) (high unit : Nat) :
    pending (halfMode seen high unit) = [] := by
  unfold halfMode
  split
  · rfl
  · exact pending_unitMode _ _

/-- Inside a text nothing is pending. -/
theorem leaves_step {mode : Mode} (hbetween : mode ≠ .between) (hatom : ∀ seen, mode ≠ .atom seen)
    (c : CodePoint) : Leaves cause (step mode c) [] := by
  unfold step
  split
  · exact absurd rfl hbetween
  · exact absurd rfl (hatom _)
  · exact absurd rfl (hatom _)
  · exact leaves_textStep _ _
  · exact leaves_escapeStep _ _
  · exact leaves_digitStep (fun _ _ => rfl) (pending_unitMode _) _ _ _
  · split
    · simp [Leaves, pending]
    · exact leaves_textStep _ _
  · split
    · simp [Leaves, pending]
    · exact leaves_escapeStep _ _
  · exact leaves_digitStep (fun _ _ => rfl) (pending_halfMode _ _) _ _ _
  · exact leaves_refuse

/-- One step: a token for an oversized integer comes from what is pending, and what is pending
afterwards ends with the code point of the step. -/
theorem step_pending (mode : Mode) (c : CodePoint) :
    (.oversized cause ∈ (step mode c).1 → DigitRun (pending mode) cause) ∧
      ∀ next, (step mode c).2 = some next → pending next <:+ pending mode ++ [c] := by
  have quiet : ∀ {taken : Step} {run : List CodePoint}, Leaves cause taken run →
      run <:+ pending mode ++ [c] →
      (.oversized cause ∈ taken.1 → DigitRun (pending mode) cause) ∧
        ∀ next, taken.2 = some next → pending next <:+ pending mode ++ [c] :=
    fun h hrun => ⟨fun hmem => absurd hmem h.1, fun next hnext => (h.2 next hnext).trans hrun⟩
  cases mode with
  | between =>
    cases c with
    | char d => exact quiet (leaves_startStep d) (List.suffix_append _ _)
    | surrogate place => exact quiet leaves_refuse List.nil_suffix
  | atom seen =>
    cases c with
    | char d =>
      rw [step, atomStep]
      split
      · exact ⟨fun h => absurd h List.not_mem_nil, fun next h => by cases h; simp [pending]⟩
      · obtain ⟨hnone, hnext⟩ := @leaves_startStep cause d
        refine ⟨fun h => ?_, fun next h => (hnext next h).trans (List.suffix_append _ _)⟩
        rcases List.mem_append.mp h with h | h
        · exact digitRun_of_ofAtom h
        · exact absurd h hnone
    | surrogate place =>
      refine ⟨fun h => ?_, fun next h => by cases h⟩
      rcases List.mem_append.mp h with h | h
      · exact digitRun_of_ofAtom h
      · cases List.mem_singleton.mp h
  | text | escape | unit | half | halfEscape | halfUnit =>
    exact quiet (leaves_step (by simp) (by simp) c) List.nil_suffix

/-- An oversized integer among the tokens stands in what was pending or in the text. -/
theorem digitRun_of_mem_scanFrom (mode : Mode) (h : .oversized cause ∈ scanFrom mode text) :
    DigitRun (pending mode ++ text) cause := by
  -- By induction on what is left to read: a step moves a code point from there to what is pending,
  -- or drops it together with what can no longer be part of a number.
  induction text generalizing mode with
  | nil =>
    rw [List.append_nil]
    cases mode with
    | atom seen => exact digitRun_of_ofAtom h
    | _ => simp [scanFrom, finish] at h
  | cons c rest ih =>
    obtain ⟨hnow, hnext⟩ := @step_pending cause mode c
    rw [scanFrom] at h
    split at h
    · rename_i tokens next hstep
      rw [hstep] at hnow hnext
      rcases List.mem_append.mp h with h | h
      · exact (hnow h).mono (List.prefix_append _ _).isInfix
      · refine (ih next h).mono ?_
        obtain ⟨before, hbefore⟩ := hnext next rfl
        refine ⟨before, [], ?_⟩
        rw [List.append_nil, ← List.append_assoc, hbefore, List.append_assoc, List.singleton_append]
    · rename_i tokens hstep
      rw [hstep] at hnow
      exact (hnow h).mono (List.prefix_append _ _).isInfix

end

end Token

/-! ### The reader -/

namespace Reader

variable {cause : Text.OversizedInteger}

theorem token_of_beginValue {stack : List Frame} {token : Token}
    (h : beginValue stack token = .error (.oversizedInteger cause)) : token = .oversized cause := by
  cases token with
  | oversized other =>
    cases h
    rfl
  | _ => cases h

theorem afterValue_ne_oversized (value : Json) (stack : List Frame) (token : Token) :
    afterValue value stack token ≠ .error (.oversizedInteger cause) := by
  unfold afterValue
  split <;> simp

/-- The reader stops at an oversized integer only where it meets the token. -/
theorem token_of_step {state : State} {token : Token}
    (h : step state token = .error (.oversizedInteger cause)) : token = .oversized cause := by
  unfold step at h
  split at h
  · exact token_of_beginValue h
  · cases h
  · exact token_of_beginValue h
  · cases h
  · cases h
  · cases h
  · cases h
  · exact absurd h (afterValue_ne_oversized _ _ _)
  · cases h

theorem mem_of_run {state : State} {tokens : List Token}
    (h : run state tokens = .error (.oversizedInteger cause)) : .oversized cause ∈ tokens := by
  induction tokens generalizing state with
  | nil => cases state with
    | complete value stack => cases stack <;> cases h
    | _ => cases h
  | cons token rest ih =>
    rw [run] at h
    split at h
    · exact List.mem_cons_of_mem _ (ih h)
    · rename_i e hstep
      cases h
      rw [token_of_step hstep]
      exact List.mem_cons_self

end Reader

/-- **A text at which reading stops for an oversized integer holds its digits**, one after the
other, and there are more of them than an integer may have. -/
theorem digitRun_of_read {text : Text} {cause : Text.OversizedInteger}
    (h : read text = .error (.oversizedInteger cause)) : DigitRun text.toList cause :=
  Token.digitRun_of_mem_scanFrom .between (Reader.mem_of_run h)

/-! ### A list of one oversized integer -/

namespace Token

variable {digits : List Char}

theorem isAtomChar_of_isDigit {c : Char} (h : c.isDigit = true) : isAtomChar c = true := by
  simp [isAtomChar, Char.isAlphanum, h]

/-- Digits go on with the atom that they stand in. -/
theorem scanFrom_digits (hall : ∀ c ∈ digits, c.isDigit = true) (seen : List Char)
    (rest : List CodePoint) :
    scanFrom (.atom seen) (digits.map .char ++ rest) =
      scanFrom (.atom (digits.reverse ++ seen)) rest := by
  induction digits generalizing seen with
  | nil => rfl
  | cons c digits ih =>
    obtain ⟨hc, hall⟩ := List.forall_mem_cons.mp hall
    have hstep : step (.atom seen) c = ([], some (.atom (c :: seen))) :=
      if_pos (isAtomChar_of_isDigit hc)
    rw [List.map_cons, List.cons_append, scanFrom_of_silent _ hstep, ih hall,
      List.reverse_cons, List.append_assoc, List.singleton_append]

theorem ne_of_isDigit {c d : Char} (h : c.isDigit = true) (hd : d.isDigit = false) : c ≠ d := by
  rintro rfl
  rw [h] at hd
  cases hd

theorem step_between_of_isDigit {c : Char} (h : c.isDigit = true) :
    step .between c = ([], some (.atom [c])) := by
  have hblank : isBlank c = false := by
    simp [isBlank, ne_of_isDigit h (d := ' ') rfl, ne_of_isDigit h (d := '\t') rfl,
      ne_of_isDigit h (d := '\n') rfl, ne_of_isDigit h (d := '\r') rfl]
  simp [step, startStep, hblank, isAtomChar_of_isDigit h, ne_of_isDigit h (d := '[') rfl,
    ne_of_isDigit h (d := ']') rfl, ne_of_isDigit h (d := '\x7b') rfl,
    ne_of_isDigit h (d := '\x7d') rfl, ne_of_isDigit h (d := ',') rfl,
    ne_of_isDigit h (d := ':') rfl, ne_of_isDigit h (d := '"') rfl]

/-- No word that stands for a value begins with a digit. -/
theorem ofWord?_of_isDigit {c : Char} (h : c.isDigit = true) : ofWord? (c :: digits) = none := by
  simp [ofWord?, ne_of_isDigit h (d := 'n') rfl, ne_of_isDigit h (d := 't') rfl,
    ne_of_isDigit h (d := 'f') rfl, ne_of_isDigit h (d := 'N') rfl, ne_of_isDigit h (d := 'I') rfl,
    ne_of_isDigit h (d := '-') rfl]

/-- Digits that do not start with a zero are the whole part of a number, up to their end. -/
theorem scanWhole_digits {c : Char} (h : c.isDigit = true) (hzero : c ≠ '0')
    (hall : ∀ d ∈ digits, d.isDigit = true) : scanWhole (c :: digits) = some (c :: digits, []) := by
  have hspan : ∀ d ∈ c :: digits, d.isDigit = true := List.forall_mem_cons.mpr ⟨h, hall⟩
  have hdrop : (c :: digits).dropWhile Char.isDigit = [] := List.dropWhile_eq_nil_iff.mpr hspan
  have htake : (c :: digits).takeWhile Char.isDigit = c :: digits :=
    List.takeWhile_eq_self_iff.mpr hspan
  unfold scanWhole
  split
  · rename_i heq
    exact absurd (List.cons.inj heq).1 hzero
  · rename_i heq
    obtain ⟨rfl, rfl⟩ := List.cons.inj heq
    rw [if_pos h, spanDigits, htake, hdrop]
  · rename_i heq
    cases heq

/-- Too many digits are a token for an oversized integer. -/
theorem ofAtom_digits {c : Char} (h : c.isDigit = true) (hzero : c ≠ '0')
    (hall : ∀ d ∈ digits, d.isDigit = true) (hlimit : Text.digitLimit < (c :: digits).length) :
    ofAtom (c :: digits) = [.oversized ⟨(c :: digits).length⟩] := by
  have hnumber : scanNumber (c :: digits) = scanUnsigned false (c :: digits) := by
    unfold scanNumber
    split
    · rename_i heq
      exact absurd (List.cons.inj heq).1 (ne_of_isDigit h rfl)
    · rfl
  have hwhole : ofWhole false (c :: digits) = .oversized ⟨(c :: digits).length⟩ := by
    rw [ofWhole, Text.readDigits, if_neg (Nat.not_le.mpr hlimit)]
  have hscan : scanUnsigned false (c :: digits) =
      some (.oversized ⟨(c :: digits).length⟩, []) := by
    rw [scanUnsigned, scanWhole_digits h hzero hall, ← hwhole]
    rfl
  rw [ofAtom, ofWord?_of_isDigit h, hnumber, hscan]

end Token

/-- **A list of one integer with too many digits cannot be read**, for this very reason. -/
theorem read_list_of_digits {digits : List Char} (hall : ∀ c ∈ digits, c.isDigit = true)
    (hzero : digits.head? ≠ some '0') (hlimit : Text.digitLimit < digits.length) :
    read (.ofList (.char '[' :: (digits.map .char ++ [.char ']']))) =
      .error (.oversizedInteger ⟨digits.length⟩) := by
  cases digits with
  | nil => cases hlimit
  | cons c more =>
    obtain ⟨hc, hmore⟩ := List.forall_mem_cons.mp hall
    have hc0 : c ≠ '0' := fun h => hzero (congrArg some h)
    have hclose : Token.step (.atom (c :: more).reverse) ']' =
        ([.oversized ⟨(c :: more).length⟩, .closeBracket], some .between) := by
      have hatom : Token.isAtomChar ']' = false := rfl
      rw [Token.step, Token.atomStep, if_neg (by simp [hatom]), List.reverse_reverse,
        Token.ofAtom_digits hc hc0 hmore hlimit]
      rfl
    have hscan : Token.scan (.char '[' :: ((c :: more).map .char ++ [.char ']'])) =
        [.openBracket, .oversized ⟨(c :: more).length⟩, .closeBracket] := by
      rw [Token.scan, Token.scanFrom_delimiter ListForm.step_openBracket, List.map_cons,
        List.cons_append,
        Token.scanFrom_of_silent _ (Token.step_between_of_isDigit hc), Token.scanFrom_digits hmore,
        ← List.reverse_cons, Token.scanFrom_of_step _ hclose]
      rfl
    rw [read, hscan]
    rfl

end LojbanTree.Json
