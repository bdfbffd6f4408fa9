import LojbanTree.Mode
import Mathlib.Logic.ExistsUnique
import Mathlib.Tactic.IntervalCases
import Mathlib.Tactic.MkIffOfInductiveProp

/-!
Numbers and flag letters for the same options.

A number selects options by its last five bits, and these can be read back from the options: so
numbers select the same options exactly when they agree modulo 32. Flag letters select options by
which letters there are. The two ways overlap where the letters choose the switches as some level of
detail does. Main statement: `selected_numbers_flags`.
-/

namespace LojbanTree

namespace Options

/-! ### The number of options -/

/-- The level of detail that a number for the options has. -/
def detail (options : Options) : Nat :=
  match options.style with
  | .raw => 0
  | .condensed => 1
  | .prettified =>
    (if options.terminators then 2 else 5) +
      (if options.nodeLabels then 2 else if options.selmaho then 1 else 0)

/-- The number below 32 that selects the options, if any does. -/
def number (options : Options) : Nat :=
  options.detail + 8 * options.spaces.toNat + 16 * options.morphology.toNat

/-- The switches are those of a level of detail, and nothing is shown as JSON. -/
@[mk_iff]
structure Leveled (options : Options) : Prop where
  json : options.json = false
  prettified : options.style = .prettified → options.nodeLabels = true → options.selmaho = true
  unpruned : options.style ≠ .prettified →
    options.selmaho = true ∧ options.terminators = true ∧ options.nodeLabels = false

variable {options : Options}

theorem detail_lt (options : Options) : options.detail < 8 := by
  unfold detail
  split
  · decide
  · decide
  · split_ifs <;> decide

/-- Only condensed output is at level 1. -/
theorem detail_eq_one_iff : options.detail = 1 ↔ options.style = .condensed := by
  unfold detail
  cases options.style with
  | raw | condensed => simp
  | prettified => split_ifs <;> decide

theorem number_lt (options : Options) : options.number < 32 := by
  have hdetail := options.detail_lt
  have hspaces := options.spaces.toNat_le
  have hmorphology := options.morphology.toNat_le
  unfold number
  omega

/-! ### Numbers read back -/

theorem detail_ofLevel (n : Nat) : (ofLevel n).detail = n % 8 := by
  have hlt : n % 8 < 8 := Nat.mod_lt n (by decide)
  unfold detail ofLevel
  generalize n % 8 = level at hlt
  interval_cases level <;> rfl

theorem number_ofLevel (n : Nat) : (ofLevel n).number = n % 32 := by
  have hspaces : (ofLevel n).spaces.toNat = n / 8 % 2 := Nat.toNat_testBit n 3
  have hmorphology : (ofLevel n).morphology.toNat = n / 16 % 2 := Nat.toNat_testBit n 4
  rw [number, detail_ofLevel, hspaces, hmorphology]
  omega

/-! ### Options that have a number -/

theorem leveled_ofLevel (n : Nat) : (ofLevel n).Leveled := by
  have hlt : n % 8 < 8 := Nat.mod_lt n (by decide)
  refine ⟨rfl, ?_, ?_⟩
  all_goals
    unfold ofLevel
    generalize n % 8 = level at hlt
    interval_cases level <;> simp

theorem detail_number (options : Options) : options.number % 8 = options.detail := by
  have hdetail := options.detail_lt
  unfold number
  omega

theorem testBit_number_spaces (options : Options) : options.number.testBit 3 = options.spaces := by
  have hdetail := options.detail_lt
  have hspaces := options.spaces.toNat_le
  have hbit : options.number / 2 ^ 3 % 2 = options.spaces.toNat := by
    unfold number
    omega
  rw [Nat.testBit_eq_decide_div_mod_eq, hbit]
  cases options.spaces <;> rfl

theorem testBit_number_morphology (options : Options) :
    options.number.testBit 4 = options.morphology := by
  have hdetail := options.detail_lt
  have hspaces := options.spaces.toNat_le
  have hmorphology := options.morphology.toNat_le
  have hbit : options.number / 2 ^ 4 % 2 = options.morphology.toNat := by
    unfold number
    omega
  rw [Nat.testBit_eq_decide_div_mod_eq, hbit]
  cases options.morphology <;> rfl

theorem ofLevel_number (h : options.Leveled) : ofLevel options.number = options := by
  unfold ofLevel
  rw [detail_number, testBit_number_spaces, testBit_number_morphology]
  obtain ⟨spaces, morphology, nodeLabels, selmaho, terminators, json, style⟩ := options
  obtain ⟨hjson, hprettified, hunpruned⟩ := h
  cases hjson
  cases style with
  | raw | condensed =>
    obtain ⟨hselmaho, hterminators, hlabels⟩ := hunpruned (by simp)
    cases hselmaho
    cases hterminators
    cases hlabels
    rfl
  | prettified =>
    cases nodeLabels with
    | false => cases selmaho <;> cases terminators <;> rfl
    | true =>
      cases hprettified rfl rfl
      cases terminators <;> rfl

/-- Two numbers select the same options exactly when their last five bits agree. -/
theorem ofLevel_eq_ofLevel_iff {m n : Nat} : ofLevel m = ofLevel n ↔ m % 32 = n % 32 := by
  constructor
  · intro h
    rw [← number_ofLevel m, h, number_ofLevel n]
  · intro h
    rw [← ofLevel_number (leveled_ofLevel m), ← ofLevel_number (leveled_ofLevel n), number_ofLevel,
      number_ofLevel, h]

/-- Options are those of a number exactly when their switches are those of a level. -/
theorem exists_ofLevel_eq_iff : (∃ n, ofLevel n = options) ↔ options.Leveled := by
  constructor
  · rintro ⟨n, rfl⟩
    exact leveled_ofLevel n
  · intro h
    exact ⟨options.number, ofLevel_number h⟩

/-- Below 32 there is no second number for the same options. -/
theorem existsUnique_ofLevel_eq_iff :
    (∃! n, n < 32 ∧ ofLevel n = options) ↔ options.Leveled := by
  constructor
  · rintro ⟨n, ⟨-, rfl⟩, -⟩
    exact leveled_ofLevel n
  · intro h
    refine ⟨options.number, ⟨options.number_lt, ofLevel_number h⟩, ?_⟩
    rintro n ⟨hlt, rfl⟩
    rw [number_ofLevel, Nat.mod_eq_of_lt hlt]

theorem style_ofLevel_eq_condensed_iff {n : Nat} :
    (ofLevel n).style = .condensed ↔ n % 8 = 1 := by
  rw [← detail_eq_one_iff, detail_ofLevel]

/-! ### Flag letters -/

/-- The letters that choose options. -/
def flagLetters : List CodePoint :=
  ['S', 'M', 'N', 'C', 'T', 'J', 'R']

/-- The letters choose the switches as a level of detail does: `J` is not among them; `N` is only
with `C`; and with `R` there are `C` and `T`, and no `N`. -/
def LettersOfLevel (flags : List CodePoint) : Prop :=
  .char 'J' ∉ flags ∧
    (.char 'R' ∉ flags ∧ (.char 'N' ∈ flags → .char 'C' ∈ flags) ∨
      .char 'R' ∈ flags ∧ .char 'C' ∈ flags ∧ .char 'T' ∈ flags ∧ .char 'N' ∉ flags)

instance (flags : List CodePoint) : Decidable (LettersOfLevel flags) :=
  inferInstanceAs (Decidable (_ ∧ (_ ∧ (_ → _) ∨ _)))

theorem style_ofFlags_eq_condensed_iff {flags : Text} :
    (ofFlags flags).style = .condensed ↔ .char 'R' ∈ flags.toList := by
  simp [ofFlags]

theorem contains_eq_contains_iff {letter : CodePoint} {s t : List CodePoint} :
    s.contains letter = t.contains letter ↔ (letter ∈ s ↔ letter ∈ t) := by
  rw [Bool.eq_iff_iff, List.contains_iff_mem, List.contains_iff_mem]

theorem style_eq_style_iff {raw other : Bool} :
    (if raw = true then Style.condensed else .prettified) =
      (if other = true then .condensed else .prettified) ↔ raw = other := by
  cases raw <;> cases other <;> decide

/-- The same options are chosen exactly when the same letters are there, in whatever order and
however often, and whatever other code points are. -/
theorem ofFlags_eq_ofFlags_iff {s t : Text} :
    ofFlags s = ofFlags t ↔ ∀ letter ∈ flagLetters, (letter ∈ s.toList ↔ letter ∈ t.toList) := by
  simp only [ofFlags, Options.mk.injEq, style_eq_style_iff, contains_eq_contains_iff, flagLetters,
    List.forall_mem_cons, List.not_mem_nil, false_imp_iff, implies_true, and_true]

theorem leveled_ofFlags_iff {flags : Text} :
    (ofFlags flags).Leveled ↔ LettersOfLevel flags.toList := by
  rw [leveled_iff, LettersOfLevel]
  by_cases hraw : .char 'R' ∈ flags.toList
  · simp [ofFlags, hraw]
  · simp [ofFlags, hraw]

end Options

namespace Mode

/-- The options that a value selects as a mode. -/
def selected (value : Json) : Options :=
  (ofJson value).options

theorem selected_int (n : Nat) : selected (.num (.int n)) = .ofLevel n := by
  have hnonneg : ¬(n : Int) < 0 := by omega
  simp only [selected, ofJson, Json.Number.integer?, ofInt, if_neg hnonneg, options,
    Int.toNat_natCast]

theorem selected_str (flags : Text) : selected (.str flags) = .ofFlags flags :=
  rfl

/-- Any number selects what a whole number from zero on does: below zero, or not whole, it counts as
0. -/
theorem exists_selected_num (number : Json.Number) :
    ∃ n, selected (.num number) = .ofLevel n := by
  cases hvalue : number.integer? with
  | none => exact ⟨0, by simp only [selected, ofJson, hvalue, options]⟩
  | some value =>
    by_cases hnegative : value < 0
    · exact ⟨0, by simp only [selected, ofJson, hvalue, ofInt, if_pos hnegative, options]⟩
    · exact ⟨value.toNat, by simp only [selected, ofJson, hvalue, ofInt, if_neg hnegative, options]⟩

/-- **Numbers and flag letters describe the same options.** Numbers select the same options exactly
when they agree modulo 32, texts when they hold the same flag letters. A number selects what a text
does exactly when the letters are those of a level; below 32 it is then the only one, and its level
is 1 when the letters ask for raw output. -/
theorem selected_numbers_flags :
    (∀ m n : Nat, selected (.num (.int m)) = selected (.num (.int n)) ↔ m % 32 = n % 32) ∧
      (∀ s t : Text, selected (.str s) = selected (.str t) ↔
        ∀ letter ∈ Options.flagLetters, (letter ∈ s.toList ↔ letter ∈ t.toList)) ∧
      ∀ s : Text,
        ((∃ number, selected (.num number) = selected (.str s)) ↔
            Options.LettersOfLevel s.toList) ∧
          ((∃! n : Nat, n < 32 ∧ selected (.num (.int n)) = selected (.str s)) ↔
            Options.LettersOfLevel s.toList) ∧
          ∀ n : Nat, selected (.num (.int n)) = selected (.str s) →
            (n % 8 = 1 ↔ .char 'R' ∈ s.toList) := by
  simp only [selected_int, selected_str]
  refine ⟨fun m n => Options.ofLevel_eq_ofLevel_iff, fun s t => Options.ofFlags_eq_ofFlags_iff,
    fun s => ⟨?selects, ?unique, ?raw⟩⟩
  case selects =>
    rw [← Options.leveled_ofFlags_iff, ← Options.exists_ofLevel_eq_iff]
    constructor
    · rintro ⟨number, h⟩
      obtain ⟨n, hn⟩ := exists_selected_num number
      exact ⟨n, hn.symm.trans h⟩
    · rintro ⟨n, h⟩
      exact ⟨.int n, (selected_int n).trans h⟩
  case unique =>
    rw [Options.existsUnique_ofLevel_eq_iff, Options.leveled_ofFlags_iff]
  case raw =>
    intro n h
    rw [← Options.style_ofLevel_eq_condensed_iff, h, Options.style_ofFlags_eq_condensed_iff]

/-- Raw output of all that a number can keep, asked for in two ways. -/
theorem selected_numbers_flags_raw :
    selected (.num (.int (57 : Nat))) = selected (.str "MTRxCSR") ∧
      (57 % 8 = 1 ↔ .char 'R' ∈ (Text.ofString "MTRxCSR").toList) ∧
      (∃! n : Nat, n < 32 ∧ selected (.num (.int n)) = selected (.str "MTRxCSR")) ∧
      .char 'M' ∈ Options.flagLetters ∧
        (.char 'M' ∈ (Text.ofString "MTRxCSR").toList ↔
          .char 'M' ∈ (Text.ofString "CMRST").toList) := by
  have hsame : selected (.num (.int (57 : Nat))) = selected (.str "MTRxCSR") := by decide
  have hletter : .char 'M' ∈ Options.flagLetters := by decide
  have hflags : selected (.str "MTRxCSR") = selected (.str "CMRST") := by decide
  have hlevel := selected_numbers_flags.2.2 "MTRxCSR"
  exact ⟨hsame, hlevel.2.2 57 hsame, hlevel.2.1.mpr (by decide), hletter,
    (selected_numbers_flags.2.1 _ _).mp hflags _ hletter⟩

end Mode

end LojbanTree
