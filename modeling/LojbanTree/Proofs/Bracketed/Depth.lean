import LojbanTree.Proofs.Bracketed.Unshaping
import Mathlib.Data.List.Infix
import Mathlib.Logic.ExistsUnique

/-!
The depth of a bracket.

The depth of an opening bracket is the number of brackets before it that are not closed yet, and
that of a closing bracket is the depth of the one that it matches. `Shaped` writes a text out by
these depths, each bracket by the brackets before it, without counting along. Main statement: in a
nested text every closing bracket matches one opening bracket, and the glyphs are chosen by these
depths (`shape_nested`).
-/

namespace LojbanTree.Bracketed

open Text

/-! ### Numerals beside the brackets -/

/-- The number that raised digits stand for in base ten. -/
def raisedValue (digits : List CodePoint) : Nat :=
  digits.foldl (fun value digit => 10 * value + raisedDigits.idxOf digit) 0

theorem idxOf_superscript {c : Char} (h : c.isDigit = true) :
    raisedDigits.idxOf (.char (superscript c)) = c.toNat - '0'.toNat :=
  forall_isDigit (P := fun c => raisedDigits.idxOf (.char (superscript c)) = c.toNat - '0'.toNat)
    (by decide) h

/-- Raised digits stand for the number that they stand for when they are not raised. -/
theorem raisedValue_map_superscript {digits : List Char} (h : ∀ c ∈ digits, c.isDigit = true) :
    raisedValue (digits.map fun c => .char (superscript c)) = digitsValue digits := by
  rw [raisedValue, digitsValue, Nat.ofDigitChars, List.foldl_map]
  generalize 0 = value
  induction digits generalizing value with
  | nil => rfl
  | cons c digits ih =>
    obtain ⟨hc, hdigits⟩ := List.forall_mem_cons.mp h
    rw [List.foldl_cons, List.foldl_cons, idxOf_superscript hc, ih hdigits]

section

variable {depth : Nat}

theorem roundNumeralChars_of_round (hpos : 0 < depth) (hround : 4 ∣ depth) :
    roundNumeralChars depth =
      (naturalDigits (depth / 4)).map fun c => .char (superscript c) := by
  have hdepth : (depth : Int) ≠ 0 ∧ (depth : Int) % 4 = 0 := by omega
  rw [roundNumeralChars, if_pos hdepth]
  rfl

theorem roundNumeralChars_eq_nil (h : ¬(0 < depth ∧ 4 ∣ depth)) :
    roundNumeralChars depth = [] := by
  have hdepth : ¬((depth : Int) ≠ 0 ∧ (depth : Int) % 4 = 0) := by omega
  rw [roundNumeralChars, if_neg hdepth]

/-- There is a numeral exactly where a new round begins, and it is the number of the round. -/
theorem roundNumeral_cases (depth : Nat) :
    (roundNumeral depth ≠ "" ↔ 0 < depth ∧ 4 ∣ depth) ∧
      (∀ c ∈ (roundNumeral depth).toList, c ∈ raisedDigits) ∧
      (roundNumeral depth ≠ "" → raisedValue (roundNumeral depth).toList = depth / 4) := by
  have hchars : (roundNumeral depth).toList = roundNumeralChars depth := rfl
  have hempty : roundNumeral depth = "" ↔ roundNumeralChars depth = [] := by
    rw [← hchars, Text.toList_eq_nil_iff]
  by_cases hround : 0 < depth ∧ 4 ∣ depth
  · have hdigits := roundNumeralChars_of_round hround.1 hround.2
    have hne : roundNumeral depth ≠ "" := by
      rw [Ne, hempty, hdigits, List.map_eq_nil_iff]
      exact Nat.toDigits_ne_nil
    refine ⟨iff_of_true hne hround, ?_, fun _ => ?_⟩
    · rw [hchars]
      exact fun c => mem_raisedDigits_of_mem_roundNumeralChars (Int.natCast_nonneg depth)
    · rw [hchars, hdigits, raisedValue_map_superscript, digitsValue_naturalDigits]
      exact fun c => Nat.isDigit_of_mem_toDigits (by decide) (by decide)
  · have hnone : roundNumeral depth = "" := hempty.mpr (roundNumeralChars_eq_nil hround)
    rw [hnone]
    exact ⟨iff_of_false (fun hne => hne rfl) hround, by simp, fun hne => absurd rfl hne⟩

end

/-! ### Brackets that are not closed -/

instance (depth : Int) (text : List CodePoint) : Decidable (Nested depth text) :=
  @decidable_of_iff _ (∀ start ∈ text.inits, 0 ≤ depth + netDepth start)
    (by simp only [List.mem_inits, Nested]) (List.decidableBAll _ _)

/-- The number of opening brackets that are not closed in a text: what follows them closes none
but its own. -/
def unclosed : List CodePoint → Nat
  | [] => 0
  | c :: rest => (if c = '[' ∧ Nested 0 rest then 1 else 0) + unclosed rest

section

variable {c : CodePoint} {text rest before after outer inner : List CodePoint}

/-- A text may close brackets that it has not opened; it is nested from the depth on that is the
number of these, and leaves open what it opens beyond them. -/
theorem exists_lowestDepth (text : List CodePoint) :
    ∃ lowest : Nat, (∀ depth, Nested depth text ↔ lowest ≤ depth) ∧
      unclosed text = netDepth text + lowest := by
  induction text with
  | nil => exact ⟨0, fun depth => nested_nil, rfl⟩
  | cons c rest ih =>
    obtain ⟨lowest, hnested, hunclosed⟩ := ih
    rcases bracket_cases c with rfl | rfl | hother
    · refine ⟨lowest - 1, fun depth => ?_, ?_⟩
      · rw [nested_openBracket, hnested]
        omega
      · rw [unclosed, netDepth_openBracket]
        -- The bracket stays open unless a closing one behind it has none of its own to match.
        by_cases hopen : Nested 0 rest
        · have hlowest := (hnested 0).mp hopen
          rw [if_pos ⟨rfl, hopen⟩]
          omega
        · have hlowest := mt (hnested 0).mpr hopen
          rw [if_neg fun h => hopen h.2]
          omega
    · refine ⟨lowest + 1, fun depth => ?_, ?_⟩
      · rw [nested_closeBracket, hnested]
        omega
      · rw [unclosed, if_neg fun h => absurd h.1 (by decide), netDepth_closeBracket]
        omega
    · refine ⟨lowest, fun depth => ?_, ?_⟩
      · rw [nested_other hother, hnested]
      · rw [unclosed, if_neg fun h => (ne_brackets hother).1 h.1, netDepth_cons hother]
        omega

/-- In a nested text nothing is closed but what is open, so the count is right. -/
theorem Nested.unclosed_eq (h : Nested 0 text) : (unclosed text : Int) = netDepth text := by
  obtain ⟨lowest, hnested, hunclosed⟩ := exists_lowestDepth text
  have hlowest := (hnested 0).mp h
  omega

theorem Nested.left (h : Nested 0 (before ++ after)) : Nested 0 before :=
  (nested_append.mp h).1

/-! ### The opening bracket that a closing one matches -/

/-- The last bracket that is not closed has only balanced text behind it. -/
theorem exists_lastUnclosed (h : 0 < unclosed text) :
    ∃ outer inner, text = outer ++ .char '[' :: inner ∧ Balanced inner := by
  induction text with
  | nil => exact absurd h (Nat.lt_irrefl 0)
  | cons c rest ih =>
    by_cases hrest : 0 < unclosed rest
    · obtain ⟨outer, inner, rfl, hinner⟩ := ih hrest
      exact ⟨c :: outer, inner, rfl, hinner⟩
    · rw [unclosed] at h
      split at h
      · rename_i hopen
        obtain ⟨rfl, hnested⟩ := hopen
        have hclosed := hnested.unclosed_eq
        exact ⟨[], rest, rfl, hnested, by omega⟩
      · omega

theorem netDepth_matching (h : Balanced inner) :
    netDepth (outer ++ .char '[' :: inner) = netDepth outer + 1 := by
  rw [netDepth_append, netDepth_openBracket, h.closed, Int.zero_add]

/-- No balanced text ends in another one with an opening bracket before it. -/
theorem not_balanced_of_balanced {between : List CodePoint} (h : Balanced inner) :
    ¬Balanced (between ++ .char '[' :: inner) := by
  intro hwhole
  have hbetween := (nested_append.mp hwhole.nested).1 between (List.prefix_refl between)
  have hclosed := hwhole.closed
  rw [netDepth_matching h] at hclosed
  omega

/-- A closing bracket matches no more than one opening bracket. -/
theorem matching_unique {otherOuter otherInner : List CodePoint}
    (h : outer ++ .char '[' :: inner = otherOuter ++ .char '[' :: otherInner)
    (hinner : Balanced inner) (hother : Balanced otherInner) : outer = otherOuter := by
  rcases List.append_eq_append_iff.mp h with ⟨between, rfl, heq⟩ | ⟨between, rfl, heq⟩
  · cases between with
    | nil => rw [List.append_nil]
    | cons c between =>
      obtain ⟨-, rfl⟩ := List.cons.inj heq
      exact absurd hinner (not_balanced_of_balanced hother)
  · cases between with
    | nil => rw [List.append_nil]
    | cons c between =>
      obtain ⟨-, rfl⟩ := List.cons.inj heq
      exact absurd hother (not_balanced_of_balanced hinner)

/-- A closing bracket of a nested text matches exactly one opening bracket before it. -/
theorem Nested.existsUnique_matching (h : Nested 0 (before ++ .char ']' :: after)) :
    ∃! outer, ∃ inner, before = outer ++ .char '[' :: inner ∧ Balanced inner := by
  obtain ⟨hbefore, hclose⟩ := nested_append.mp h
  have hdepth := (nested_closeBracket.mp hclose).2.nonneg
  have hcount := hbefore.unclosed_eq
  have hopen : 0 < unclosed before := by omega
  obtain ⟨outer, inner, heq, hinner⟩ := exists_lastUnclosed hopen
  refine ⟨outer, ⟨inner, heq, hinner⟩, ?_⟩
  rintro other ⟨otherInner, hother, hbalanced⟩
  exact matching_unique (hother.symm.trans heq) hbalanced hinner

end

/-! ### Glyphs by depth -/

/-- What is shown for a code point, by the text that stands before it. -/
inductive ShownAs (before : List CodePoint) (c : CodePoint) : List CodePoint → Prop where
  | opening : c = '[' →
      ShownAs before c (openGlyph (unclosed before) :: roundNumeralChars (unclosed before))
  | closing {outer inner : List CodePoint} : c = ']' → before = outer ++ .char '[' :: inner →
      Balanced inner →
      ShownAs before c (roundNumeralChars (unclosed outer) ++ [closeGlyph (unclosed outer)])
  | other : isBracket c = false → ShownAs before c [c]

/-- What is shown for a text, one code point after the other, behind another text. -/
inductive Shaped : List CodePoint → List CodePoint → List CodePoint → Prop where
  | nil {before : List CodePoint} : Shaped before [] []
  | cons {before rest piece shown : List CodePoint} {c : CodePoint} :
      ShownAs before c piece → Shaped (before ++ [c]) rest shown →
      Shaped before (c :: rest) (piece ++ shown)

section

variable {c : CodePoint} {text rest before after outer inner piece shown : List CodePoint}

/-- The counter of the shaping is the depth of the next bracket. -/
theorem shownAs_iff (h : Nested 0 (before ++ [c])) :
    ShownAs before c piece ↔ piece = shapeFrom (netDepth before) [c] := by
  have hdepth := h.left.unclosed_eq
  constructor
  · intro hshown
    cases hshown with
    | opening hc => rw [hc, shapeFrom_open, shapeFrom_nil, List.append_nil, hdepth]
    | closing hc hbefore hinner =>
      subst hbefore
      have houter := h.left.left.unclosed_eq
      rw [hc, shapeFrom_close, shapeFrom_nil, netDepth_matching hinner, houter,
        Int.add_sub_cancel]
    | other hc =>
      obtain ⟨hopen, hclose⟩ := ne_brackets hc
      rw [shapeFrom_other _ _ hopen hclose, shapeFrom_nil]
  · rintro rfl
    rcases bracket_cases c with rfl | rfl | hother
    · rw [shapeFrom_open, shapeFrom_nil, List.append_nil, ← hdepth]
      exact .opening rfl
    · obtain ⟨outer, ⟨inner, hbefore, hinner⟩, -⟩ := h.existsUnique_matching
      subst hbefore
      rw [shapeFrom_close, shapeFrom_nil, netDepth_matching hinner, Int.add_sub_cancel,
        ← h.left.left.unclosed_eq]
      exact .closing rfl rfl hinner
    · obtain ⟨hopen, hclose⟩ := ne_brackets hother
      rw [shapeFrom_other _ _ hopen hclose, shapeFrom_nil]
      exact .other hother

/-- By induction on what is still to be shown; what stands before it grows by one code point
at a time. -/
theorem shaped_iff (h : Nested 0 (before ++ rest)) :
    Shaped before rest shown ↔ shown = shapeFrom (netDepth before) rest := by
  induction rest generalizing before shown with
  | nil =>
    rw [shapeFrom_nil]
    constructor
    · intro hshaped
      cases hshaped
      rfl
    · rintro rfl
      exact .nil
  | cons c rest ih =>
    rw [List.append_cons] at h
    have hpiece := @shownAs_iff c before
    have hsplit : shapeFrom (netDepth before) (c :: rest) =
        shapeFrom (netDepth before) [c] ++ shapeFrom (netDepth (before ++ [c])) rest := by
      rw [netDepth_append, ← shapeFrom_split, List.singleton_append]
    rw [hsplit]
    constructor
    · intro hshaped
      cases hshaped with
      | cons hc hrest => rw [(hpiece h.left).mp hc, (ih h).mp hrest]
    · rintro rfl
      exact .cons ((hpiece h.left).mpr rfl) ((ih h).mpr rfl)

theorem shaped_shapeFrom {depth : Int} (h : Nested 0 (before ++ rest))
    (hdepth : netDepth before = depth) : Shaped before rest (shapeFrom depth rest) :=
  (shaped_iff h).mpr (by rw [hdepth])

/-- Two brackets that match, and what is shown of the text before, between and behind them. -/
theorem exists_shaped_matching (h : Nested 0 (outer ++ .char '[' :: (inner ++ .char ']' :: after)))
    (hinner : Balanced inner) :
    ∃ start body rest, Shaped [] outer start ∧ Shaped (outer ++ [.char '[']) inner body ∧
      Shaped (outer ++ .char '[' :: (inner ++ [.char ']'])) after rest ∧
      shapeFrom 0 (outer ++ .char '[' :: (inner ++ .char ']' :: after)) =
        start ++ openGlyph (unclosed outer) :: (roundNumeralChars (unclosed outer) ++
          (body ++
            (roundNumeralChars (unclosed outer) ++ closeGlyph (unclosed outer) :: rest))) := by
  have houter : netDepth outer = unclosed outer := h.left.unclosed_eq.symm
  have hbody : netDepth (outer ++ [.char '[']) = unclosed outer + 1 := by
    rw [netDepth_append, houter]
    rfl
  have hrest : netDepth (outer ++ .char '[' :: (inner ++ [.char ']'])) = unclosed outer := by
    rw [netDepth_append, netDepth_openBracket, netDepth_append, hinner.closed, houter]
    rfl
  refine ⟨shapeFrom 0 outer, shapeFrom (unclosed outer + 1) inner,
    shapeFrom (unclosed outer) after, shaped_shapeFrom h.left netDepth_nil,
    shaped_shapeFrom ?_ hbody, shaped_shapeFrom ?_ hrest, ?_⟩
  · rw [List.append_cons, ← List.append_assoc] at h
    exact h.left
  · rw [List.append_assoc, List.cons_append, List.append_assoc]
    exact h
  · rw [shapeFrom_split, Int.zero_add, houter, shapeFrom_open, shapeFrom_split, hinner.closed,
      Int.add_zero, shapeFrom_close, Int.add_sub_cancel]

end

/-- The glyphs of a depth stand at its remainder by four, in the order of both kinds. -/
theorem getElem?_glyphs (depth : Nat) :
    openGlyphs[depth % 4]? = some (openGlyph depth) ∧
      closeGlyphs[depth % 4]? = some (closeGlyph depth) := by
  have hround : depth % 4 = ((depth : Int) % 4).toNat := by omega
  have hlt : depth % 4 < 4 := Nat.mod_lt depth (by decide)
  unfold openGlyph closeGlyph
  rw [← hround]
  generalize depth % 4 = place at hlt ⊢
  have hplace : place = 0 ∨ place = 1 ∨ place = 2 ∨ place = 3 := by omega
  rcases hplace with rfl | rfl | rfl | rfl
  all_goals exact ⟨rfl, rfl⟩

/-- **The glyphs of a nested text show the depth of its brackets and nothing else changes.** An
opening bracket becomes the glyph at the remainder of its depth, with the numeral of the depth
behind it, a closing one the glyph of the other kind with the numeral before it, and every other
code point stays. A closing bracket matches one opening bracket, and both have its depth. The
numeral stands at positive multiples of four, where it is their quotient by four. Where the text
holds no other glyph and no raised digit, it can be read back. -/
theorem shape_nested {text : Text} (h : Nested 0 text.toList) :
    (∀ shown, Shaped [] text.toList shown ↔ shape text = Text.ofList shown) ∧
      (∀ before after, text.toList = before ++ .char ']' :: after →
        ∃! outer, ∃ inner, before = outer ++ .char '[' :: inner ∧ Balanced inner) ∧
      (∀ outer inner after, text.toList = outer ++ .char '[' :: (inner ++ .char ']' :: after) →
        Balanced inner →
        ∃ start body rest, Shaped [] outer start ∧ Shaped (outer ++ [.char '[']) inner body ∧
          Shaped (outer ++ .char '[' :: (inner ++ [.char ']'])) after rest ∧
          shape text = Text.ofList (start ++ openGlyph (unclosed outer) ::
            (roundNumeralChars (unclosed outer) ++ (body ++
              (roundNumeralChars (unclosed outer) ++ closeGlyph (unclosed outer) :: rest))))) ∧
      (∀ depth : Nat, openGlyphs[depth % 4]? = some (openGlyph depth) ∧
        closeGlyphs[depth % 4]? = some (closeGlyph depth)) ∧
      (∀ depth : Nat, (roundNumeral depth ≠ "" ↔ 0 < depth ∧ 4 ∣ depth) ∧
        (∀ c ∈ (roundNumeral depth).toList, c ∈ raisedDigits) ∧
        (roundNumeral depth ≠ "" → raisedValue (roundNumeral depth).toList = depth / 4)) ∧
      ((∀ c ∈ text.toList, IsUnshaped c) → unshape (shape text).toList = text.toList) := by
  refine ⟨?shaped, ?matching, ?pairs, getElem?_glyphs, roundNumeral_cases, ?back⟩
  case shaped =>
    intro shown
    have hshaped : Shaped [] text.toList shown ↔ shown = shapeFrom 0 text.toList := shaped_iff h
    rw [hshaped, shape, Text.ofList.injEq]
    exact eq_comm
  case matching =>
    intro before after heq
    rw [heq] at h
    exact h.existsUnique_matching
  case pairs =>
    intro outer inner after heq hinner
    rw [heq] at h
    obtain ⟨start, body, rest, hstart, hbody, hrest, hshape⟩ := exists_shaped_matching h hinner
    exact ⟨start, body, rest, hstart, hbody, hrest, by rw [shape, heq, hshape]⟩
  case back =>
    intro hunshaped
    rw [shape, Text.toList_ofList]
    exact unshape_shapeFrom h hunshaped

/-- Five pairs, one of which stands at depth four and is the first to have a numeral. -/
theorem shape_nested_five :
    Nested 0 (Text.ofString "[a[[[[b] c]]]]").toList ∧
    (∀ shown, Shaped [] (Text.ofString "[a[[[[b] c]]]]").toList shown ↔
      shape "[a[[[[b] c]]]]" = Text.ofList shown) ∧
    shape "[a[[[[b] c]]]]" = "(a[\x7b<(¹b¹) c>\x7d])" ∧
    unshape (shape "[a[[[[b] c]]]]").toList = (Text.ofString "[a[[[[b] c]]]]").toList := by
  have nested : Nested 0 (Text.ofString "[a[[[[b] c]]]]").toList := by decide
  have unshaped : ∀ c ∈ (Text.ofString "[a[[[[b] c]]]]").toList, IsUnshaped c :=
    @of_decide_eq_true _ (List.decidableBAll IsUnshaped _) rfl
  obtain ⟨shaped, _, _, _, _, back⟩ := shape_nested nested
  exact ⟨nested, shaped, by decide, back unshaped⟩

end LojbanTree.Bracketed
