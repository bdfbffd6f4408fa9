import LojbanTree.Proofs.Bracketed.Nesting

/-!
From glyphs back to brackets.

`unshape` turns every glyph into the square bracket that it stands for and drops the raised digits.
Where a text is nested and holds no glyph but its square brackets and no raised digit, this undoes
the shaping (`unshape_shapeFrom`), so that the shaped text determines the text (`shapeFrom_inj`).
-/

namespace LojbanTree

/-- The small raised digits. -/
def Text.raisedDigits : List CodePoint :=
  ['⁰', '¹', '²', '³', '⁴', '⁵', '⁶', '⁷', '⁸', '⁹']

/-- What holds of the ten digits holds of every character that is a digit. -/
theorem Text.forall_isDigit {P : Char → Prop}
    (h : ∀ code ∈ List.range 10, P (Char.ofNat (48 + code))) {c : Char} (hc : c.isDigit = true) :
    P c := by
  obtain ⟨hlow, hhigh⟩ : 48 ≤ c.toNat ∧ c.toNat ≤ 57 := by
    simpa [Char.isDigit, UInt32.le_iff_toNat_le] using hc
  have hcode := h (c.toNat - 48) (List.mem_range.mpr (by omega))
  rwa [Nat.add_sub_cancel' hlow, Char.ofNat_toNat] at hcode

theorem Text.superscript_mem_raisedDigits {c : Char} (h : c.isDigit = true) :
    .char (superscript c) ∈ raisedDigits :=
  forall_isDigit (P := fun c => .char (superscript c) ∈ raisedDigits) (by decide) h

namespace Bracketed

open Text

/-- The glyphs of opening brackets. -/
def openGlyphs : List CodePoint :=
  ['(', '[', '\x7b', '<']

/-- The glyphs of closing brackets. -/
def closeGlyphs : List CodePoint :=
  [')', ']', '\x7d', '>']

theorem openGlyph_mem_openGlyphs (depth : Int) : openGlyph depth ∈ openGlyphs := by
  unfold openGlyph
  split <;> decide

theorem closeGlyph_mem_closeGlyphs (depth : Int) : closeGlyph depth ∈ closeGlyphs := by
  unfold closeGlyph
  split <;> decide

/-- At a natural depth the numeral has no sign. -/
theorem mem_raisedDigits_of_mem_roundNumeralChars {depth : Int} (h : 0 ≤ depth) {c : CodePoint}
    (hc : c ∈ roundNumeralChars depth) : c ∈ raisedDigits := by
  unfold roundNumeralChars at hc
  split at hc
  · obtain ⟨digit, hdigit, rfl⟩ := List.mem_map.mp hc
    obtain ⟨round, hround⟩ :=
      Int.eq_ofNat_of_zero_le (Int.ediv_nonneg h (by decide : (0 : Int) ≤ 4))
    rw [hround] at hdigit
    exact superscript_mem_raisedDigits
      (Nat.isDigit_of_mem_toDigits (by decide) (by decide) hdigit)
  · exact absurd hc List.not_mem_nil

/-- What a shaped code point stands for: a glyph for its bracket, a raised digit for nothing. -/
def unshapeChar (c : CodePoint) : Option CodePoint :=
  if c ∈ openGlyphs then some (.char '[')
  else if c ∈ closeGlyphs then some (.char ']')
  else if c ∈ raisedDigits then none
  else some c

/-- The text with square brackets for its glyphs and without its raised digits. -/
def unshape (text : List CodePoint) : List CodePoint :=
  text.filterMap unshapeChar

/-- Is the code point neither a raised digit nor a glyph, square brackets excepted? -/
def IsUnshaped (c : CodePoint) : Prop :=
  isBracket c = true ∨ c ∉ openGlyphs ++ closeGlyphs ++ raisedDigits

instance : DecidablePred IsUnshaped := fun c =>
  inferInstanceAs
    (Decidable (isBracket c = true ∨ c ∉ openGlyphs ++ closeGlyphs ++ raisedDigits))

theorem unshapeChar_of_isUnshaped {c : CodePoint} (h : IsUnshaped c) : unshapeChar c = some c := by
  rcases h with hbracket | hother
  · rcases isBracket_eq_true_iff.mp hbracket with rfl | rfl
    · rfl
    · rfl
  · simp only [List.mem_append, not_or] at hother
    obtain ⟨⟨hopen, hclose⟩, hdigit⟩ := hother
    rw [unshapeChar, if_neg hopen, if_neg hclose, if_neg hdigit]

theorem unshapeChar_of_mem_openGlyphs {c : CodePoint} (h : c ∈ openGlyphs) :
    unshapeChar c = some (.char '[') :=
  if_pos h

theorem unshapeChar_of_mem_closeGlyphs {c : CodePoint} (h : c ∈ closeGlyphs) :
    unshapeChar c = some (.char ']') := by
  have apart : c ∉ openGlyphs := by
    simp only [closeGlyphs, List.mem_cons, List.not_mem_nil, or_false] at h
    rcases h with rfl | rfl | rfl | rfl <;> simp [openGlyphs]
  rw [unshapeChar, if_neg apart, if_pos h]

theorem unshapeChar_of_mem_raisedDigits {c : CodePoint} (h : c ∈ raisedDigits) :
    unshapeChar c = none := by
  simp only [raisedDigits, List.mem_cons, List.not_mem_nil, or_false] at h
  rcases h with rfl | rfl | rfl | rfl | rfl | rfl | rfl | rfl | rfl | rfl <;> rfl

section

variable {depth : Int} {rest : List CodePoint}

theorem unshape_append (before after : List CodePoint) :
    unshape (before ++ after) = unshape before ++ unshape after :=
  List.filterMap_append

theorem unshape_cons {c : CodePoint} (h : IsUnshaped c) : unshape (c :: rest) = c :: unshape rest :=
  List.filterMap_cons_some (unshapeChar_of_isUnshaped h)

theorem unshape_openGlyph : unshape (openGlyph depth :: rest) = .char '[' :: unshape rest :=
  List.filterMap_cons_some (unshapeChar_of_mem_openGlyphs (openGlyph_mem_openGlyphs depth))

theorem unshape_closeGlyph : unshape (closeGlyph depth :: rest) = .char ']' :: unshape rest :=
  List.filterMap_cons_some (unshapeChar_of_mem_closeGlyphs (closeGlyph_mem_closeGlyphs depth))

theorem unshape_roundNumeralChars (h : 0 ≤ depth) : unshape (roundNumeralChars depth) = [] := by
  apply List.filterMap_eq_nil_iff.mpr
  intro c hc
  exact unshapeChar_of_mem_raisedDigits (mem_raisedDigits_of_mem_roundNumeralChars h hc)

end

/-- **The glyphs of a nested text can be read back.** By induction on the text; the depth stays
natural, so that a numeral consists of digits. -/
theorem unshape_shapeFrom {depth : Int} {text : List CodePoint} (hnested : Nested depth text)
    (hunshaped : ∀ c ∈ text, IsUnshaped c) : unshape (shapeFrom depth text) = text := by
  induction text generalizing depth with
  | nil => rfl
  | cons c rest ih =>
    obtain ⟨hc, hothers⟩ := List.forall_mem_cons.mp hunshaped
    rcases bracket_cases c with rfl | rfl | hother
    · obtain ⟨hdepth, hrest⟩ := nested_openBracket.mp hnested
      rw [shapeFrom_open, unshape_openGlyph, unshape_append, unshape_roundNumeralChars hdepth,
        List.nil_append, ih hrest hothers]
    · obtain ⟨_, hrest⟩ := nested_closeBracket.mp hnested
      rw [shapeFrom_close, unshape_append, unshape_closeGlyph,
        unshape_roundNumeralChars hrest.nonneg, List.nil_append, ih hrest hothers]
    · obtain ⟨hopen, hclose⟩ := ne_brackets hother
      have hrest := (nested_other hother).mp hnested
      rw [shapeFrom_other _ _ hopen hclose, unshape_cons hc, ih hrest hothers]

/-- Such texts are the same if their shaped forms are. -/
theorem shapeFrom_inj {depth : Int} {text other : List CodePoint} (htext : Nested depth text)
    (hother : Nested depth other) (hunshaped : ∀ c ∈ text, IsUnshaped c)
    (hotherUnshaped : ∀ c ∈ other, IsUnshaped c) :
    shapeFrom depth text = shapeFrom depth other ↔ text = other := by
  constructor
  · intro h
    rw [← unshape_shapeFrom htext hunshaped, h, unshape_shapeFrom hother hotherUnshaped]
  · intro h
    rw [h]

end Bracketed

end LojbanTree
