import LojbanTree.Proofs.Bracketed.Display
import Mathlib.Data.List.Infix

/-!
How shown text can begin.

A beginning without quotes and brackets passes through each way from a tree to its text, in both
directions: the text begins so after a step exactly when it did before. A text made of brackets
begins with one, so only a tree that is a single word can be shown with such a beginning. Main
statement: `Inert.prefix_shown_iff`.
-/

namespace LojbanTree

namespace Bracketed

open Text

/-! ### Substitution -/

/-- Wherever the rule applies, neither the text there nor what is written begins with a part of
the given beginning. -/
def Spares (rule : SubstitutionRule) (start : List CodePoint) : Prop :=
  ∀ text taken written, rule text = some (taken, written) →
    ∀ part, part <:+ start → part ≠ [] → ∀ rest, ¬part <+: text ∧ ¬part <+: written ++ rest

theorem Spares.tail {rule : SubstitutionRule} {c : CodePoint} {start : List CodePoint}
    (h : Spares rule (c :: start)) : Spares rule start :=
  fun text taken written hrule part hpart =>
    h text taken written hrule part (hpart.trans (List.suffix_cons c start))

/-- A beginning that the rule spares is there before the substitution when it is there after. -/
theorem prefix_substitute_iff {rule : SubstitutionRule} {start text : List CodePoint}
    (h : Spares rule start) : start <+: substitute rule text ↔ start <+: text := by
  induction start generalizing text with
  | nil => simp
  | cons c start ih =>
    cases text with
    | nil => rw [substitute_nil]
    | cons d rest =>
      cases hrule : rule (d :: rest) with
      | none =>
        rw [substitute_cons_of_none hrule, List.cons_prefix_cons, List.cons_prefix_cons, ih h.tail]
      | some replacement =>
        obtain ⟨taken, written⟩ := replacement
        have hspared := h _ _ _ hrule (c :: start) (List.suffix_refl _) (List.cons_ne_nil _ _)
        rw [substitute_cons_of_some hrule]
        exact iff_of_false (hspared _).2 (hspared []).1

/-! ### Beginnings -/

/-- The brackets that can be shown outside of all others. -/
def outerBrackets : List CodePoint :=
  ['[', ']', '(', '>']

/-- A beginning of plain characters and blanks, without the brackets that can be shown outside of
all others, in which no delimiter has a word for blanks or their sign after it. -/
structure Inert (start : List CodePoint) : Prop where
  plain : ∀ c ∈ start, c ≠ '"' ∧ c ≠ '\\' ∧ 0x20 ≤ c.toNat
  unbracketed : ∀ c ∈ outerBrackets, c ∉ start
  parted : ∀ part ∈ start.tails, startsWithDelimiter part = true →
    part.tail.head? ∉ [none, some (.char '_'), some (.char 'i'), some (.char 's')]

instance (start : List CodePoint) : Decidable (Inert start) :=
  haveI := List.decidableBAll (fun c : CodePoint => c ≠ '"' ∧ c ≠ '\\' ∧ 0x20 ≤ c.toNat) start
  haveI := List.decidableBAll (fun c => c ∉ start) outerBrackets
  decidable_of_iff
    ((∀ c ∈ start, c ≠ '"' ∧ c ≠ '\\' ∧ 0x20 ≤ c.toNat) ∧
      (∀ c ∈ outerBrackets, c ∉ start) ∧
      ∀ part ∈ start.tails, startsWithDelimiter part = true →
        part.tail.head? ∉ [none, some (.char '_'), some (.char 'i'), some (.char 's')])
    ⟨fun ⟨plain, unbracketed, parted⟩ => ⟨plain, unbracketed, parted⟩,
      fun ⟨plain, unbracketed, parted⟩ => ⟨plain, unbracketed, parted⟩⟩

theorem head?_of_beginsWithWord {name text : List CodePoint} (hname : name ∈ blankNames)
    (h : beginsWithWord name text = true) : text.head? ∈ [some (.char 'i'), some (.char 's')] := by
  have hstart : name <+: text := List.isPrefixOf_iff_prefix.mp (Bool.and_eq_true_iff.mp h).1
  obtain ⟨rest, rfl⟩ := hstart
  simp only [blankNames, List.mem_cons, List.not_mem_nil, or_false] at hname
  rcases hname with rfl | rfl <;> simp

/-- No part of the beginning goes on after a delimiter as a word for blanks does. -/
theorem Inert.not_prefix_of_delimiter {start part tail : List CodePoint} {c : CodePoint}
    (h : Inert start) (hpart : part <:+ start) (hne : part ≠ []) (hc : isDelimiter c = true)
    (htail : tail.head? ∈ [some (.char '_'), some (.char 'i'), some (.char 's')]) :
    ¬part <+: c :: tail := by
  intro hprefixed
  cases part with
  | nil => exact hne rfl
  | cons d more =>
    obtain ⟨rfl, hmore⟩ := List.cons_prefix_cons.mp hprefixed
    have hparted : more.head? ∉ [none, some (.char '_'), some (.char 'i'), some (.char 's')] :=
      h.parted (d :: more) ((List.mem_tails _ _).mpr hpart) hc
    cases more with
    | nil => exact hparted List.mem_cons_self
    | cons x more =>
      obtain ⟨rest, rfl⟩ := hmore
      exact hparted (List.mem_cons_of_mem _ htail)

theorem Inert.spares_blankRule {start : List CodePoint} (h : Inert start) :
    Spares blankRule start := by
  intro text taken written hrule part hpart hne rest
  cases text with
  | nil => cases hrule
  | cons c text =>
    by_cases hc : isDelimiter c = true
    · obtain ⟨name, hfind, heq⟩ : ∃ name,
          blankNames.find? (fun name => beginsWithWord name text) = some name ∧
            (name.length, [c, '_']) = (taken, written) := by
        simpa [blankRule, hc] using hrule
      have hbegins : beginsWithWord name text = true := by simpa using List.find?_some hfind
      have hhead := head?_of_beginsWithWord (List.mem_of_find?_eq_some hfind) hbegins
      obtain ⟨-, rfl⟩ := Prod.mk.inj heq
      exact ⟨h.not_prefix_of_delimiter hpart hne hc (List.mem_cons_of_mem _ hhead),
        h.not_prefix_of_delimiter hpart hne hc List.mem_cons_self⟩
    · simp [blankRule, hc] at hrule

/-- Tags are written for labels after an opening bracket, and begin with one. -/
theorem Inert.spares_tagRule {start : List CodePoint} (h : Inert start)
    (entry : List CodePoint × List CodePoint) : Spares (tagRule entry) start := by
  intro text taken written hrule part hpart hne rest
  have bracket : ∀ {tail : List CodePoint}, ¬part <+: .char '[' :: tail := by
    intro tail hprefixed
    cases part with
    | nil => exact hne rfl
    | cons c more =>
      obtain ⟨rfl, -⟩ := List.cons_prefix_cons.mp hprefixed
      exact h.unbracketed _ (by decide) (hpart.subset List.mem_cons_self)
  cases text with
  | nil => cases hrule
  | cons c text =>
    by_cases hc : c = '['
    · subst hc
      rw [tagRule_openBracket] at hrule
      split at hrule
      · cases hrule
        exact ⟨bracket, bracket⟩
      · cases hrule
    · simp [tagRule, replacing, opening, List.isPrefixOf, Ne.symm hc] at hrule

/-! ### From the text of a word to what is shown -/

section

variable {start : List CodePoint}

theorem Inert.prefix_tagAll_iff (h : Inert start) {entries : List (List CodePoint × List CodePoint)}
    {text : List CodePoint} : start <+: tagAll entries text ↔ start <+: text := by
  induction entries generalizing text with
  | nil => rfl
  | cons entry entries ih => rw [tagAll_cons, ih, prefix_substitute_iff (h.spares_tagRule entry)]

/-- Neither blanks nor tags touch the beginning. -/
theorem Inert.prefix_flattenChars_iff (h : Inert start) {nodeLabels : Bool}
    {text : List CodePoint} :
    start <+: flattenChars nodeLabels text ↔ start <+: dropQuotes text := by
  have hmarked : start <+: substitute blankRule (dropQuotes text) ↔ start <+: dropQuotes text :=
    prefix_substitute_iff h.spares_blankRule
  cases nodeLabels with
  | false => exact hmarked
  | true =>
    have htagged : flattenChars true text =
        tagAll labelTags (substitute blankRule (dropQuotes text)) := rfl
    rw [htagged, h.prefix_tagAll_iff, hmarked]

/-- Outside of all brackets an opening bracket is shown as a round one and a closing one as a
pointed one; what stands before them is shown as it is. -/
theorem prefix_shapeFrom_iff {text : List CodePoint} (h : ∀ c ∈ outerBrackets, c ∉ start) :
    start <+: shapeFrom 0 text ↔ start <+: text := by
  induction start generalizing text with
  | nil => simp
  | cons s start ih =>
    have hne : ∀ c ∈ outerBrackets, s ≠ c :=
      fun c hc hs => h c hc (hs ▸ List.mem_cons_self)
    have hrest : ∀ c ∈ outerBrackets, c ∉ start :=
      fun c hc hmem => h c hc (List.mem_cons_of_mem s hmem)
    cases text with
    | nil => rfl
    | cons c text =>
      rw [shapeFrom]
      split
      · rename_i hopen
        subst hopen
        have hglyph : openGlyph 0 = '(' := rfl
        rw [hglyph, List.cons_prefix_cons, List.cons_prefix_cons]
        exact iff_of_false (fun hs => hne '(' (by decide) hs.1) (fun hs => hne '[' (by decide) hs.1)
      · split
        · rename_i hclose
          subst hclose
          have hglyph : closeGlyph (0 - 1) = '>' := rfl
          have hnumeral : roundNumeralChars (0 - 1) = [] := rfl
          rw [hglyph, hnumeral, List.nil_append, List.cons_prefix_cons, List.cons_prefix_cons]
          exact iff_of_false (fun hs => hne '>' (by decide) hs.1)
            (fun hs => hne ']' (by decide) hs.1)
        · rw [List.cons_prefix_cons, List.cons_prefix_cons, ih hrest]

/-- How a code point of a word appears in flat text: a comma is a blank there. -/
def commaAsBlank (c : CodePoint) : CodePoint :=
  if c = ',' then ' ' else c

/-- A code point of a word appears in flat text as it is, or after a backslash. -/
theorem dropQuotes_escapeChar (c : CodePoint) :
    dropQuotes (escapeChar c) = [commaAsBlank c] ∨
      (c = '"' ∨ c = '\\' ∨ c.toNat < 0x20) ∧
        ∃ rest, dropQuotes (escapeChar c) = .char '\\' :: rest := by
  have slash : ∀ rest, dropQuotes (.char '\\' :: rest) = .char '\\' :: dropQuotes rest :=
    dropQuotes_cons (by decide) (by decide)
  unfold escapeChar
  split
  case h_1 => exact .inr ⟨.inl rfl, _, slash _⟩
  case h_2 => exact .inr ⟨.inr (.inl rfl), _, slash _⟩
  case h_8 hquote _ _ _ _ _ _ =>
    split
    · rename_i hlow
      exact .inr ⟨.inr (.inr hlow), _, slash _⟩
    · have hkept : c ≠ '"' := hquote
      exact .inl (by simp [dropQuotes, commaAsBlank, hkept])
  all_goals exact .inr ⟨.inr (.inr (by decide)), _, slash _⟩

/-- The flat text of a word begins as the word does, commas being blanks. -/
theorem prefix_dropQuotes_letters_iff {letters : List CodePoint}
    (h : ∀ c ∈ start, c ≠ '"' ∧ c ≠ '\\' ∧ 0x20 ≤ c.toNat) :
    start <+: dropQuotes (letters.flatMap escapeChar) ↔ start <+: letters.map commaAsBlank := by
  induction start generalizing letters with
  | nil => simp
  | cons s start ih =>
    obtain ⟨⟨hquote, hslash, hprint⟩, h⟩ := List.forall_mem_cons.mp h
    cases letters with
    | nil => rfl
    | cons c letters =>
      rw [List.flatMap_cons, dropQuotes_append, List.map_cons]
      obtain hc | ⟨hc, rest, heq⟩ := dropQuotes_escapeChar c
      · rw [hc, List.singleton_append, List.cons_prefix_cons, List.cons_prefix_cons, ih h]
      · have hcomma : c ≠ ',' := by
          rintro rfl
          revert hc
          decide
        have hplain : commaAsBlank c = c := if_neg hcomma
        rw [heq, List.cons_append, List.cons_prefix_cons, List.cons_prefix_cons, hplain]
        refine iff_of_false (fun hs => hslash hs.1) ?_
        rintro ⟨rfl, -⟩
        rcases hc with hc | hc | hc
        · exact hquote hc
        · exact hslash hc
        · exact absurd hprint (Nat.not_le.mpr hc)

theorem dropQuotes_quoteText_eq (s : Text) :
    dropQuotes (quoteText s) = dropQuotes (s.toList.flatMap escapeChar) := by
  have hquote : dropQuotes [.char '"'] = [] := rfl
  rw [quoteText, ← List.singleton_append, dropQuotes_append, dropQuotes_append, hquote,
    List.nil_append, List.append_nil]

end

end Bracketed

/-! ### Trees -/

/-- JSON text begins with the quote of a leaf or the bracket of a branch. -/
theorem Tree.head?_encodeChars (tree : Tree) (layout : Layout) :
    (tree.encodeChars layout).head? = some (if tree.isLeaf then .char '"' else .char '[') := by
  cases tree with
  | leaf text => simp [encodeChars, ListForm.encodeAt, quoteText, isLeaf]
  | labeled label children => simp [encodeChars, ListForm.encodeAt, isLeaf]
  | group children => cases children <;> simp [encodeChars, ListForm.encodeAt, isLeaf]

namespace Bracketed

variable {start : List CodePoint} {tree : Tree}

theorem Inert.not_prefix_of_branch (h : Inert start) (hne : start ≠ [])
    (hbranch : tree.isLeaf = false) : ¬start <+: dropQuotes (tree.encodeChars .compact) := by
  obtain ⟨rest, hrest⟩ : ∃ rest, tree.encodeChars .compact = .char '[' :: rest := by
    rw [← List.head?_eq_some_iff, Tree.head?_encodeChars, hbranch]
    rfl
  rw [hrest, dropQuotes_cons (by decide) (by decide)]
  intro hprefixed
  cases start with
  | nil => exact hne rfl
  | cons c start =>
    obtain ⟨rfl, -⟩ := List.cons_prefix_cons.mp hprefixed
    exact h.unbracketed _ (by decide) List.mem_cons_self

/-- **Only a tree that is a single word is shown with an inert beginning**, and its word begins so
as well, with commas for some of the blanks. -/
theorem Inert.prefix_shown_iff (h : Inert start) (hne : start ≠ []) (nodeLabels : Bool) :
    start <+: shapeFrom 0 (flattenChars nodeLabels (tree.encodeChars .compact)) ↔
      ∃ word, tree = .leaf word ∧ start <+: word.toList.map commaAsBlank := by
  rw [prefix_shapeFrom_iff h.unbracketed, h.prefix_flattenChars_iff]
  cases tree with
  | leaf word =>
    have hwritten : (Tree.leaf word).encodeChars .compact = quoteText word := by
      rw [Tree.encodeChars, Tree.toListForm_leaf, ListForm.encodeAt]
    rw [hwritten, dropQuotes_quoteText_eq, prefix_dropQuotes_letters_iff h.plain]
    simp
  | labeled label children =>
    apply iff_of_false (h.not_prefix_of_branch hne rfl)
    rintro ⟨_, hleaf, _⟩
    cases hleaf
  | group children =>
    apply iff_of_false (h.not_prefix_of_branch hne rfl)
    rintro ⟨_, hleaf, _⟩
    cases hleaf

end Bracketed

end LojbanTree
