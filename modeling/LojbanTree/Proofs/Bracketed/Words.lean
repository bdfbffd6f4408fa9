import LojbanTree.Bracketed.Flat

/-!
The words of flat text.

A word is a run of code points without a delimiter. Both rewritings of flat text take it word by
word: a word for blanks gives way to `_`, and a label after an opening bracket to its tag, whatever
stands around them. Main statements: `substitute_blankRule_word` and `tagLabels_word`, which say
what becomes of a word that ends where the text does or a delimiter follows.
-/

namespace LojbanTree.Bracketed

open Text

/-- A run of code points without a delimiter. -/
def IsWord (word : List CodePoint) : Prop :=
  ∀ c ∈ word, isDelimiter c = false

instance (word : List CodePoint) : Decidable (IsWord word) :=
  List.decidableBAll (fun c => isDelimiter c = false) word

/-- The text is at its end or begins with a delimiter, so that a word before it ends there. -/
def Bounded (text : List CodePoint) : Prop :=
  ∀ c ∈ text.head?, isDelimiter c = true

theorem isWord_nil : IsWord [] :=
  fun _ h => absurd h List.not_mem_nil

theorem isWord_cons {c : CodePoint} {word : List CodePoint} :
    IsWord (c :: word) ↔ isDelimiter c = false ∧ IsWord word := by
  simp [IsWord]

theorem bounded_nil : Bounded [] := by
  intro c hc
  cases hc

theorem bounded_cons {c : CodePoint} {text : List CodePoint} :
    Bounded (c :: text) ↔ isDelimiter c = true := by
  simp [Bounded]

theorem ne_openBracket_of_isWord {word : List CodePoint} (h : IsWord word) :
    ∀ c ∈ word, c ≠ '[' := by
  rintro c hc rfl
  exact absurd (h _ hc) (by decide)

/-! ### The word before a delimiter -/

section

variable {word other rest more : List CodePoint}

theorem takeWhile_word (hword : IsWord word) (hrest : Bounded rest) :
    (word ++ rest).takeWhile (fun c => !isDelimiter c) = word := by
  have hstop : rest.takeWhile (fun c => !isDelimiter c) = [] := by
    cases rest with
    | nil => rfl
    | cons d more => exact List.takeWhile_cons_of_neg (by simp [bounded_cons.mp hrest])
  have hletters : ∀ c ∈ word, (!isDelimiter c) = true := by
    intro c hc
    rw [hword c hc]
    rfl
  rw [List.takeWhile_append_of_pos hletters, hstop, List.append_nil]

/-- Words that end at a delimiter can be told apart from what follows. -/
theorem word_append_inj (hword : IsWord word) (hother : IsWord other) (hrest : Bounded rest)
    (hmore : Bounded more) (h : word ++ rest = other ++ more) : word = other ∧ rest = more := by
  have hsame : word = other := by
    rw [← takeWhile_word hword hrest, h, takeWhile_word hother hmore]
  rw [hsame] at h
  exact ⟨hsame, List.append_cancel_left h⟩

theorem word_append_ne {d : CodePoint} (hword : IsWord word) (hne : word ≠ [])
    (hd : isDelimiter d = true) : word ++ rest ≠ d :: more := by
  cases word with
  | nil => exact absurd rfl hne
  | cons c word =>
    intro h
    rw [← (List.cons.inj h).1, (isWord_cons.mp hword).1] at hd
    cases hd

end

/-! ### Words for blanks -/

theorem beginsWithWord_cons_cons (n c : CodePoint) (name text : List CodePoint) :
    beginsWithWord (n :: name) (c :: text) = (n == c && beginsWithWord name text) := by
  simp [beginsWithWord, List.isPrefixOf, Bool.and_assoc]

/-- A text begins with a whole word exactly when that is its first word and does not end it. -/
theorem beginsWithWord_iff {name word rest : List CodePoint} (hname : IsWord name)
    (hword : IsWord word) (hrest : Bounded rest) :
    beginsWithWord name (word ++ rest) = true ↔ name = word ∧ rest ≠ [] := by
  induction name generalizing word with
  | nil =>
    cases word with
    | nil =>
      cases rest with
      | nil => simp [beginsWithWord, startsWithDelimiter]
      | cons d more => simpa [beginsWithWord, startsWithDelimiter] using bounded_cons.mp hrest
    | cons w word => simp [beginsWithWord, startsWithDelimiter, (isWord_cons.mp hword).1]
  | cons n name ih =>
    obtain ⟨hn, hname⟩ := isWord_cons.mp hname
    cases word with
    | nil =>
      cases rest with
      | nil => simp [beginsWithWord]
      | cons d more =>
        have hne : n ≠ d := by
          rintro rfl
          rw [bounded_cons.mp hrest] at hn
          exact absurd hn (by decide)
        simp [beginsWithWord_cons_cons, hne]
    | cons w word =>
      rw [List.cons_append, beginsWithWord_cons_cons, Bool.and_eq_true,
        ih hname (isWord_cons.mp hword).2, beq_iff_eq, List.cons.injEq, and_assoc]

/-- A word for blanks becomes `_`. -/
def markWord (word : List CodePoint) : List CodePoint :=
  if word ∈ blankNames then [.char '_'] else word

theorem isWord_of_mem_blankNames {name : List CodePoint} (h : name ∈ blankNames) : IsWord name := by
  revert name
  decide

/-- The rule for blanks declines a code point that is no delimiter. -/
theorem substitute_blankRule_append {word rest : List CodePoint} (hword : IsWord word) :
    substitute blankRule (word ++ rest) = word ++ substitute blankRule rest := by
  induction word with
  | nil => rfl
  | cons c word ih =>
    obtain ⟨hc, hword⟩ := isWord_cons.mp hword
    rw [List.cons_append, substitute_cons_of_none (by simp [blankRule, hc]), ih hword]
    rfl

/-- Between a delimiter and the next a word for blanks becomes `_` and any other stays; the last
word of the text stays in any case. -/
theorem substitute_blankRule_word {d : CodePoint} {word rest : List CodePoint}
    (hd : isDelimiter d = true) (hword : IsWord word) (hrest : Bounded rest) :
    substitute blankRule (d :: (word ++ rest)) =
      d :: ((if rest = [] then word else markWord word) ++ substitute blankRule rest) := by
  have begins : ∀ name ∈ blankNames,
      (beginsWithWord name (word ++ rest) = true ↔ name = word ∧ rest ≠ []) :=
    fun name hn => beginsWithWord_iff (isWord_of_mem_blankNames hn) hword hrest
  cases hfind : blankNames.find? fun name => beginsWithWord name (word ++ rest) with
  | none =>
    have stays : (if rest = [] then word else markWord word) = word := by
      split
      · rfl
      · rename_i hne
        refine if_neg fun hmem => ?_
        exact absurd ((begins word hmem).mpr ⟨rfl, hne⟩) (List.find?_eq_none.mp hfind word hmem)
    rw [substitute_cons_of_none (by simp [blankRule, hd, hfind]), stays,
      substitute_blankRule_append hword]
  | some name =>
    have hmem := List.mem_of_find?_eq_some hfind
    have hbegins : beginsWithWord name (word ++ rest) = true := by
      simpa using List.find?_some hfind
    obtain ⟨rfl, hne⟩ := (begins name hmem).mp hbegins
    have hrule : blankRule (d :: (name ++ rest)) = some (name.length, [d, '_']) := by
      simp [blankRule, hd, hfind]
    rw [substitute_cons_of_some hrule, if_neg hne, markWord, if_pos hmem, List.drop_left]
    rfl

/-- A delimiter before another one, or at the end of the text, stays. -/
theorem substitute_blankRule_delimiter {d : CodePoint} {rest : List CodePoint}
    (hd : isDelimiter d = true) (hrest : Bounded rest) :
    substitute blankRule (d :: rest) = d :: substitute blankRule rest := by
  have h := substitute_blankRule_word hd isWord_nil hrest
  have stays : (if rest = [] then [] else markWord []) = [] := by
    split
    · rfl
    · decide
  rwa [stays] at h

/-! ### Labels and their tags -/

/-- A label as the first word after an opening bracket, with a blank after it. -/
def opening (label : List CodePoint) : List CodePoint :=
  .char '[' :: (label ++ [.char ' '])

/-- Replaces a label that opens a branch by its tag. -/
def tagRule (entry : List CodePoint × List CodePoint) : SubstitutionRule :=
  replacing (opening entry.1) (opening entry.2)

/-- The labels that get a tag, and their tags. -/
def labelTags : List (List CodePoint × List CodePoint) :=
  [("prenex".toList.map .char, "PRENEX:".toList.map .char),
   ("sentence".toList.map .char, "BRIDI:".toList.map .char),
   ("selbri".toList.map .char, "SELBRI:".toList.map .char),
   ("sumti".toList.map .char, "SUMTI:".toList.map .char)]

/-- Replaces labels by their tags, one label after the other. -/
def tagAll (entries : List (List CodePoint × List CodePoint)) (text : List CodePoint) :
    List CodePoint :=
  entries.foldl (fun text entry => substitute (tagRule entry) text) text

/-- What becomes of the first word of a branch before a given code point. -/
def retag (entries : List (List CodePoint × List CodePoint)) (next : Option CodePoint)
    (word : List CodePoint) : List CodePoint :=
  entries.foldl
    (fun word entry => if word = entry.1 ∧ next = some (.char ' ') then entry.2 else word) word

theorem tagLabels_eq_tagAll (text : List CodePoint) : tagLabels text = tagAll labelTags text :=
  rfl

section

variable {entry : List CodePoint × List CodePoint} {c : CodePoint} {word rest text : List CodePoint}

/-- After an opening bracket the rule asks for the label and a blank. -/
theorem tagRule_openBracket :
    tagRule entry (.char '[' :: text) =
      if (entry.1 ++ [CodePoint.char ' ']).isPrefixOf text then
        some (entry.1.length + 1, opening entry.2)
      else none := by
  simp [tagRule, replacing, opening]

/-- Only an opening bracket starts a label. -/
theorem substitute_tagRule_cons (hc : c ≠ '[') :
    substitute (tagRule entry) (c :: rest) = c :: substitute (tagRule entry) rest :=
  substitute_cons_of_none (by simp [tagRule, replacing, opening, List.isPrefixOf, Ne.symm hc])

theorem substitute_tagRule_append (hword : ∀ c ∈ word, c ≠ '[') :
    substitute (tagRule entry) (word ++ rest) = word ++ substitute (tagRule entry) rest := by
  induction word with
  | nil => rfl
  | cons c word ih =>
    obtain ⟨hc, hword⟩ := List.forall_mem_cons.mp hword
    rw [List.cons_append, substitute_tagRule_cons hc, ih hword]
    rfl

/-- A text begins with a label and a blank exactly when the label is its first word and a blank
follows. -/
theorem isPrefixOf_label_iff {label : List CodePoint} (hlabel : IsWord label) (hword : IsWord word)
    (hrest : Bounded rest) :
    (label ++ [CodePoint.char ' ']).isPrefixOf (word ++ rest) = true ↔
      word = label ∧ rest.head? = some (.char ' ') := by
  induction label generalizing word with
  | nil =>
    cases word with
    | nil => cases rest <;> simp [@eq_comm _ (CodePoint.char ' ')]
    | cons w word =>
      have hne : ' ' ≠ w := by
        rintro rfl
        exact absurd (isWord_cons.mp hword).1 (by decide)
      simp [hne]
  | cons n label ih =>
    obtain ⟨hn, hlabel⟩ := isWord_cons.mp hlabel
    cases word with
    | nil =>
      cases rest with
      | nil => simp
      | cons d more =>
        have hne : n ≠ d := by
          rintro rfl
          rw [bounded_cons.mp hrest] at hn
          exact absurd hn (by decide)
        simp [hne]
    | cons w word =>
      rw [List.cons_append, List.cons_append, List.isPrefixOf, Bool.and_eq_true,
        ih hlabel (isWord_cons.mp hword).2, beq_iff_eq, List.cons.injEq, and_assoc, eq_comm]

/-- After an opening bracket the label becomes its tag where a blank follows, and any other word
stays. -/
theorem substitute_tagRule_word (hentry : IsWord entry.1) (hword : IsWord word)
    (hrest : Bounded rest) :
    substitute (tagRule entry) (.char '[' :: (word ++ rest)) =
      .char '[' :: ((if word = entry.1 ∧ rest.head? = some (.char ' ') then entry.2 else word) ++
        substitute (tagRule entry) rest) := by
  have hlabel := isPrefixOf_label_iff hentry hword hrest
  split
  · rename_i h
    obtain ⟨rfl, hblank⟩ := h
    obtain ⟨more, rfl⟩ : ∃ more, rest = .char ' ' :: more := by
      cases rest with
      | nil => cases hblank
      | cons d more => exact ⟨more, by rw [Option.some.inj hblank]⟩
    have hdrop : (entry.1 ++ .char ' ' :: more).drop (entry.1.length + 1) = more := by
      rw [List.append_cons]
      exact List.drop_left' (by simp)
    rw [substitute_cons_of_some (by rw [tagRule_openBracket, if_pos (hlabel.mpr ⟨rfl, rfl⟩)]),
      hdrop, substitute_tagRule_cons (c := ' ') (by decide)]
    simp [opening]
  · rename_i h
    rw [substitute_cons_of_none (by rw [tagRule_openBracket, if_neg (mt hlabel.mp h)]),
      substitute_tagRule_append (ne_openBracket_of_isWord hword)]

/-- The first code point is not touched. -/
theorem head?_substitute_tagRule : (substitute (tagRule entry) text).head? = text.head? := by
  cases text with
  | nil => simp
  | cons c rest =>
    by_cases hc : c = '['
    · subst hc
      by_cases hp : (entry.1 ++ [CodePoint.char ' ']).isPrefixOf rest = true
      · rw [substitute_cons_of_some (by rw [tagRule_openBracket, if_pos hp])]
        rfl
      · rw [substitute_cons_of_none (by rw [tagRule_openBracket, if_neg hp])]
        rfl
    · rw [substitute_tagRule_cons hc]
      rfl

variable {entries : List (List CodePoint × List CodePoint)}

theorem tagAll_cons :
    tagAll (entry :: entries) text = tagAll entries (substitute (tagRule entry) text) :=
  rfl

theorem tagAll_append (hword : ∀ c ∈ word, c ≠ '[') :
    tagAll entries (word ++ rest) = word ++ tagAll entries rest := by
  induction entries generalizing rest with
  | nil => rfl
  | cons entry entries ih => rw [tagAll_cons, substitute_tagRule_append hword, ih, tagAll_cons]

/-- A word stays that is no label or has no blank after it. -/
theorem retag_of_forall_not {next : Option CodePoint}
    (h : ∀ entry ∈ entries, ¬(word = entry.1 ∧ next = some (.char ' '))) :
    retag entries next word = word := by
  induction entries with
  | nil => rfl
  | cons entry entries ih =>
    obtain ⟨hentry, h⟩ := List.forall_mem_cons.mp h
    rw [retag, List.foldl_cons, if_neg hentry]
    exact ih h

/-- What all tags together do to a word after an opening bracket. By induction on the table: no
tag changes what follows the word at its first code point, so each meets the same surroundings. -/
theorem tagAll_word (hentries : ∀ entry ∈ entries, IsWord entry.1 ∧ IsWord entry.2)
    (hword : IsWord word) (hrest : Bounded rest) :
    tagAll entries (.char '[' :: (word ++ rest)) =
      .char '[' :: (retag entries rest.head? word ++ tagAll entries rest) := by
  induction entries generalizing word rest with
  | nil => rfl
  | cons entry entries ih =>
    obtain ⟨⟨hlabel, htag⟩, hentries⟩ := List.forall_mem_cons.mp hentries
    have hhead : (substitute (tagRule entry) rest).head? = rest.head? := head?_substitute_tagRule
    have hbounded : Bounded (substitute (tagRule entry) rest) := by
      unfold Bounded
      rwa [hhead]
    have hnext :
        IsWord (if word = entry.1 ∧ rest.head? = some (.char ' ') then entry.2 else word) := by
      split
      · exact htag
      · exact hword
    rw [tagAll_cons, substitute_tagRule_word hlabel hword hrest,
      ih hentries hnext hbounded, hhead, tagAll_cons]
    rfl

end

theorem isWord_labelTags : ∀ entry ∈ labelTags, IsWord entry.1 ∧ IsWord entry.2 := by
  decide

/-- Only an opening bracket can begin a label. -/
theorem tagLabels_cons {c : CodePoint} {rest : List CodePoint} (hc : c ≠ '[') :
    tagLabels (c :: rest) = c :: tagLabels rest := by
  rw [tagLabels_eq_tagAll, tagLabels_eq_tagAll, ← List.singleton_append,
    tagAll_append (by simpa using hc)]
  rfl

/-- Where there is no bracket there is no label. -/
theorem tagLabels_append {word rest : List CodePoint} (hword : ∀ c ∈ word, c ≠ '[') :
    tagLabels (word ++ rest) = word ++ tagLabels rest := by
  rw [tagLabels_eq_tagAll, tagLabels_eq_tagAll, tagAll_append hword]

/-- The first word of a branch becomes its tag, if it has one and a blank follows. -/
theorem tagLabels_word {word rest : List CodePoint} (hword : IsWord word) (hrest : Bounded rest) :
    tagLabels (.char '[' :: (word ++ rest)) =
      .char '[' :: (retag labelTags rest.head? word ++ tagLabels rest) := by
  rw [tagLabels_eq_tagAll, tagLabels_eq_tagAll, tagAll_word isWord_labelTags hword hrest]

/-- An opening bracket stays. -/
theorem tagLabels_openBracket {rest : List CodePoint} (hrest : Bounded rest) :
    tagLabels (.char '[' :: rest) = .char '[' :: tagLabels rest := by
  have h := tagLabels_word isWord_nil hrest
  rwa [retag_of_forall_not fun entry he hw => ?_] at h
  have hne : ∀ entry ∈ labelTags, [] ≠ entry.1 := by decide
  exact hne entry he hw.1

end LojbanTree.Bracketed
