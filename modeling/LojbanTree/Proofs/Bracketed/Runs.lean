import LojbanTree.Proofs.Bracketed.Items

/-!
Flat text, run by run.

A text falls into delimiters and the runs between them, and it does so in one way only. Flattening
takes the quotes from a text, puts blanks for its commas, and then rewrites each run by itself: what
a run becomes depends on the delimiters beside it and on nothing else in the text. The two passes
over the text are each such a rewriting of runs, and since neither moves a delimiter, together they
are one. Main statement: `flatten_runwise`.
-/

namespace LojbanTree.Bracketed

open Text ListForm

/-! ### Texts cut at their delimiters -/

/-- What stands between runs. -/
inductive Delimiter where
  | blank
  | openBracket
  | closeBracket
  deriving DecidableEq, Repr

/-- The character that a delimiter is. -/
def Delimiter.char : Delimiter → CodePoint
  | .blank => ' '
  | .openBracket => '['
  | .closeBracket => ']'

/-- A text in which no delimiter occurs. -/
@[ext]
structure Run where
  text : Text
  unbroken : ∀ d : Delimiter, d.char ∉ text.toList

/-- A text cut at its delimiters: the run before the first one, and each delimiter with the run
after it. A run may be empty. -/
structure Cut where
  first : Run
  later : List (Delimiter × Run)

/-- What becomes of a run, by the delimiter before it and the one after it, if one follows. -/
abbrev Rewriting := Delimiter → Option Delimiter → Run → Run

/-- Two rewritings of a run, one after the other between the same delimiters. -/
def Rewriting.andThen (f g : Rewriting) : Rewriting := fun before after run =>
  g before after (f before after run)

namespace Cut

/-- The text of delimiters and the runs after them. -/
def laterChars : List (Delimiter × Run) → List CodePoint
  | [] => []
  | (d, run) :: later => d.char :: (run.text.toList ++ laterChars later)

/-- The text that has been cut. -/
def chars (cut : Cut) : List CodePoint :=
  cut.first.text.toList ++ laterChars cut.later

/-- The delimiter at which a text goes on. -/
def next (later : List (Delimiter × Run)) : Option Delimiter :=
  later.head?.map Prod.fst

/-- Rewrites the runs after delimiters. -/
def mapLater (f : Rewriting) : List (Delimiter × Run) → List (Delimiter × Run)
  | [] => []
  | (d, run) :: later => (d, f d (next later) run) :: mapLater f later

/-- Rewrites each run that has a delimiter before it. -/
def map (f : Rewriting) (cut : Cut) : Cut where
  first := cut.first
  later := mapLater f cut.later

end Cut

theorem isDelimiter_iff {c : CodePoint} : isDelimiter c = true ↔ ∃ d : Delimiter, d.char = c := by
  constructor
  · intro h
    simp only [isDelimiter, Bool.or_eq_true, decide_eq_true_eq] at h
    rcases h with (rfl | rfl) | rfl
    · exact ⟨.blank, rfl⟩
    · exact ⟨.openBracket, rfl⟩
    · exact ⟨.closeBracket, rfl⟩
  · rintro ⟨d, rfl⟩
    cases d <;> rfl

theorem isDelimiter_char (d : Delimiter) : isDelimiter d.char = true :=
  isDelimiter_iff.mpr ⟨d, rfl⟩

theorem Delimiter.char_injective : Function.Injective Delimiter.char := by
  intro d other h
  cases d <;> cases other <;> simp_all [Delimiter.char]

theorem isWord_iff_unbroken {word : List CodePoint} :
    IsWord word ↔ ∀ d : Delimiter, d.char ∉ word := by
  constructor
  · intro h d hd
    have hplain := h _ hd
    rw [isDelimiter_char] at hplain
    cases hplain
  · intro h c hc
    rw [Bool.eq_false_iff]
    intro hdelimiter
    obtain ⟨d, rfl⟩ := isDelimiter_iff.mp hdelimiter
    exact h d hc

theorem Run.isWord (run : Run) : IsWord run.text.toList :=
  isWord_iff_unbroken.mpr run.unbroken

/-- The run that a text without delimiters is. -/
def Run.ofWord (s : Text) (h : IsWord s.toList) : Run where
  text := s
  unbroken := isWord_iff_unbroken.mp h

namespace Cut

variable {later others : List (Delimiter × Run)} {f g : Rewriting}

theorem head?_laterChars : (laterChars later).head? = (next later).map Delimiter.char := by
  cases later <;> rfl

theorem bounded_laterChars : Bounded (laterChars later) := by
  intro c hc
  rw [head?_laterChars] at hc
  obtain ⟨d, -, rfl⟩ := Option.map_eq_some_iff.mp hc
  exact isDelimiter_char d

theorem laterChars_eq_nil_iff : laterChars later = [] ↔ next later = none := by
  cases later <;> simp [laterChars, next]

/-! ### A text can be cut in one way -/

theorem exists_chars_eq (text : List CodePoint) : ∃ cut : Cut, cut.chars = text := by
  induction text with
  | nil => exact ⟨⟨.ofWord "" isWord_nil, []⟩, rfl⟩
  | cons c text ih =>
    obtain ⟨cut, rfl⟩ := ih
    cases hc : isDelimiter c with
    | true =>
      obtain ⟨d, rfl⟩ := isDelimiter_iff.mp hc
      exact ⟨⟨.ofWord "" isWord_nil, (d, cut.first) :: cut.later⟩, rfl⟩
    | false =>
      have hword : IsWord (Text.ofList (c :: cut.first.text.toList)).toList := by
        rw [Text.toList_ofList]
        exact isWord_cons.mpr ⟨hc, cut.first.isWord⟩
      refine ⟨⟨.ofWord _ hword, cut.later⟩, ?_⟩
      simp [chars, Run.ofWord]

/-- A run ends where a delimiter follows or the text ends. -/
theorem run_append_inj {run other : Run}
    (h : run.text.toList ++ laterChars later = other.text.toList ++ laterChars others) :
    run = other ∧ laterChars later = laterChars others := by
  obtain ⟨hrun, hlater⟩ :=
    word_append_inj run.isWord other.isWord bounded_laterChars bounded_laterChars h
  exact ⟨Run.ext (Text.toList_inj.mp hrun), hlater⟩

theorem laterChars_injective : Function.Injective laterChars := by
  intro later
  induction later with
  | nil =>
    intro others h
    cases others with
    | nil => rfl
    | cons entry others => cases h
  | cons entry later ih =>
    intro others h
    cases others with
    | nil => cases h
    | cons other others =>
      obtain ⟨hchar, hrest⟩ := List.cons.inj h
      obtain ⟨hrun, hlater⟩ := run_append_inj hrest
      rw [ih hlater, Prod.ext (Delimiter.char_injective hchar) hrun]

theorem chars_injective : Function.Injective chars := by
  intro cut other h
  obtain ⟨hfirst, hlater⟩ := run_append_inj h
  cases cut
  cases other
  congr
  exact laterChars_injective hlater

/-! ### Rewriting twice -/

theorem next_mapLater : next (mapLater f later) = next later := by
  cases later <;> rfl

theorem mapLater_mapLater : mapLater g (mapLater f later) = mapLater (f.andThen g) later := by
  induction later with
  | nil => rfl
  | cons entry later ih =>
    rw [mapLater, mapLater, mapLater, ih, next_mapLater]
    rfl

/-- No rewriting moves a delimiter, so two of them one after the other are one. -/
theorem map_map (cut : Cut) : (cut.map f).map g = cut.map (f.andThen g) := by
  rw [map, map, map, mapLater_mapLater]

/-- What holds of delimiters and of each rewritten run holds of the rewritten text. -/
theorem forall_mem_chars_map {P : CodePoint → Prop} {cut : Cut}
    (hdelimiter : ∀ d : Delimiter, P d.char)
    (hf : ∀ before after run, (∀ c ∈ run.text.toList, P c) →
      ∀ c ∈ (f before after run).text.toList, P c)
    (h : ∀ c ∈ cut.chars, P c) : ∀ c ∈ (cut.map f).chars, P c := by
  have hlater : ∀ later, (∀ c ∈ laterChars later, P c) →
      ∀ c ∈ laterChars (mapLater f later), P c := by
    intro later
    induction later with
    | nil => exact id
    | cons entry later ih =>
      intro h
      obtain ⟨-, h⟩ := List.forall_mem_cons.mp h
      obtain ⟨hrun, hrest⟩ := List.forall_mem_append.mp h
      rw [mapLater, laterChars, List.forall_mem_cons, List.forall_mem_append]
      exact ⟨hdelimiter _, hf _ _ _ hrun, ih hrest⟩
  obtain ⟨hfirst, hrest⟩ := List.forall_mem_append.mp h
  exact List.forall_mem_append.mpr ⟨hfirst, hlater _ hrest⟩

end Cut

/-! ### The two passes, run by run -/

/-- A word for blanks becomes `_` unless it ends the text. -/
def markRun : Rewriting := fun _ after run =>
  if after ≠ none ∧ (run.text = "spaces" ∨ run.text = "initial_spaces") then
    .ofWord "_" (by decide)
  else run

/-- A label becomes its tag between an opening bracket and a blank. -/
def tagRun : Rewriting := fun before after run =>
  if before = .openBracket ∧ after = some .blank then
    .ofWord (tagText run.text) (isWord_tagText run.isWord)
  else run

section

variable {before : Delimiter} {after : Option Delimiter} {run : Run}

theorem toList_markRun :
    (markRun before after run).text.toList =
      if after = none then run.text.toList else markWord run.text.toList := by
  rw [markWord_toList]
  unfold markRun markText
  by_cases hafter : after = none
  · rw [if_pos hafter, if_neg fun h => h.1 hafter]
  · rw [if_neg hafter]
    by_cases hblank : run.text = "spaces" ∨ run.text = "initial_spaces"
    · rw [if_pos hblank, if_pos ⟨hafter, hblank⟩]
      rfl
    · rw [if_neg hblank, if_neg fun h => hblank h.2]

theorem toList_tagRun :
    (tagRun .openBracket after run).text.toList =
      retag labelTags (after.map Delimiter.char) run.text.toList := by
  by_cases hafter : after = some .blank
  · subst hafter
    exact (retag_labelTags run.text).symm
  · have hnext : after.map Delimiter.char ≠ some (.char ' ') := by
      intro h
      obtain ⟨d, rfl, hd⟩ := Option.map_eq_some_iff.mp h
      have hblank : d.char = Delimiter.blank.char := hd
      exact hafter (congrArg some (Delimiter.char_injective hblank))
    rw [retag_of_forall_not fun _ _ h => hnext h.2, tagRun, if_neg fun h => hafter h.2]

theorem tagRun_of_ne (h : before ≠ .openBracket) : tagRun before after run = run :=
  if_neg fun h' => h h'.1

end

namespace Cut

/-- The delimiter after a run is looked at and not taken, so it is there before the next run as
well. -/
theorem substitute_blankRule_laterChars (later : List (Delimiter × Run)) :
    substitute blankRule (laterChars later) = laterChars (mapLater markRun later) := by
  induction later with
  | nil => rfl
  | cons entry later ih =>
    rw [laterChars, substitute_blankRule_word (isDelimiter_char _) entry.2.isWord
      bounded_laterChars, ih, mapLater, laterChars, toList_markRun]
    simp only [laterChars_eq_nil_iff]

/-- The words for blanks give way to `_` run by run. -/
theorem substitute_blankRule_chars (cut : Cut) :
    substitute blankRule cut.chars = (cut.map markRun).chars := by
  rw [chars, substitute_blankRule_append cut.first.isWord, substitute_blankRule_laterChars]
  rfl

theorem tagLabels_laterChars (later : List (Delimiter × Run)) :
    tagLabels (laterChars later) = laterChars (mapLater tagRun later) := by
  induction later with
  | nil => rfl
  | cons entry later ih =>
    obtain ⟨d, run⟩ := entry
    rw [laterChars, mapLater, laterChars, ← ih]
    by_cases hd : d = .openBracket
    · subst hd
      rw [toList_tagRun, ← head?_laterChars]
      exact tagLabels_word run.isWord bounded_laterChars
    · have hchar : d.char ≠ Delimiter.openBracket.char := fun h => hd (Delimiter.char_injective h)
      rw [tagRun_of_ne hd, tagLabels_cons hchar,
        tagLabels_append (ne_openBracket_of_isWord run.isWord)]

/-- The labels give way to their tags run by run. -/
theorem tagLabels_chars (cut : Cut) : tagLabels cut.chars = (cut.map tagRun).chars := by
  rw [chars, tagLabels_append (ne_openBracket_of_isWord cut.first.isWord), tagLabels_laterChars]
  rfl

end Cut

/-! ### Both passes at once -/

/-- What a run becomes in flat text: a word for blanks becomes `_` if a delimiter follows, and where
tags are asked for, any other run becomes its tag if it has one in its place. -/
def rewriteRun (nodeLabels : Bool) : Rewriting := fun before after run =>
  if after ≠ none ∧ (run.text = "spaces" ∨ run.text = "initial_spaces") then
    .ofWord "_" (by decide)
  else if nodeLabels = true then tagRun before after run
  else run

/-- The sign for blanks, and the tags. -/
def writtenTexts : List Text :=
  ["_", "PRENEX:", "BRIDI:", "SELBRI:", "SUMTI:"]

theorem tagText_eq_or_mem (s : Text) : tagText s = s ∨ tagText s ∈ writtenTexts := by
  unfold tagText
  split_ifs
  · exact .inr (by decide)
  · exact .inr (by decide)
  · exact .inr (by decide)
  · exact .inr (by decide)
  · exact .inl rfl

theorem tagText_of_mem {s : Text} (h : s ∈ writtenTexts) : tagText s = s := by
  revert s
  decide

section

variable {nodeLabels : Bool} {before : Delimiter} {after : Option Delimiter} {run : Run}

theorem tagRun_of_mem (h : run.text ∈ writtenTexts) : tagRun before after run = run := by
  unfold tagRun
  split
  · exact Run.ext (tagText_of_mem h)
  · rfl

/-- Flattening leaves alone what it has written. -/
theorem rewriteRun_of_mem (h : run.text ∈ writtenTexts) :
    rewriteRun nodeLabels before after run = run := by
  have hwritten : ∀ s ∈ writtenTexts, ¬(s = "spaces" ∨ s = "initial_spaces") := by decide
  rw [rewriteRun, if_neg fun hblank => hwritten _ h hblank.2, tagRun_of_mem h, ite_self]

theorem tagRun_eq_or_mem :
    tagRun before after run = run ∨ (tagRun before after run).text ∈ writtenTexts := by
  unfold tagRun
  split
  · rcases tagText_eq_or_mem run.text with h | h
    · exact .inl (Run.ext h)
    · exact .inr h
  · exact .inl rfl

variable (nodeLabels before after run) in
/-- A run stays, or one of the few texts that flattening writes takes its place. -/
theorem rewriteRun_eq_or_mem :
    rewriteRun nodeLabels before after run = run ∨
      (rewriteRun nodeLabels before after run).text ∈ writtenTexts := by
  unfold rewriteRun
  split
  · exact .inr List.mem_cons_self
  · split
    · exact tagRun_eq_or_mem
    · exact .inl rfl

variable (nodeLabels) in
theorem rewriteRun_andThen_rewriteRun :
    (rewriteRun nodeLabels).andThen (rewriteRun nodeLabels) = rewriteRun nodeLabels := by
  funext before after run
  unfold Rewriting.andThen
  rcases rewriteRun_eq_or_mem nodeLabels before after run with h | h
  · rw [h, h]
  · exact rewriteRun_of_mem h

/-- Without tags, marking is all that is done to a run. -/
theorem markRun_eq_rewriteRun : markRun = rewriteRun false := by
  funext before after run
  rw [rewriteRun, if_neg Bool.false_ne_true]
  rfl

/-- To mark a run and then to tag it is to rewrite it at once: the sign for blanks has no tag. -/
theorem markRun_andThen_tagRun : markRun.andThen tagRun = rewriteRun true := by
  funext before after run
  rw [Rewriting.andThen, markRun, rewriteRun, if_pos rfl]
  split
  · exact tagRun_of_mem List.mem_cons_self
  · rfl

end

/-! ### Flat text -/

/-- The text without its quotes, and with a blank for each comma. -/
def unquoted (text : List CodePoint) : List CodePoint :=
  text.flatMap fun c => if c = .char '"' then [] else if c = .char ',' then [.char ' '] else [c]

theorem dropQuotes_eq_unquoted (text : List CodePoint) : dropQuotes text = unquoted text := by
  induction text with
  | nil => rfl
  | cons c text ih =>
    rw [unquoted, List.flatMap_cons, ← unquoted, ← ih]
    by_cases hquote : c = '"'
    · subst hquote
      rfl
    · by_cases hcomma : c = ','
      · subst hcomma
        exact dropQuotes_comma text
      · rw [dropQuotes_cons hquote hcomma, if_neg hquote, if_neg hcomma]
        rfl

theorem plain_of_mem_dropQuotes {text : List CodePoint} :
    ∀ c ∈ dropQuotes text, c ≠ '"' ∧ c ≠ ',' := by
  intro c hc
  obtain ⟨d, hd, rfl⟩ := List.mem_map.mp hc
  have hquote : d ≠ '"' := by simpa using (List.mem_filter.mp hd).2
  split
  · decide
  · rename_i hcomma
    exact ⟨hquote, hcomma⟩

/-- A text is flattened run by run. -/
theorem flattenChars_of_cut (nodeLabels : Bool) {text : List CodePoint} {cut : Cut}
    (h : cut.chars = dropQuotes text) :
    flattenChars nodeLabels text = (cut.map (rewriteRun nodeLabels)).chars := by
  have marked : substitute blankRule (dropQuotes text) = (cut.map markRun).chars := by
    rw [← h, Cut.substitute_blankRule_chars]
  cases nodeLabels with
  | false =>
    rw [← markRun_eq_rewriteRun, ← marked]
    rfl
  | true =>
    rw [← markRun_andThen_tagRun, ← Cut.map_map, ← Cut.tagLabels_chars, ← marked]
    rfl

/-- Flat text holds no quotes and no commas. -/
theorem plain_of_mem_flattenChars {nodeLabels : Bool} {text : List CodePoint} :
    ∀ c ∈ flattenChars nodeLabels text, c ≠ '"' ∧ c ≠ ',' := by
  obtain ⟨cut, hcut⟩ := Cut.exists_chars_eq (dropQuotes text)
  have written : ∀ s ∈ writtenTexts, ∀ c ∈ s.toList, c ≠ '"' ∧ c ≠ ',' := by
    simp [writtenTexts]
  rw [flattenChars_of_cut nodeLabels hcut]
  apply Cut.forall_mem_chars_map
  · intro d
    cases d <;> decide
  · intro before after run hrun
    rcases rewriteRun_eq_or_mem nodeLabels before after run with h | h
    · rwa [h]
    · exact written _ h
  · rw [hcut]
    exact plain_of_mem_dropQuotes

/-- Flat text falls into the runs that have been written, and these stay. -/
theorem flattenChars_flattenChars (nodeLabels : Bool) (text : List CodePoint) :
    flattenChars nodeLabels (flattenChars nodeLabels text) = flattenChars nodeLabels text := by
  obtain ⟨cut, hcut⟩ := Cut.exists_chars_eq (dropQuotes text)
  have flat : flattenChars nodeLabels text = (cut.map (rewriteRun nodeLabels)).chars :=
    flattenChars_of_cut nodeLabels hcut
  have again : (cut.map (rewriteRun nodeLabels)).chars =
      dropQuotes (flattenChars nodeLabels text) := by
    rw [dropQuotes_eq_self plain_of_mem_flattenChars, flat]
  rw [flattenChars_of_cut nodeLabels again, Cut.map_map, rewriteRun_andThen_rewriteRun, flat]

/-- **A text is flattened run by run, and flat text stays as it is.** Without its quotes, and with
blanks for its commas, the text can be cut at its delimiters in one way; the flat text is that cut
with each run after a delimiter rewritten by what stands beside it. -/
theorem flatten_runwise (nodeLabels : Bool) (text : Text) :
    (∃ cut : Cut,
      (∀ other : Cut, other.chars = unquoted text.toList ↔ other = cut) ∧
        flatten nodeLabels text = Text.ofList (cut.map (rewriteRun nodeLabels)).chars) ∧
      flatten nodeLabels (flatten nodeLabels text) = flatten nodeLabels text := by
  constructor
  · obtain ⟨cut, hcut⟩ := Cut.exists_chars_eq (unquoted text.toList)
    refine ⟨cut, fun other => ⟨fun hother => ?_, ?_⟩, ?_⟩
    · exact Cut.chars_injective (hother.trans hcut.symm)
    · rintro rfl
      exact hcut
    · rw [flatten, flattenChars_of_cut nodeLabels (hcut.trans (dropQuotes_eq_unquoted _).symm)]
  · rw [flatten, flatten, Text.toList_ofList, flattenChars_flattenChars]

/-- Two words for blanks that share a delimiter both give way. -/
example : flatten true "[\"sumti\",\"spaces\",\"spaces\"]" = "[SUMTI: _ _]" := by
  decide

end LojbanTree.Bracketed
