import LojbanTree.Bracketed.Glyphs
import LojbanTree.Proofs.Bracketed.Items
import Mathlib.Data.List.Infix

/-!
The brackets of a text and their depth.

A text that opens some brackets and closes others leads from one depth to another. Where it closes
none that is not open it is *nested*, and all glyphs are chosen at natural depths
(`Nested.shapeFrom_openBracket`, `Nested.shapeFrom_closeBracket`); where it closes all that it
opens as well it is *balanced*. The rewritings of flat text neither add nor drop nor move a
bracket, whatever the text is (`filter_flattenChars`).
-/

namespace LojbanTree.Bracketed

open Text

/-- Is the code point a square bracket? -/
def isBracket (c : CodePoint) : Bool :=
  c = '[' || c = ']'

/-- How many more brackets a text opens than it closes. -/
def netDepth (text : List CodePoint) : Int :=
  text.count (.char '[') - text.count (.char ']')

section

variable {c : CodePoint} {depth : Int} {text rest before after : List CodePoint}

theorem isBracket_eq_true_iff : isBracket c = true ↔ c = '[' ∨ c = ']' := by
  simp [isBracket]

theorem bracket_cases (c : CodePoint) : c = '[' ∨ c = ']' ∨ isBracket c = false := by
  cases hc : isBracket c with
  | true =>
    rcases isBracket_eq_true_iff.mp hc with hopen | hclose
    · exact .inl hopen
    · exact .inr (.inl hclose)
  | false => exact .inr (.inr rfl)

theorem ne_brackets (h : isBracket c = false) : c ≠ '[' ∧ c ≠ ']' := by
  simpa [isBracket] using h

theorem isBracket_eq_false_of_isPlain (h : IsPlain c) : isBracket c = false := by
  obtain ⟨-, -, -, -, hopen, hclose, -⟩ := h
  simp [isBracket, hopen, hclose]

@[simp] theorem netDepth_nil : netDepth [] = 0 :=
  rfl

@[simp] theorem netDepth_append :
    netDepth (before ++ after) = netDepth before + netDepth after := by
  simp only [netDepth, List.count_append]
  omega

@[simp] theorem netDepth_openBracket : netDepth (.char '[' :: rest) = netDepth rest + 1 := by
  have hne : CodePoint.char '[' ≠ .char ']' := by decide
  simp only [netDepth, List.count_cons_self, List.count_cons_of_ne hne]
  omega

@[simp] theorem netDepth_closeBracket : netDepth (.char ']' :: rest) = netDepth rest - 1 := by
  have hne : CodePoint.char ']' ≠ .char '[' := by decide
  simp only [netDepth, List.count_cons_self, List.count_cons_of_ne hne]
  omega

theorem netDepth_cons (h : isBracket c = false) : netDepth (c :: rest) = netDepth rest := by
  obtain ⟨hopen, hclose⟩ := ne_brackets h
  rw [netDepth, netDepth, List.count_cons_of_ne hopen, List.count_cons_of_ne hclose]

theorem netDepth_eq_add (c : CodePoint) (rest : List CodePoint) :
    netDepth (c :: rest) = netDepth [c] + netDepth rest := by
  rw [← netDepth_append, List.singleton_append]

/-- Only brackets count. -/
theorem netDepth_filter (text : List CodePoint) :
    netDepth (text.filter isBracket) = netDepth text := by
  rw [netDepth, netDepth, List.count_filter (by decide), List.count_filter (by decide)]

/-! ### Nested texts -/

/-- Begun at a depth, the text closes no bracket that is not open. -/
def Nested (depth : Int) (text : List CodePoint) : Prop :=
  ∀ start, start <+: text → 0 ≤ depth + netDepth start

theorem Nested.nonneg (h : Nested depth text) : 0 ≤ depth := by
  have hnil := h [] List.nil_prefix
  rwa [netDepth_nil, Int.add_zero] at hnil

theorem Nested.mono {deeper : Int} (h : Nested depth text) (hdepth : depth ≤ deeper) :
    Nested deeper text := by
  intro start hstart
  have hhere := h start hstart
  omega

theorem nested_nil : Nested depth [] ↔ 0 ≤ depth := by
  constructor
  · exact Nested.nonneg
  · intro hdepth start hstart
    rwa [List.prefix_nil.mp hstart, netDepth_nil, Int.add_zero]

theorem nested_cons :
    Nested depth (c :: rest) ↔ 0 ≤ depth ∧ Nested (depth + netDepth [c]) rest := by
  constructor
  · intro h
    refine ⟨h.nonneg, fun start hstart => ?_⟩
    have hhere := h (c :: start) (List.cons_prefix_cons.mpr ⟨rfl, hstart⟩)
    rw [netDepth_eq_add] at hhere
    omega
  · rintro ⟨hdepth, hrest⟩ start hstart
    rcases List.prefix_cons_iff.mp hstart with rfl | ⟨more, rfl, hmore⟩
    · rwa [netDepth_nil, Int.add_zero]
    · have hhere := hrest more hmore
      rw [netDepth_eq_add]
      omega

theorem nested_openBracket :
    Nested depth (.char '[' :: rest) ↔ 0 ≤ depth ∧ Nested (depth + 1) rest :=
  nested_cons

theorem nested_closeBracket :
    Nested depth (.char ']' :: rest) ↔ 0 ≤ depth ∧ Nested (depth - 1) rest :=
  nested_cons

theorem nested_other (h : isBracket c = false) : Nested depth (c :: rest) ↔ Nested depth rest := by
  rw [nested_cons, netDepth_cons h, netDepth_nil, Int.add_zero]
  exact ⟨And.right, fun hrest => ⟨hrest.nonneg, hrest⟩⟩

/-- Two texts, the second of which is nested at the depth that the first leads to. -/
theorem nested_append :
    Nested depth (before ++ after) ↔
      Nested depth before ∧ Nested (depth + netDepth before) after := by
  induction before generalizing depth with
  | nil =>
    rw [List.nil_append, nested_nil, netDepth_nil, Int.add_zero]
    exact ⟨fun h => ⟨h.nonneg, h⟩, And.right⟩
  | cons c before ih =>
    rw [List.cons_append, nested_cons, nested_cons, ih, netDepth_eq_add c before, and_assoc,
      Int.add_assoc]

/-- Where the brackets of a text are nested, the text is. -/
theorem nested_of_filter (h : Nested depth (text.filter isBracket)) : Nested depth text := by
  intro start hstart
  rw [← netDepth_filter]
  exact h _ (hstart.filter isBracket)

/-! ### Balanced texts -/

/-- The text closes no bracket that is not open, and leaves none open. -/
structure Balanced (text : List CodePoint) : Prop where
  nested : Nested 0 text
  closed : netDepth text = 0

theorem balanced_nil : Balanced [] where
  nested := nested_nil.mpr (Int.le_refl 0)
  closed := netDepth_nil

theorem Balanced.append (hbefore : Balanced before) (hafter : Balanced after) :
    Balanced (before ++ after) where
  nested := by
    apply nested_append.mpr
    refine ⟨hbefore.nested, ?_⟩
    rw [hbefore.closed]
    exact hafter.nested
  closed := by rw [netDepth_append, hbefore.closed, hafter.closed, Int.add_zero]

/-- A pair of brackets around a balanced text. -/
theorem Balanced.enclose (h : Balanced text) : Balanced (.char '[' :: (text ++ [.char ']'])) where
  nested := by
    apply nested_openBracket.mpr
    refine ⟨Int.le_refl 0, nested_append.mpr ⟨h.nested.mono (by decide), ?_⟩⟩
    rw [h.closed]
    apply nested_closeBracket.mpr
    exact ⟨by decide, nested_nil.mpr (by decide)⟩
  closed := by
    rw [netDepth_openBracket, netDepth_append, h.closed]
    rfl

theorem balanced_flatMap {α : Type} {items : List α} {written : α → List CodePoint}
    (h : ∀ item ∈ items, Balanced (written item)) : Balanced (items.flatMap written) := by
  induction items with
  | nil => exact balanced_nil
  | cons item items ih =>
    obtain ⟨hitem, hitems⟩ := List.forall_mem_cons.mp h
    rw [List.flatMap_cons]
    exact hitem.append (ih hitems)

/-- Where the brackets of a text are balanced, the text is. -/
theorem balanced_of_filter (h : Balanced (text.filter isBracket)) : Balanced text where
  nested := nested_of_filter h.nested
  closed := by rw [← netDepth_filter, h.closed]

/-! ### The depth of glyphs -/

/-- Behind a part of a text the glyphs go on at the depth that the part leads to. -/
theorem shapeFrom_split (depth : Int) (before after : List CodePoint) :
    shapeFrom depth (before ++ after) =
      shapeFrom depth before ++ shapeFrom (depth + netDepth before) after := by
  induction before generalizing depth with
  | nil => rw [List.nil_append, shapeFrom_nil, List.nil_append, netDepth_nil, Int.add_zero]
  | cons c before ih =>
    rcases bracket_cases c with rfl | rfl | hother
    · have hdepth : depth + 1 + netDepth before = depth + netDepth (.char '[' :: before) := by
        rw [netDepth_openBracket]
        omega
      rw [List.cons_append, shapeFrom_open, shapeFrom_open, ih, hdepth]
      simp
    · have hdepth : depth - 1 + netDepth before = depth + netDepth (.char ']' :: before) := by
        rw [netDepth_closeBracket]
        omega
      rw [List.cons_append, shapeFrom_close, shapeFrom_close, ih, hdepth]
      simp
    · obtain ⟨hopen, hclose⟩ := ne_brackets hother
      rw [List.cons_append, shapeFrom_other _ _ hopen hclose, shapeFrom_other _ _ hopen hclose, ih,
        netDepth_cons hother, List.cons_append]

/-- In a nested text an opening bracket has the glyph of a natural depth. -/
theorem Nested.shapeFrom_openBracket (h : Nested 0 (before ++ .char '[' :: after)) :
    ∃ depth : Nat, netDepth before = depth ∧
      shapeFrom 0 (before ++ .char '[' :: after) =
        shapeFrom 0 before ++
          openGlyph depth :: (roundNumeralChars depth ++ shapeFrom (depth + 1) after) := by
  obtain ⟨depth, hdepth⟩ := Int.eq_ofNat_of_zero_le (nested_append.mp h).2.nonneg
  rw [Int.zero_add] at hdepth
  refine ⟨depth, hdepth, ?_⟩
  rw [shapeFrom_split, hdepth, Int.zero_add, shapeFrom_open]

/-- And a closing bracket has that of the depth to which it leads back. -/
theorem Nested.shapeFrom_closeBracket (h : Nested 0 (before ++ .char ']' :: after)) :
    ∃ depth : Nat, netDepth before = depth + 1 ∧
      shapeFrom 0 (before ++ .char ']' :: after) =
        shapeFrom 0 before ++
          (roundNumeralChars depth ++ closeGlyph depth :: shapeFrom depth after) := by
  obtain ⟨_, hclose⟩ := nested_append.mp h
  obtain ⟨depth, hdepth⟩ := Int.eq_ofNat_of_zero_le (nested_closeBracket.mp hclose).2.nonneg
  have hbefore : netDepth before = depth + 1 := by omega
  have hback : (depth : Int) + 1 - 1 = depth := by omega
  refine ⟨depth, hbefore, ?_⟩
  rw [shapeFrom_split, hbefore, Int.zero_add, shapeFrom_close, hback]

end

/-! ### Rewritings that keep the brackets -/

/-- Whatever the rule writes has the brackets of what it takes. -/
def KeepsBrackets (rule : SubstitutionRule) : Prop :=
  ∀ text taken written, rule text = some (taken, written) →
    written.filter isBracket = (text.take (taken + 1)).filter isBracket

/-- By induction on the text, with a part of it still to be skipped. -/
theorem filter_substitute {rule : SubstitutionRule} (h : KeepsBrackets rule)
    (text : List CodePoint) :
    (substitute rule text).filter isBracket = text.filter isBracket := by
  have skipping : ∀ skip, (substituteFrom rule skip text).filter isBracket =
      (text.drop skip).filter isBracket := by
    induction text with
    | nil =>
      intro skip
      rw [substituteFrom, List.drop_nil]
    | cons c rest ih =>
      intro skip
      cases skip with
      | succ skip => exact ih skip
      | zero =>
        rw [substituteFrom, List.drop_zero]
        split
        · rename_i taken written hrule
          rw [List.filter_append, h _ _ _ hrule, ih, ← List.filter_append, List.take_succ_cons,
            List.cons_append, List.take_append_drop]
        · rw [List.filter_cons, List.filter_cons, ih 0, List.drop_zero]
  exact skipping 0

theorem filter_isBracket_of_isWord {word : List CodePoint} (h : IsWord word) :
    word.filter isBracket = [] := by
  apply List.filter_eq_nil_iff.mpr
  intro c hc hbracket
  have hdelimiter := h c hc
  rcases isBracket_eq_true_iff.mp hbracket with rfl | rfl
  · cases hdelimiter
  · cases hdelimiter

/-- A delimiter stays in front of the sign for blanks, and words for blanks hold no bracket. -/
theorem keepsBrackets_blankRule : KeepsBrackets blankRule := by
  intro text taken written hrule
  cases text with
  | nil => cases hrule
  | cons c rest =>
    by_cases hc : isDelimiter c = true
    · obtain ⟨name, hfind, heq⟩ : ∃ name,
          blankNames.find? (fun name => beginsWithWord name rest) = some name ∧
            (name.length, [c, '_']) = (taken, written) := by
        simpa [blankRule, hc] using hrule
      obtain ⟨rfl, rfl⟩ := Prod.mk.inj heq
      have hbegins : beginsWithWord name rest = true := by simpa using List.find?_some hfind
      have hname : rest.take name.length = name := by
        obtain ⟨more, rfl⟩ := List.isPrefixOf_iff_prefix.mp (Bool.and_eq_true_iff.mp hbegins).1
        exact List.take_left
      have hword := isWord_of_mem_blankNames (List.mem_of_find?_eq_some hfind)
      have headOnly : ∀ word : List CodePoint, word.filter isBracket = [] →
          (c :: word).filter isBracket = [c].filter isBracket := by
        intro more hmore
        rw [← List.singleton_append, List.filter_append, hmore, List.append_nil]
      rw [List.take_succ_cons, hname, headOnly name (filter_isBracket_of_isWord hword)]
      exact headOnly [.char '_'] rfl
    · simp [blankRule, hc] at hrule

theorem filter_opening {label : List CodePoint} (h : IsWord label) :
    (opening label).filter isBracket = [.char '['] := by
  have hopen : isBracket '[' = true := rfl
  have hblank : [.char ' '].filter isBracket = [] := rfl
  rw [opening, List.filter_cons_of_pos hopen, List.filter_append, filter_isBracket_of_isWord h,
    hblank, List.append_nil]

/-- A tag stands after the bracket that its label stood after. -/
theorem keepsBrackets_tagRule {entry : List CodePoint × List CodePoint}
    (h : IsWord entry.1 ∧ IsWord entry.2) : KeepsBrackets (tagRule entry) := by
  intro text taken written hrule
  unfold tagRule replacing at hrule
  split at hrule
  · rename_i hprefix
    obtain ⟨rfl, rfl⟩ := Prod.mk.inj (Option.some.inj hrule)
    obtain ⟨more, rfl⟩ := List.isPrefixOf_iff_prefix.mp hprefix
    have hlength : (opening entry.1).length - 1 + 1 = (opening entry.1).length := rfl
    rw [hlength, List.take_left, filter_opening h.1, filter_opening h.2]
  · cases hrule

/-- Quotes and commas are no brackets. -/
theorem filter_dropQuotes (text : List CodePoint) :
    (dropQuotes text).filter isBracket = text.filter isBracket := by
  induction text with
  | nil => rfl
  | cons c rest ih =>
    by_cases hquote : c = '"'
    · subst hquote
      exact ih
    · by_cases hcomma : c = ','
      · subst hcomma
        exact ih
      · rw [dropQuotes_cons hquote hcomma, List.filter_cons, List.filter_cons, ih]

/-- **Flat text has the brackets of the text that it is made from**, in their order. -/
theorem filter_flattenChars (nodeLabels : Bool) (text : List CodePoint) :
    (flattenChars nodeLabels text).filter isBracket = text.filter isBracket := by
  have marked : (substitute blankRule (dropQuotes text)).filter isBracket =
      text.filter isBracket := by
    rw [filter_substitute keepsBrackets_blankRule, filter_dropQuotes]
  have tags : ∀ entries : List (List CodePoint × List CodePoint),
      (∀ entry ∈ entries, IsWord entry.1 ∧ IsWord entry.2) → ∀ text,
        (tagAll entries text).filter isBracket = text.filter isBracket := by
    intro entries
    induction entries with
    | nil =>
      intro _ text
      rfl
    | cons entry entries ih =>
      intro h text
      obtain ⟨hentry, hentries⟩ := List.forall_mem_cons.mp h
      rw [tagAll_cons, ih hentries, filter_substitute (keepsBrackets_tagRule hentry)]
  cases nodeLabels with
  | false => exact marked
  | true =>
    have htagged : flattenChars true text =
        tagAll labelTags (substitute blankRule (dropQuotes text)) := rfl
    rw [htagged, tags labelTags isWord_labelTags, marked]

end LojbanTree.Bracketed
