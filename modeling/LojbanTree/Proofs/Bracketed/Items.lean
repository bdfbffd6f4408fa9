import LojbanTree.Proofs.Bracketed.Words
import LojbanTree.Proofs.Tree.Characters
import LojbanTree.Tree.Encoding
import Mathlib.Tactic.SplitIfs

/-!
Flat text and list forms.

Where no text of a list form holds a character that means something in JSON or between brackets,
the flat text of its JSON text is the list form between brackets with its items apart by blanks.
The two rewritings of flat text then act on the list form: `marked` puts `_` for the words that
stand for blanks and `tagged` the tags of labels. Main statement: `flattenChars_encodeAt`.
-/

namespace LojbanTree

open Bracketed Text

namespace ListForm

mutual

/-- The labels and texts in a list form, from left to right. -/
def texts : ListForm → List Text
  | .text s => [s]
  | .list items => textsAll items

/-- The labels and texts in several list forms. -/
def textsAll : List ListForm → List Text
  | [] => []
  | form :: rest => texts form ++ textsAll rest

end

mutual

/-- The list form between brackets, with nothing but a blank between two items. -/
def bracketed : ListForm → List CodePoint
  | .text s => s.toList
  | .list [] => ['[', ']']
  | .list (first :: rest) => .char '[' :: (bracketed first ++ bracketedRest rest)

/-- The items after the first, and the closing bracket. -/
def bracketedRest : List ListForm → List CodePoint
  | [] => [.char ']']
  | item :: rest => .char ' ' :: (bracketed item ++ bracketedRest rest)

end

/-- How a text is shown: the words that stand for blanks as `_`. -/
def markText (s : Text) : Text :=
  if s = "spaces" ∨ s = "initial_spaces" then "_" else s

/-- How a text is shown that opens a branch: the labels of the parts of a sentence as tags. -/
def tagText (s : Text) : Text :=
  if s = "prenex" then "PRENEX:"
  else if s = "sentence" then "BRIDI:"
  else if s = "selbri" then "SELBRI:"
  else if s = "sumti" then "SUMTI:"
  else s

mutual

/-- The list form with `_` for the words that stand for blanks. -/
def marked : ListForm → ListForm
  | .text s => .text (markText s)
  | .list items => .list (markedAll items)

/-- Several list forms with `_` for the words that stand for blanks. -/
def markedAll : List ListForm → List ListForm
  | [] => []
  | form :: rest => marked form :: markedAll rest

end

/-- The items of a branch with a tag for the first, if that is a label and not the only one. -/
def tagFirst (nodeLabels : Bool) : List ListForm → List ListForm
  | .text s :: next :: rest => .text (if nodeLabels then tagText s else s) :: next :: rest
  | items => items

mutual

/-- The list form with tags for the labels that open the parts of a sentence. -/
def tagged (nodeLabels : Bool) : ListForm → ListForm
  | .text s => .text s
  | .list items => .list (tagFirst nodeLabels (taggedAll nodeLabels items))

/-- Several list forms with tags. -/
def taggedAll (nodeLabels : Bool) : List ListForm → List ListForm
  | [] => []
  | form :: rest => tagged nodeLabels form :: taggedAll nodeLabels rest

end

theorem textsAll_eq_flatMap (forms : List ListForm) : textsAll forms = forms.flatMap texts := by
  induction forms with
  | nil => rfl
  | cons form forms ih => simp [textsAll, ih]

theorem markedAll_eq_map (forms : List ListForm) : markedAll forms = forms.map marked := by
  induction forms with
  | nil => rfl
  | cons form forms ih => simp [markedAll, ih]

theorem taggedAll_eq_map (nodeLabels : Bool) (forms : List ListForm) :
    taggedAll nodeLabels forms = forms.map (tagged nodeLabels) := by
  induction forms with
  | nil => rfl
  | cons form forms ih => simp [taggedAll, ih]

@[simp] theorem texts_text (s : Text) : (text s).texts = [s] := by
  rw [texts]

@[simp] theorem texts_list (items : List ListForm) : (list items).texts = items.flatMap texts := by
  rw [texts, textsAll_eq_flatMap]

@[simp] theorem marked_text (s : Text) : (text s).marked = .text (markText s) := by
  rw [marked]

@[simp] theorem marked_list (items : List ListForm) :
    (list items).marked = .list (items.map marked) := by
  rw [marked, markedAll_eq_map]

@[simp] theorem tagged_text (nodeLabels : Bool) (s : Text) :
    (text s).tagged nodeLabels = .text s := by
  rw [tagged]

@[simp] theorem tagged_list (nodeLabels : Bool) (items : List ListForm) :
    (list items).tagged nodeLabels =
      .list (tagFirst nodeLabels (items.map (tagged nodeLabels))) := by
  rw [tagged, taggedAll_eq_map]

theorem bracketed_cons_append (first : ListForm) (items : List ListForm) (rest : List CodePoint) :
    (list (first :: items)).bracketed ++ rest =
      .char '[' :: (first.bracketed ++ (bracketedRest items ++ rest)) := by
  rw [bracketed, List.cons_append, List.append_assoc]

theorem bracketedRest_cons_append (item : ListForm) (items : List ListForm)
    (rest : List CodePoint) :
    bracketedRest (item :: items) ++ rest =
      .char ' ' :: (item.bracketed ++ (bracketedRest items ++ rest)) := by
  rw [bracketedRest, List.cons_append, List.append_assoc]

/-- All texts of the list form are words. -/
def Worded (form : ListForm) : Prop :=
  ∀ s ∈ form.texts, IsWord s.toList

theorem worded_text {s : Text} : (text s).Worded ↔ IsWord s.toList := by
  simp [Worded]

/-- The texts of a list are those of its items. -/
theorem forall_mem_texts_list {P : Text → Prop} {items : List ListForm} :
    (∀ s ∈ (list items).texts, P s) ↔ ∀ item ∈ items, ∀ s ∈ item.texts, P s := by
  simp only [texts_list, List.mem_flatMap]
  exact ⟨fun h item hi s hs => h s ⟨item, hi, hs⟩, fun h s ⟨item, hi, hs⟩ => h item hi s hs⟩

theorem worded_list {items : List ListForm} :
    (list items).Worded ↔ ∀ item ∈ items, item.Worded :=
  forall_mem_texts_list

/-- The texts in the list form of a tree are the labels and texts of its subtrees. -/
theorem texts_toListForm (tree : Tree) :
    tree.toListForm.texts = tree.subtrees.filterMap Tree.name? := by
  have siblings : ∀ children : List Tree,
      (∀ child ∈ children, child.toListForm.texts = child.subtrees.filterMap Tree.name?) →
        (children.map Tree.toListForm).flatMap texts =
          (children.flatMap Tree.subtrees).filterMap Tree.name? := by
    intro children each
    rw [List.flatMap_map, List.filterMap_flatMap, List.flatMap_def, List.map_congr_left each,
      ← List.flatMap_def]
  induction tree with
  | leaf text => simp [Tree.name?]
  | labeled label children ih =>
    have hname : (Tree.labeled label children).name? = some label := rfl
    rw [Tree.toListForm_labeled, texts_list, List.flatMap_cons, texts_text, siblings children ih,
      Tree.subtrees_labeled, List.filterMap_cons_some hname, List.singleton_append]
  | group children ih =>
    have hname : (Tree.group children).name? = none := rfl
    rw [Tree.toListForm_group, texts_list, siblings children ih, Tree.subtrees_group,
      List.filterMap_cons_none hname]

theorem forall_mem_texts_toListForm {P : Text → Prop} {tree : Tree} :
    (∀ s ∈ tree.toListForm.texts, P s) ↔
      tree.Every fun node => ∀ name ∈ node.name?, P name := by
  simp only [texts_toListForm, List.mem_filterMap, Tree.Every]
  constructor
  · intro h node hn name hname
    exact h name ⟨node, hn, hname⟩
  · rintro h name ⟨node, hn, hname⟩
    exact h node hn name hname

/-! ### From JSON text to items between brackets -/

end ListForm

/-- A character that means nothing in JSON or in flat text. -/
def IsPlain (c : CodePoint) : Prop :=
  c ≠ '"' ∧ c ≠ '\\' ∧ c ≠ ',' ∧ c ≠ ' ' ∧ c ≠ '[' ∧ c ≠ ']' ∧ 0x20 ≤ c.toNat

instance : DecidablePred IsPlain := fun c =>
  inferInstanceAs (Decidable (c ≠ '"' ∧ c ≠ '\\' ∧ c ≠ ',' ∧ c ≠ ' ' ∧ c ≠ '[' ∧ c ≠ ']' ∧
    0x20 ≤ c.toNat))

theorem isWord_of_isPlain {word : List CodePoint} (h : ∀ c ∈ word, IsPlain c) : IsWord word := by
  intro c hc
  obtain ⟨-, -, -, hblank, hopen, hclose, -⟩ := h c hc
  simp [isDelimiter, hblank, hopen, hclose]

/-- The passes over a tree add plain characters only. -/
theorem isPlain_of_mem_addedCharacters {c : CodePoint} (h : c ∈ Tree.addedCharacters) :
    IsPlain c := by
  have all : Tree.addedCharacters.all (fun c => decide (IsPlain c)) = true := rfl
  exact of_decide_eq_true (List.all_eq_true.mp all c h)

/-- JSON writes a plain character as it is. -/
theorem escapeChar_of_isPlain {c : CodePoint} (h : IsPlain c) : escapeChar c = [c] := by
  obtain ⟨hquote, hslash, -, -, -, -, hprint⟩ := h
  unfold escapeChar
  split
  case h_8 => rw [if_neg (by omega)]
  case h_1 => exact absurd rfl hquote
  case h_2 => exact absurd rfl hslash
  all_goals exact absurd hprint (by decide)

theorem dropQuotes_append (text rest : List CodePoint) :
    dropQuotes (text ++ rest) = dropQuotes text ++ dropQuotes rest := by
  simp [dropQuotes]

theorem dropQuotes_cons {c : CodePoint} (hquote : c ≠ '"') (hcomma : c ≠ ',')
    (rest : List CodePoint) :
    dropQuotes (c :: rest) = c :: dropQuotes rest := by
  simp [dropQuotes, hquote, hcomma]

theorem dropQuotes_comma (rest : List CodePoint) :
    dropQuotes (.char ',' :: rest) = .char ' ' :: dropQuotes rest := by
  simp [dropQuotes]

/-- A text without quotes and commas stays. -/
theorem dropQuotes_eq_self {text : List CodePoint} (h : ∀ c ∈ text, c ≠ '"' ∧ c ≠ ',') :
    dropQuotes text = text := by
  have noQuote : text.filter (· ≠ .char '"') = text :=
    List.filter_eq_self.mpr fun c hc => by simpa using (h c hc).1
  have noComma : ∀ c ∈ text, (if c = .char ',' then .char ' ' else c) = c :=
    fun c hc => if_neg (h c hc).2
  rw [dropQuotes, noQuote, List.map_congr_left noComma, List.map_id']

/-- A plain text loses its quotes and nothing else. -/
theorem dropQuotes_quoteText {s : Text} (h : ∀ c ∈ s.toList, IsPlain c) :
    dropQuotes (quoteText s) = s.toList := by
  have written : s.toList.flatMap escapeChar = s.toList := by
    have each : ∀ c ∈ s.toList, escapeChar c = [c] := fun c hc => escapeChar_of_isPlain (h c hc)
    rw [List.flatMap_def, List.map_congr_left each, ← List.flatMap_def, List.flatMap_singleton']
  have kept : dropQuotes s.toList = s.toList :=
    dropQuotes_eq_self fun c hc => ⟨(h c hc).1, (h c hc).2.2.1⟩
  have hquote : dropQuotes [.char '"'] = [] := rfl
  rw [quoteText, written, ← List.singleton_append, dropQuotes_append, dropQuotes_append, kept,
    hquote]
  simp

namespace ListForm

theorem dropQuotes_encodeRest {items : List ListForm} {depth : Nat}
    (each : ∀ item ∈ items, ∀ depth,
      dropQuotes (item.encodeAt .compact depth) = item.bracketed) :
    dropQuotes (encodeRest .compact depth items) = bracketedRest items := by
  induction items with
  | nil => rfl
  | cons item items ih =>
    obtain ⟨hitem, heach⟩ := List.forall_mem_cons.mp each
    rw [encodeRest, bracketedRest, dropQuotes_comma, dropQuotes_append, dropQuotes_append, hitem,
      ih heach]
    rfl

/-- Without its quotes the compact JSON text is the list form between brackets. -/
theorem dropQuotes_encodeAt {form : ListForm}
    (h : ∀ s ∈ form.texts, ∀ c ∈ s.toList, IsPlain c) (depth : Nat) :
    dropQuotes (form.encodeAt .compact depth) = form.bracketed := by
  induction form generalizing depth with
  | text s =>
    rw [encodeAt, bracketed]
    exact dropQuotes_quoteText (h s (by simp))
  | list items ih =>
    have each : ∀ item ∈ items, ∀ depth,
        dropQuotes (item.encodeAt .compact depth) = item.bracketed := by
      intro item hi
      refine ih item hi fun s hs => h s ?_
      rw [texts_list]
      exact List.mem_flatMap.mpr ⟨item, hi, hs⟩
    cases items with
    | nil => rfl
    | cons first rest =>
      obtain ⟨hfirst, hrest⟩ := List.forall_mem_cons.mp each
      rw [encodeAt, bracketed, dropQuotes_cons (by decide) (by decide), dropQuotes_append,
        dropQuotes_append, hfirst, dropQuotes_encodeRest hrest]
      rfl

/-! ### Words for blanks among the items -/

theorem markWord_toList (s : Text) : markWord s.toList = (markText s).toList := by
  have hmem : s.toList ∈ blankNames ↔ s = "spaces" ∨ s = "initial_spaces" := by
    simp only [blankNames, List.mem_cons, List.not_mem_nil, or_false, Text.toList_eq_iff]
    exact or_comm
  unfold markWord markText
  split
  · rename_i h
    rw [if_pos (hmem.mp h)]
    rfl
  · rename_i h
    rw [if_neg (mt hmem.mpr h)]

theorem isWord_markText {s : Text} (h : IsWord s.toList) : IsWord (markText s).toList := by
  unfold markText
  split
  · decide
  · exact h

theorem bounded_bracketedRest (items : List ListForm) (rest : List CodePoint) :
    Bounded (bracketedRest items ++ rest) := by
  cases items with
  | nil => exact bounded_cons.mpr rfl
  | cons item items => exact bounded_cons.mpr rfl

theorem bracketedRest_append_ne_nil (items : List ListForm) (rest : List CodePoint) :
    bracketedRest items ++ rest ≠ [] := by
  cases items <;> simp [bracketedRest]

/-- Between two delimiters the rule for blanks turns the list form into the marked one. -/
def MarksBetween (form : ListForm) : Prop :=
  ∀ d rest, isDelimiter d = true → Bounded rest → rest ≠ [] →
    substitute blankRule (d :: (form.bracketed ++ rest)) =
      d :: (form.marked.bracketed ++ substitute blankRule rest)

section

variable {items : List ListForm} {rest : List CodePoint}

theorem substitute_bracketedRest (each : ∀ item ∈ items, item.MarksBetween)
    (hrest : Bounded rest) :
    substitute blankRule (bracketedRest items ++ rest) =
      bracketedRest (items.map marked) ++ substitute blankRule rest := by
  induction items with
  | nil => exact substitute_blankRule_delimiter rfl hrest
  | cons item items ih =>
    obtain ⟨hitem, heach⟩ := List.forall_mem_cons.mp each
    rw [bracketedRest_cons_append,
      hitem ' ' _ rfl (bounded_bracketedRest _ _) (bracketedRest_append_ne_nil _ _), ih heach,
      List.map_cons, bracketedRest_cons_append]

/-- A branch needs no delimiter around it, since its own brackets are delimiters. -/
theorem substitute_bracketed_list (each : ∀ item ∈ items, item.MarksBetween)
    (hrest : Bounded rest) :
    substitute blankRule ((list items).bracketed ++ rest) =
      (list items).marked.bracketed ++ substitute blankRule rest := by
  rw [marked_list]
  cases items with
  | nil =>
    show substitute blankRule (.char '[' :: .char ']' :: rest) =
      .char '[' :: .char ']' :: substitute blankRule rest
    rw [substitute_blankRule_delimiter rfl (bounded_cons.mpr rfl),
      substitute_blankRule_delimiter rfl hrest]
  | cons first items =>
    obtain ⟨hfirst, heach⟩ := List.forall_mem_cons.mp each
    rw [bracketed_cons_append,
      hfirst '[' _ rfl (bounded_bracketedRest _ _) (bracketedRest_append_ne_nil _ _),
      substitute_bracketedRest heach hrest, List.map_cons, bracketed_cons_append]

end

theorem marksBetween {form : ListForm} (h : form.Worded) : form.MarksBetween := by
  induction form with
  | text s =>
    intro d rest hd hrest hne
    rw [bracketed, substitute_blankRule_word hd (worded_text.mp h) hrest, if_neg hne,
      markWord_toList, marked_text, bracketed]
  | list items ih =>
    intro d rest hd hrest _
    have each : ∀ item ∈ items, item.MarksBetween :=
      fun item hi => ih item hi (worded_list.mp h item hi)
    have hopen : Bounded ((list items).bracketed ++ rest) := by
      cases items <;> exact bounded_cons.mpr rfl
    rw [substitute_blankRule_delimiter hd hopen, substitute_bracketed_list each hrest]

/-! ### Tags among the items -/

theorem retag_labelTags (s : Text) :
    retag labelTags (some (.char ' ')) s.toList = (tagText s).toList := by
  unfold tagText
  split_ifs with hprenex hsentence hselbri hsumti
  · rw [hprenex]
    decide
  · rw [hsentence]
    decide
  · rw [hselbri]
    decide
  · rw [hsumti]
    decide
  · refine retag_of_forall_not fun entry he ⟨hs, _⟩ => ?_
    simp only [labelTags, List.mem_cons, List.not_mem_nil, or_false] at he
    rcases he with rfl | rfl | rfl | rfl
    · exact hprenex (Text.toList_eq_iff.mp hs)
    · exact hsentence (Text.toList_eq_iff.mp hs)
    · exact hselbri (Text.toList_eq_iff.mp hs)
    · exact hsumti (Text.toList_eq_iff.mp hs)

theorem isWord_tagText {s : Text} (h : IsWord s.toList) : IsWord (tagText s).toList := by
  unfold tagText
  split_ifs
  · decide
  · decide
  · decide
  · decide
  · exact h

/-- Whatever follows, the tags turn the list form into the tagged one. -/
def TakesTags (form : ListForm) : Prop :=
  ∀ rest, tagLabels (form.bracketed ++ rest) = (form.tagged true).bracketed ++ tagLabels rest

section

variable {items : List ListForm} {rest : List CodePoint}

theorem tagLabels_bracketedRest (each : ∀ item ∈ items, item.TakesTags) :
    tagLabels (bracketedRest items ++ rest) =
      bracketedRest (items.map (tagged true)) ++ tagLabels rest := by
  induction items with
  | nil => exact tagLabels_cons (by decide)
  | cons item items ih =>
    obtain ⟨hitem, heach⟩ := List.forall_mem_cons.mp each
    rw [bracketedRest_cons_append, tagLabels_cons (by decide), hitem, ih heach, List.map_cons,
      bracketedRest_cons_append]

/-- The text that opens a branch takes its tag, if other items follow. -/
theorem tagLabels_bracketed_text {s : Text} (hs : IsWord s.toList)
    (each : ∀ item ∈ items, item.TakesTags) :
    tagLabels ((list (.text s :: items)).bracketed ++ rest) =
      ((list (.text s :: items)).tagged true).bracketed ++ tagLabels rest := by
  rw [bracketed_cons_append, bracketed, tagLabels_word hs (bounded_bracketedRest _ _),
    tagLabels_bracketedRest each, tagged_list, List.map_cons, tagged_text]
  cases items with
  | nil =>
    rw [retag_of_forall_not fun _ _ h => absurd h.2 (by simp [bracketedRest])]
    simp [tagFirst, bracketed]
  | cons next items =>
    have hnext : (bracketedRest (next :: items) ++ rest).head? = some (.char ' ') := rfl
    rw [hnext, retag_labelTags]
    simp [tagFirst, bracketed]

/-- An opening bracket before another one takes no tag. -/
theorem tagLabels_bracketed_list {inner : List ListForm} (hfirst : (list inner).TakesTags)
    (each : ∀ item ∈ items, item.TakesTags) :
    tagLabels ((list (.list inner :: items)).bracketed ++ rest) =
      ((list (.list inner :: items)).tagged true).bracketed ++ tagLabels rest := by
  have hopen : Bounded ((list inner).bracketed ++ (bracketedRest items ++ rest)) := by
    cases inner <;> exact bounded_cons.mpr rfl
  have same : tagFirst true (((list inner).tagged true) :: items.map (tagged true)) =
      ((list inner).tagged true) :: items.map (tagged true) := by
    rw [tagged_list]
    rfl
  rw [bracketed_cons_append, tagLabels_openBracket hopen, hfirst, tagLabels_bracketedRest each,
    tagged_list (true) (.list inner :: items), List.map_cons, same, bracketed_cons_append]

end

theorem takesTags {form : ListForm} (h : form.Worded) : form.TakesTags := by
  induction form with
  | text s =>
    intro rest
    rw [bracketed, tagLabels_append (ne_openBracket_of_isWord (worded_text.mp h)), tagged_text,
      bracketed]
  | list items ih =>
    intro rest
    have each : ∀ item ∈ items, item.TakesTags :=
      fun item hi => ih item hi (worded_list.mp h item hi)
    cases items with
    | nil =>
      have hclose : Bounded (.char ']' :: rest) := bounded_cons.mpr rfl
      exact (tagLabels_openBracket hclose).trans (by rw [tagLabels_cons (by decide)]; rfl)
    | cons first items =>
      obtain ⟨hfirst, heach⟩ := List.forall_mem_cons.mp each
      cases first with
      | text s =>
        exact tagLabels_bracketed_text
          (worded_text.mp (worded_list.mp h _ List.mem_cons_self)) heach
      | list inner => exact tagLabels_bracketed_list hfirst heach

/-! ### The flat text -/

theorem worded_marked {form : ListForm} (h : form.Worded) : form.marked.Worded := by
  induction form with
  | text s =>
    rw [marked_text]
    exact worded_text.mpr (isWord_markText (worded_text.mp h))
  | list items ih =>
    rw [marked_list]
    exact worded_list.mpr (List.forall_mem_map.mpr fun item hi =>
      ih item hi (worded_list.mp h item hi))

/-- Without tags the list form stays. -/
theorem tagged_false (form : ListForm) : form.tagged false = form := by
  induction form with
  | text s => exact tagged_text false s
  | list items ih =>
    have each : items.map (tagged false) = items :=
      (List.map_congr_left ih).trans (List.map_id _)
    rw [tagged_list, each]
    unfold tagFirst
    split <;> rfl

/-- **The flat text of a branch** whose texts are plain is its list form between brackets, marked
and tagged. -/
theorem flattenChars_encodeAt (nodeLabels : Bool) {items : List ListForm}
    (h : ∀ s ∈ (list items).texts, ∀ c ∈ s.toList, IsPlain c) :
    flattenChars nodeLabels ((list items).encodeAt .compact 0) =
      ((list items).marked.tagged nodeLabels).bracketed := by
  have worded : (list items).Worded := fun s hs => isWord_of_isPlain (h s hs)
  have mark : substitute blankRule (list items).bracketed = (list items).marked.bracketed := by
    have hlist := substitute_bracketed_list
      (fun item hi => marksBetween (worded_list.mp worded item hi)) bounded_nil
    rwa [List.append_nil, substitute_nil, List.append_nil] at hlist
  rw [flattenChars, dropQuotes_encodeAt h, mark]
  cases nodeLabels with
  | false => rw [tagged_false]; rfl
  | true =>
    have tag := takesTags (worded_marked worded) []
    rw [List.append_nil] at tag
    exact tag.trans (List.append_nil _)

/-- The flat text of a leaf is its text. -/
theorem flattenChars_encodeAt_text (nodeLabels : Bool) {s : Text}
    (h : ∀ c ∈ s.toList, IsPlain c) :
    flattenChars nodeLabels ((text s).encodeAt .compact 0) = s.toList := by
  have hword := isWord_of_isPlain h
  have mark : substitute blankRule s.toList = s.toList := by
    have hcopy : substitute blankRule (s.toList ++ []) = s.toList ++ substitute blankRule [] :=
      substitute_blankRule_append hword
    rwa [List.append_nil, substitute_nil, List.append_nil] at hcopy
  have tag : tagLabels s.toList = s.toList := by
    have hcopy : tagLabels (s.toList ++ []) = s.toList ++ tagLabels [] :=
      tagLabels_append (ne_openBracket_of_isWord hword)
    rw [List.append_nil] at hcopy
    exact hcopy.trans (List.append_nil _)
  rw [flattenChars, encodeAt, dropQuotes_quoteText h, mark, tag]
  exact ite_self _

end ListForm

end LojbanTree
