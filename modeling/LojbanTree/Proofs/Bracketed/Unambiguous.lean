import LojbanTree.Proofs.Bracketed.BranchBrackets
import LojbanTree.Proofs.Bracketed.Unshaping

/-!
Trees told apart by their shaped text.

Where the names in two trees are words that no glyph, numeral or sign for blanks can be taken for,
the trees have one text between glyphs only if they have one list form. The glyphs are read back as
brackets first, then the brackets, blanks and words as items. Main statements: `bracketed_inj` for
list forms and `Tree.shape_flatten_encode_iff` for trees.
-/

namespace LojbanTree

open Bracketed Text

namespace ListForm

/-- All texts of the list form are words, and none is empty. -/
def Legible (form : ListForm) : Prop :=
  ∀ s ∈ form.texts, s.toList ≠ [] ∧ IsWord s.toList

theorem legible_text {s : Text} : (text s).Legible ↔ s.toList ≠ [] ∧ IsWord s.toList := by
  simp [Legible]

theorem legible_list {items : List ListForm} :
    (list items).Legible ↔ ∀ item ∈ items, item.Legible :=
  forall_mem_texts_list

/-! ### Items between brackets -/

theorem bracketed_list (items : List ListForm) :
    ∃ inner, (list items).bracketed = .char '[' :: inner := by
  cases items with
  | nil => exact ⟨_, rfl⟩
  | cons first items => exact ⟨_, by rw [bracketed]⟩

theorem bracketed_append_ne {form : ListForm} (h : form.Legible) (rest more : List CodePoint) :
    form.bracketed ++ rest ≠ .char ']' :: more := by
  cases form with
  | text s =>
    obtain ⟨hne, hword⟩ := legible_text.mp h
    rw [bracketed]
    exact word_append_ne hword hne rfl
  | list items =>
    obtain ⟨inner, hinner⟩ := bracketed_list items
    rw [hinner]
    intro h
    cases h

/-- Before a delimiter the list form is told by what it is written as. -/
def Told (form : ListForm) : Prop :=
  ∀ other rest more, other.Legible → Bounded rest → Bounded more →
    form.bracketed ++ rest = other.bracketed ++ more → form = other ∧ rest = more

section

variable {items others : List ListForm} {rest more : List CodePoint}

/-- The items after the first, one by one up to the closing bracket. -/
theorem bracketedRest_append_inj (each : ∀ item ∈ items, item.Told)
    (hothers : ∀ other ∈ others, other.Legible)
    (h : bracketedRest items ++ rest = bracketedRest others ++ more) :
    items = others ∧ rest = more := by
  induction items generalizing others with
  | nil =>
    cases others with
    | nil => exact ⟨rfl, (List.cons.inj h).2⟩
    | cons other others => cases h
  | cons item items ih =>
    cases others with
    | nil => cases h
    | cons other others =>
      obtain ⟨hitem, heach⟩ := List.forall_mem_cons.mp each
      obtain ⟨hother, hlegible⟩ := List.forall_mem_cons.mp hothers
      rw [bracketedRest_cons_append, bracketedRest_cons_append] at h
      obtain ⟨rfl, htail⟩ := hitem other _ _ hother (bounded_bracketedRest _ _)
        (bounded_bracketedRest _ _) (List.cons.inj h).2
      obtain ⟨rfl, hrest⟩ := ih heach hlegible htail
      exact ⟨rfl, hrest⟩

/-- A list without items ends at once, and no first item can be taken for its closing bracket. -/
theorem bracketed_list_append_inj (each : ∀ item ∈ items, item.Told)
    (hitems : ∀ item ∈ items, item.Legible) (hothers : ∀ other ∈ others, other.Legible)
    (h : (list items).bracketed ++ rest = (list others).bracketed ++ more) :
    items = others ∧ rest = more := by
  cases items with
  | nil =>
    cases others with
    | nil => exact ⟨rfl, (List.cons.inj (List.cons.inj h).2).2⟩
    | cons other others =>
      rw [bracketed_cons_append] at h
      exact absurd (List.cons.inj h).2.symm
        (bracketed_append_ne (hothers other List.mem_cons_self) _ _)
  | cons item items =>
    rw [bracketed_cons_append] at h
    cases others with
    | nil =>
      exact absurd (List.cons.inj h).2 (bracketed_append_ne (hitems item List.mem_cons_self) _ _)
    | cons other others =>
      obtain ⟨hitem, heach⟩ := List.forall_mem_cons.mp each
      obtain ⟨hother, hlegible⟩ := List.forall_mem_cons.mp hothers
      rw [bracketed_cons_append] at h
      obtain ⟨rfl, htail⟩ := hitem other _ _ hother (bounded_bracketedRest _ _)
        (bounded_bracketedRest _ _) (List.cons.inj h).2
      obtain ⟨rfl, hrest⟩ := bracketedRest_append_inj heach hlegible htail
      exact ⟨rfl, hrest⟩

end

/-- By induction on the list form: a text is the word up to the next delimiter, and a list begins
with a bracket, as no word does. -/
theorem told {form : ListForm} (h : form.Legible) : form.Told := by
  induction form with
  | text s =>
    intro other rest more hother hrest hmore heq
    obtain ⟨hne, hword⟩ := legible_text.mp h
    cases other with
    | text t =>
      obtain ⟨_, hotherWord⟩ := legible_text.mp hother
      rw [bracketed, bracketed] at heq
      obtain ⟨hsame, hafter⟩ := word_append_inj hword hotherWord hrest hmore heq
      exact ⟨congrArg text (Text.toList_inj.mp hsame), hafter⟩
    | list others =>
      obtain ⟨inner, hinner⟩ := bracketed_list others
      rw [bracketed, hinner] at heq
      exact absurd heq (word_append_ne hword hne rfl)
  | list items ih =>
    intro other rest more hother _ _ heq
    have hitems := legible_list.mp h
    cases other with
    | text t =>
      obtain ⟨hne, hword⟩ := legible_text.mp hother
      obtain ⟨inner, hinner⟩ := bracketed_list items
      rw [bracketed, hinner] at heq
      exact absurd heq.symm (word_append_ne hword hne rfl)
    | list others =>
      obtain ⟨rfl, hafter⟩ := bracketed_list_append_inj (fun item hi => ih item hi (hitems item hi))
        hitems (legible_list.mp hother) heq
      exact ⟨rfl, hafter⟩

/-- **What is written between brackets tells the list form.** -/
theorem bracketed_inj {form other : ListForm} (hform : form.Legible) (hother : other.Legible) :
    form.bracketed = other.bracketed ↔ form = other := by
  constructor
  · intro h
    exact (told hform other [] [] hother bounded_nil bounded_nil (by rw [h])).1
  · intro h
    rw [h]

theorem forall_mem_bracketedRest {P : CodePoint → Prop} (hclose : P ']') (hblank : P ' ')
    {items : List ListForm} (each : ∀ item ∈ items, ∀ c ∈ item.bracketed, P c) :
    ∀ c ∈ bracketedRest items, P c := by
  induction items with
  | nil => exact List.forall_mem_singleton.mpr hclose
  | cons item items ih =>
    obtain ⟨hitem, hitems⟩ := List.forall_mem_cons.mp each
    rw [bracketedRest]
    exact List.forall_mem_cons.mpr ⟨hblank, List.forall_mem_append.mpr ⟨hitem, ih hitems⟩⟩

/-- Besides the characters of its texts there are brackets and blanks. -/
theorem forall_mem_bracketed {P : CodePoint → Prop} (hopen : P '[') (hclose : P ']')
    (hblank : P ' ') {form : ListForm} (h : ∀ s ∈ form.texts, ∀ c ∈ s.toList, P c) :
    ∀ c ∈ form.bracketed, P c := by
  induction form with
  | text s =>
    rw [bracketed]
    exact h s (by simp)
  | list items ih =>
    have each : ∀ item ∈ items, ∀ c ∈ item.bracketed, P c :=
      fun item hi => ih item hi (forall_mem_texts_list.mp h item hi)
    cases items with
    | nil => exact List.forall_mem_cons.mpr ⟨hopen, List.forall_mem_singleton.mpr hclose⟩
    | cons item items =>
      obtain ⟨hitem, hitems⟩ := List.forall_mem_cons.mp each
      have hrest := forall_mem_bracketedRest hclose hblank hitems
      rw [bracketed]
      exact List.forall_mem_cons.mpr ⟨hopen, List.forall_mem_append.mpr ⟨hitem, hrest⟩⟩

/-- Without words for blanks nothing is marked. -/
theorem marked_eq_self {form : ListForm}
    (h : ∀ s ∈ form.texts, s ≠ "spaces" ∧ s ≠ "initial_spaces") : form.marked = form := by
  induction form with
  | text s =>
    obtain ⟨hspaces, hinitial⟩ := h s (by simp)
    rw [marked_text, markText, if_neg (not_or.mpr ⟨hspaces, hinitial⟩)]
  | list items ih =>
    have each : ∀ item ∈ items, item.marked = item :=
      fun item hi => ih item hi (forall_mem_texts_list.mp h item hi)
    rw [marked_list, List.map_congr_left each, List.map_id']

end ListForm

/-! ### Trees -/

/-- A label or text that nothing else in shaped text can be taken for: a word that does not stand
for blanks, without characters that mean something in JSON, glyphs and raised digits. -/
structure Distinctive (name : Text) : Prop where
  nonempty : name ≠ ""
  shown : name ≠ "spaces" ∧ name ≠ "initial_spaces"
  plain : ∀ c ∈ name.toList, IsPlain c
  unshaped : ∀ c ∈ name.toList, c ∉ openGlyphs ++ closeGlyphs ++ raisedDigits

instance (name : Text) : Decidable (Distinctive name) :=
  haveI := List.decidableBAll IsPlain name.toList
  haveI := List.decidableBAll (· ∉ openGlyphs ++ closeGlyphs ++ raisedDigits) name.toList
  decidable_of_iff
    (name ≠ "" ∧ (name ≠ "spaces" ∧ name ≠ "initial_spaces") ∧
      (∀ c ∈ name.toList, IsPlain c) ∧
      ∀ c ∈ name.toList, c ∉ openGlyphs ++ closeGlyphs ++ raisedDigits)
    ⟨fun ⟨nonempty, shown, plain, unshaped⟩ => ⟨nonempty, shown, plain, unshaped⟩,
      fun ⟨nonempty, shown, plain, unshaped⟩ => ⟨nonempty, shown, plain, unshaped⟩⟩

namespace Tree

/-- All labels and texts of the tree are distinctive. -/
def DistinctlyNamed (tree : Tree) : Prop :=
  tree.Every fun node => ∀ name ∈ node.name?, Distinctive name

instance (tree : Tree) : Decidable tree.DistinctlyNamed :=
  inferInstanceAs (Decidable (tree.Every fun node => ∀ name ∈ node.name?, Distinctive name))

section

variable {tree : Tree} (h : tree.DistinctlyNamed)

include h

theorem DistinctlyNamed.texts : ∀ s ∈ tree.toListForm.texts, Distinctive s :=
  ListForm.forall_mem_texts_toListForm.mpr h

theorem DistinctlyNamed.legible : tree.toListForm.Legible := by
  intro s hs
  obtain ⟨nonempty, _, plain, _⟩ := h.texts s hs
  exact ⟨mt Text.toList_eq_nil_iff.mp nonempty, isWord_of_isPlain plain⟩

/-- The flat text of the tree is its list form between brackets. -/
theorem DistinctlyNamed.flattenChars_eq :
    flattenChars false (tree.encodeChars .compact) = tree.toListForm.bracketed := by
  have plain : ∀ s ∈ tree.toListForm.texts, ∀ c ∈ s.toList, IsPlain c :=
    fun s hs => (h.texts s hs).plain
  have marked : tree.toListForm.marked = tree.toListForm :=
    ListForm.marked_eq_self fun s hs => (h.texts s hs).shown
  rw [encodeChars]
  cases hform : tree.toListForm with
  | text s =>
    rw [hform] at plain
    rw [ListForm.flattenChars_encodeAt_text false (plain s (by simp)), ListForm.bracketed]
  | list items =>
    rw [hform] at plain marked
    rw [ListForm.flattenChars_encodeAt false plain, marked, ListForm.tagged_false]

theorem DistinctlyNamed.nested : Nested 0 tree.toListForm.bracketed := by
  have spelled : tree.Spelled fun c => isBracket c = false :=
    h.mono fun _ hnode name hname c hc =>
      isBracket_eq_false_of_isPlain ((hnode name hname).plain c hc)
  rw [← h.flattenChars_eq]
  exact (balanced_flatten false spelled).nested

theorem DistinctlyNamed.isUnshaped : ∀ c ∈ tree.toListForm.bracketed, IsUnshaped c := by
  have letters : ∀ s ∈ tree.toListForm.texts, ∀ c ∈ s.toList, IsUnshaped c :=
    fun s hs c hc => .inr ((h.texts s hs).unshaped c hc)
  exact ListForm.forall_mem_bracketed (.inl rfl) (.inl rfl) (.inr (by decide)) letters

end

/-- **Shaped text is unambiguous.** Two trees whose names are distinctive have the same text between
glyphs exactly if they have the same list form. -/
theorem shape_flatten_encode_iff {tree other : Tree} (htree : tree.DistinctlyNamed)
    (hother : other.DistinctlyNamed) :
    shape (flatten false (tree.encode .compact)) = shape (flatten false (other.encode .compact)) ↔
      tree.toListForm = other.toListForm := by
  simp only [shape, flatten, encode, Text.toList_ofList, Text.ofList.injEq,
    htree.flattenChars_eq, hother.flattenChars_eq]
  rw [shapeFrom_inj htree.nested hother.nested htree.isUnshaped hother.isUnshaped]
  exact ListForm.bracketed_inj htree.legible hother.legible

/-- A labeled branch and a group that begins with a leaf, with brackets of the second round. -/
theorem shape_flatten_encode_iff_deep :
    (labeled "a" [.group [.group [.group [.labeled "b" [.leaf "c"]]]], .group []]).DistinctlyNamed ∧
    (group [.leaf "a", .group [.group [.group [.group [.leaf "b", .leaf "c"]]]],
      .group []]).DistinctlyNamed ∧
    shape (flatten false
      ((labeled "a" [.group [.group [.group [.labeled "b" [.leaf "c"]]]], .group []]).encode
        .compact)) = "(a [\x7b<(¹b c¹)>\x7d] [])" ∧
    shape (flatten false
      ((group [.leaf "a", .group [.group [.group [.group [.leaf "b", .leaf "c"]]]],
        .group []]).encode .compact)) = "(a [\x7b<(¹b c¹)>\x7d] [])" ∧
    (labeled "a" [.group [.group [.group [.labeled "b" [.leaf "c"]]]], .group []]).toListForm =
      (group [.leaf "a", .group [.group [.group [.group [.leaf "b", .leaf "c"]]]],
        .group []]).toListForm := by
  refine ⟨by decide, by decide, rfl, rfl, ?_⟩
  exact (shape_flatten_encode_iff (by decide) (by decide)).mp rfl

end Tree

end LojbanTree
