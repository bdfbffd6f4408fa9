import LojbanTree.Proofs.Tree.Words
import LojbanTree.Rendering

/-!
Blanks that do not show.

Where blanks are not kept, pruning drops each branch labeled `spaces` with all that is below it, as
if it had been taken out of the tree beforehand (`prune_withoutBlanks`). A word is put together
before pruning, from all leaves below its branch, so blanks in a word lend it their text. All other
blanks are *loose*. Main statement: loose blanks do not show (`process_withoutLooseBlanks`).
-/

namespace LojbanTree

/-- Do the options put what lies below a branch with this label together to the text of a word? -/
def Options.joins (options : Options) (label : Text) : Bool :=
  !options.morphology && isMorphologyLabel label

namespace Tree

/-! ### Taking blanks out -/

/-- Is the tree a branch that stands for blanks? -/
def isBlanks : Tree → Bool
  | .labeled label _ => label = spacesLabel
  | _ => false

mutual

/-- The tree without the blanks below it. -/
def withoutBlanks : Tree → Tree
  | .leaf text => .leaf text
  | .labeled label children => .labeled label (withoutBlanksAll children)
  | .group children => .group (withoutBlanksAll children)

/-- Siblings without the blanks among and below them. -/
def withoutBlanksAll : List Tree → List Tree
  | [] => []
  | tree :: siblings =>
    if tree.isBlanks then withoutBlanksAll siblings
    else withoutBlanks tree :: withoutBlanksAll siblings

end

theorem withoutBlanksAll_eq_map (siblings : List Tree) :
    withoutBlanksAll siblings = (siblings.filter (!·.isBlanks)).map withoutBlanks := by
  induction siblings with
  | nil => rfl
  | cons tree siblings ih => cases h : tree.isBlanks <;> simp [withoutBlanksAll, h, ih]

@[simp] theorem withoutBlanks_leaf (text : Text) : (leaf text).withoutBlanks = .leaf text := by
  rw [withoutBlanks]

@[simp] theorem withoutBlanks_labeled (label : Text) (children : List Tree) :
    (labeled label children).withoutBlanks =
      .labeled label ((children.filter (!·.isBlanks)).map withoutBlanks) := by
  rw [withoutBlanks, withoutBlanksAll_eq_map]

@[simp] theorem withoutBlanks_group (children : List Tree) :
    (group children).withoutBlanks =
      .group ((children.filter (!·.isBlanks)).map withoutBlanks) := by
  rw [withoutBlanks, withoutBlanksAll_eq_map]

/-- A word without the blanks below it, unless it takes text from them. -/
def withoutIdleBlanks (tree : Tree) : Tree :=
  if tree.withoutBlanks.plainText = tree.plainText then tree.withoutBlanks else tree

mutual

/-- The tree without the blanks below it, but for those that lend text to a word. -/
def withoutLooseBlanks (options : Options) : Tree → Tree
  | .leaf text => .leaf text
  | .labeled label children =>
    if options.joins label then withoutIdleBlanks (.labeled label children)
    else .labeled label (withoutLooseBlanksAll options children)
  | .group children => .group (withoutLooseBlanksAll options children)

/-- Siblings without the loose blanks among and below them. -/
def withoutLooseBlanksAll (options : Options) : List Tree → List Tree
  | [] => []
  | tree :: siblings =>
    if tree.isBlanks then withoutLooseBlanksAll options siblings
    else withoutLooseBlanks options tree :: withoutLooseBlanksAll options siblings

end

section

variable {options : Options}

theorem withoutLooseBlanksAll_eq_map (siblings : List Tree) :
    withoutLooseBlanksAll options siblings =
      (siblings.filter (!·.isBlanks)).map (withoutLooseBlanks options) := by
  induction siblings with
  | nil => rfl
  | cons tree siblings ih => cases h : tree.isBlanks <;> simp [withoutLooseBlanksAll, h, ih]

@[simp] theorem withoutLooseBlanks_leaf (text : Text) :
    withoutLooseBlanks options (.leaf text) = .leaf text := by
  rw [withoutLooseBlanks]

theorem withoutLooseBlanks_word {label : Text} (h : options.joins label = true)
    (children : List Tree) :
    withoutLooseBlanks options (.labeled label children) =
      withoutIdleBlanks (.labeled label children) := by
  rw [withoutLooseBlanks, if_pos h]

theorem withoutLooseBlanks_labeled {label : Text} (h : options.joins label = false)
    (children : List Tree) :
    withoutLooseBlanks options (.labeled label children) =
      .labeled label ((children.filter (!·.isBlanks)).map (withoutLooseBlanks options)) := by
  rw [withoutLooseBlanks, if_neg (by simp [h]), withoutLooseBlanksAll_eq_map]

@[simp] theorem withoutLooseBlanks_group (children : List Tree) :
    withoutLooseBlanks options (.group children) =
      .group ((children.filter (!·.isBlanks)).map (withoutLooseBlanks options)) := by
  rw [withoutLooseBlanks, withoutLooseBlanksAll_eq_map]

end

theorem isBlanks_withoutBlanks {tree : Tree} : tree.withoutBlanks.isBlanks = tree.isBlanks := by
  cases tree <;> simp [isBlanks]

theorem isBlanks_withoutLooseBlanks {options : Options} {tree : Tree} :
    (tree.withoutLooseBlanks options).isBlanks = tree.isBlanks := by
  cases tree with
  | leaf text => rw [withoutLooseBlanks_leaf]
  | group children =>
    rw [withoutLooseBlanks_group]
    rfl
  | labeled label children =>
    cases hjoins : options.joins label with
    | true =>
      rw [withoutLooseBlanks_word hjoins, withoutIdleBlanks]
      split
      · exact isBlanks_withoutBlanks
      · rfl
    | false =>
      rw [withoutLooseBlanks_labeled hjoins]
      rfl

/-! ### Words that take no text from blanks -/

/-- The outermost branches that hold the letters of a word, from left to right. -/
def words (tree : Tree) : List Tree :=
  tree.morphologyNodes.filter (!·.isBlanks)

theorem words_group (children : List Tree) : (group children).words = children.flatMap words := by
  rw [words, morphologyNodes_group, List.filter_flatMap]
  rfl

theorem words_labeled {label : Text} (h : isMorphologyLabel label = false)
    (children : List Tree) : (labeled label children).words = children.flatMap words := by
  rw [words, morphologyNodes_labeled h, List.filter_flatMap]
  rfl

theorem words_word {label : Text} (h : isMorphologyLabel label = true) {children : List Tree}
    (hblanks : (labeled label children).isBlanks = false) :
    (labeled label children).words = [.labeled label children] := by
  rw [words, morphologyNodes_word h, List.filter_cons_of_pos (by simp [hblanks]), List.filter_nil]

section

variable {options : Options}

theorem joins_eq_false_iff {label : Text} :
    options.joins label = false ↔ options.morphology = true ∨ isMorphologyLabel label = false := by
  cases h : options.morphology <;> simp [Options.joins, h]

theorem joins_eq_true_iff {label : Text} :
    options.joins label = true ↔ options.morphology = false ∧ isMorphologyLabel label = true := by
  cases h : options.morphology <;> simp [Options.joins, h]

/-- Of siblings that are no blanks two functions make the same if they do so of each. -/
theorem map_filter_blanks_congr {f g : Tree → Tree} {siblings : List Tree}
    (h : ∀ tree ∈ siblings, tree.isBlanks = false → f tree = g tree) :
    (siblings.filter (!·.isBlanks)).map f = (siblings.filter (!·.isBlanks)).map g := by
  refine List.map_congr_left fun tree ht => ?_
  obtain ⟨hmem, hkept⟩ := List.mem_filter.mp ht
  exact h tree hmem (by simpa using hkept)

/-- Where no word takes text from blanks, all blanks below a tree are loose. -/
theorem withoutLooseBlanks_eq_withoutBlanks {tree : Tree} (hroot : tree.isBlanks = false)
    (h : options.morphology = true ∨
      ∀ word ∈ tree.words, word.withoutBlanks.plainText = word.plainText) :
    tree.withoutLooseBlanks options = tree.withoutBlanks := by
  have pass : ∀ children : List Tree,
      (options.morphology = true ∨
        ∀ word ∈ children.flatMap words, word.withoutBlanks.plainText = word.plainText) →
      ∀ child ∈ children, options.morphology = true ∨
        ∀ word ∈ child.words, word.withoutBlanks.plainText = word.plainText := by
    intro children hall child hc
    refine hall.imp_right fun hwords word hw => ?_
    exact hwords word (List.mem_flatMap.mpr ⟨child, hc, hw⟩)
  induction tree with
  | leaf text => rw [withoutLooseBlanks_leaf, withoutBlanks_leaf]
  | group children ih =>
    rw [words_group] at h
    rw [withoutLooseBlanks_group, withoutBlanks_group,
      map_filter_blanks_congr fun child hc hkept => ih child hc hkept (pass children h child hc)]
  | labeled label children ih =>
    cases hjoins : options.joins label with
    | true =>
      obtain ⟨hstrip, hm⟩ := joins_eq_true_iff.mp hjoins
      have hwords := h.resolve_left (by simp [hstrip])
      rw [words_word hm hroot] at hwords
      rw [withoutLooseBlanks_word hjoins, withoutIdleBlanks,
        if_pos (hwords _ List.mem_cons_self)]
    | false =>
      have hchildren : options.morphology = true ∨
          ∀ word ∈ children.flatMap words, word.withoutBlanks.plainText = word.plainText := by
        rcases joins_eq_false_iff.mp hjoins with hkept | hm
        · exact Or.inl hkept
        · rw [words_labeled hm] at h
          exact h
      rw [withoutLooseBlanks_labeled hjoins, withoutBlanks_labeled,
        map_filter_blanks_congr fun child hc hkept =>
          ih child hc hkept (pass children hchildren child hc)]

/-! ### Blanks that pruning drops -/

section

variable {keep : Text → Bool → Bool} {spaces : Bool}

/-- Siblings of which blanks leave nothing have the same survivors without the blanks among them,
if each of the others has. -/
theorem pruneAll_map_filter_blanks {kept : Bool} {before after : Tree → Tree}
    {siblings : List Tree}
    (hblanks : ∀ tree ∈ siblings, tree.isBlanks = true → prune keep spaces (before tree) = none)
    (hothers : ∀ tree ∈ siblings, tree.isBlanks = false →
      prune keep kept (after tree) = prune keep spaces (before tree)) :
    pruneAll keep kept ((siblings.filter (!·.isBlanks)).map after) =
      pruneAll keep spaces (siblings.map before) := by
  induction siblings with
  | nil => rfl
  | cons tree siblings ih =>
    obtain ⟨htree, hsiblings⟩ := List.forall_mem_cons.mp hblanks
    obtain ⟨hother, hrest⟩ := List.forall_mem_cons.mp hothers
    rw [List.map_cons, pruneAll_cons, ← ih hsiblings hrest]
    cases hroot : tree.isBlanks with
    | true =>
      rw [List.filter_cons_of_neg (by simp [hroot]), htree hroot, Option.toList_none,
        List.nil_append]
    | false =>
      rw [List.filter_cons_of_pos (by simp [hroot]), List.map_cons, pruneAll_cons, hother hroot]

theorem prune_of_isBlanks {tree : Tree} (h : tree.isBlanks = true) :
    prune keep false tree = none := by
  cases tree with
  | leaf text => cases h
  | group children => cases h
  | labeled label children =>
    obtain rfl : label = spacesLabel := of_decide_eq_true h
    exact prune_spaces_false keep children

/-- Dropping blanks among siblings is taking them out first, if that is so below each of the
others. -/
theorem pruneAll_withoutBlanks {children : List Tree}
    (h : ∀ child ∈ children, child.isBlanks = false →
      prune keep false child = prune keep spaces child.withoutBlanks) :
    pruneAll keep false children =
      pruneAll keep spaces ((children.filter (!·.isBlanks)).map withoutBlanks) := by
  have same : pruneAll keep spaces ((children.filter (!·.isBlanks)).map withoutBlanks) =
      pruneAll keep false (children.map id) := by
    apply pruneAll_map_filter_blanks
    · intro child _ hblanks
      exact prune_of_isBlanks hblanks
    · intro child hchild hblanks
      exact (h child hchild hblanks).symm
  rw [same, List.map_id]

/-- **Blanks that are dropped might as well be taken out of the tree first**, whether those that
are there would then be kept or not. -/
theorem prune_withoutBlanks (keep : Text → Bool → Bool) (spaces : Bool) {tree : Tree}
    (hroot : tree.isBlanks = false) :
    prune keep false tree = prune keep spaces tree.withoutBlanks := by
  induction tree with
  | leaf text => rw [withoutBlanks_leaf, prune_leaf, prune_leaf]
  | group children ih =>
    rw [withoutBlanks_group, prune_group, prune_group, pruneAll_withoutBlanks ih]
  | labeled label children ih =>
    have hlabel : label ≠ spacesLabel := of_decide_eq_false hroot
    rw [withoutBlanks_labeled, prune_labeled _ _ hlabel, prune_labeled _ _ hlabel,
      pruneAll_withoutBlanks ih]

/-- Blanks in a sumti, in a terminator and in a group, under a filter that wants their label and
with blanks to be kept: where there are none to keep, the terminator is bare and the group goes. -/
theorem prune_withoutBlanks_terminator :
    (labeled "sumti" [.leaf "mi", .labeled "spaces" [.leaf " "],
        .labeled "KU" [.labeled "spaces" []], .group [.labeled "spaces" [.leaf "x"]]]).isBlanks =
      false ∧
    prune (fun label _ => label != "sumti") false
        (.labeled "sumti" [.leaf "mi", .labeled "spaces" [.leaf " "],
          .labeled "KU" [.labeled "spaces" []], .group [.labeled "spaces" [.leaf "x"]]]) =
      prune (fun label _ => label != "sumti") true
        (labeled "sumti" [.leaf "mi", .labeled "spaces" [.leaf " "],
          .labeled "KU" [.labeled "spaces" []],
          .group [.labeled "spaces" [.leaf "x"]]]).withoutBlanks ∧
    (labeled "sumti" [.leaf "mi", .labeled "spaces" [.leaf " "],
        .labeled "KU" [.labeled "spaces" []],
        .group [.labeled "spaces" [.leaf "x"]]]).withoutBlanks =
      .labeled "sumti" [.leaf "mi", .labeled "KU" [], .group []] :=
  ⟨rfl, prune_withoutBlanks _ true rfl, by decide⟩

end

/-! ### Blanks and the passes -/

/-- Blanks are gone once the tree has been pruned. -/
theorem surviving?_of_isBlanks (hspaces : options.spaces = false) {tree : Tree}
    (h : tree.isBlanks = true) : surviving? options (strip options tree) = none := by
  cases tree with
  | leaf text => cases h
  | group children => cases h
  | labeled label children =>
    obtain rfl : label = spacesLabel := of_decide_eq_true h
    rw [surviving?, hspaces]
    cases hjoins : options.joins spacesLabel with
    | true =>
      obtain ⟨hstrip, hm⟩ := joins_eq_true_iff.mp hjoins
      rw [strip_word hstrip hm, word, prune_spaces_false]
    | false => rw [strip_labeled (joins_eq_false_iff.mp hjoins), prune_spaces_false]

/-- Siblings have the same survivors with the blanks among them and without. -/
theorem pruneAll_filter_blanks (hspaces : options.spaces = false) {siblings : List Tree}
    (h : ∀ tree ∈ siblings, surviving? options (strip options (tree.withoutLooseBlanks options)) =
      surviving? options (strip options tree)) :
    pruneAll options.keeps options.spaces
        (((siblings.filter (!·.isBlanks)).map (withoutLooseBlanks options)).map (strip options)) =
      pruneAll options.keeps options.spaces (siblings.map (strip options)) := by
  rw [List.map_map]
  apply pruneAll_map_filter_blanks
  · intro tree _ hblanks
    exact surviving?_of_isBlanks hspaces hblanks
  · intro tree htree _
    exact h tree htree

/-- The text of a word stays the same without its idle blanks. -/
theorem strip_withoutIdleBlanks {label : Text} (h : options.joins label = true)
    (children : List Tree) :
    strip options (withoutIdleBlanks (.labeled label children)) =
      strip options (.labeled label children) := by
  obtain ⟨hstrip, hm⟩ := joins_eq_true_iff.mp h
  unfold withoutIdleBlanks
  split
  · rename_i hsame
    rw [withoutBlanks_labeled] at hsame ⊢
    rw [plainText, plainText, leafTexts_labeled, leafTexts_labeled] at hsame
    rw [strip_word hstrip hm, strip_word hstrip hm, hsame]
  · rfl

/-- Pruning leaves the same of a tree without its loose blanks. -/
theorem surviving?_withoutLooseBlanks (hspaces : options.spaces = false) (tree : Tree) :
    surviving? options (strip options (tree.withoutLooseBlanks options)) =
      surviving? options (strip options tree) := by
  induction tree with
  | leaf text => rw [withoutLooseBlanks_leaf]
  | group children ih =>
    rw [withoutLooseBlanks_group, strip_group, strip_group, surviving?, surviving?, prune_group,
      prune_group, pruneAll_filter_blanks hspaces ih]
  | labeled label children ih =>
    by_cases hblanks : label = spacesLabel
    · have hroot : (labeled label children).isBlanks = true := decide_eq_true hblanks
      rw [surviving?_of_isBlanks hspaces hroot,
        surviving?_of_isBlanks hspaces (isBlanks_withoutLooseBlanks.trans hroot)]
    cases hjoins : options.joins label with
    | true => rw [withoutLooseBlanks_word hjoins, strip_withoutIdleBlanks hjoins]
    | false =>
      have hstrip := joins_eq_false_iff.mp hjoins
      rw [withoutLooseBlanks_labeled hjoins, strip_labeled hstrip, strip_labeled hstrip,
        surviving?, surviving?, prune_labeled _ _ hblanks, prune_labeled _ _ hblanks,
        pruneAll_filter_blanks hspaces ih]

/-! ### What is shown -/

/-- Trees with the same processed tree, and the same text wherever that is what is shown. -/
structure ShownAlike (options : Options) (tree other : Tree) : Prop where
  process : process options tree = process options other
  render : options.style = .prettified → render options tree = render options other

theorem ShownAlike.of_surviving {tree other : Tree}
    (h : surviving? options (strip options tree) = surviving? options (strip options other)) :
    ShownAlike options tree other := by
  have same : Tree.process options tree = Tree.process options other := by
    rw [Tree.process, Tree.process, processStripped, processStripped, h]
  refine ⟨same, fun hstyle => ?_⟩
  rw [Tree.render, Tree.render, renderChars, renderChars, hstyle, flatChars, flatChars, same]

/-- **Loose blanks do not show.** Where blanks are not kept, a tree is shown like the tree without
them, and like the tree without any blanks below it if no word takes text from blanks. Where the
letters of words are kept no word does. -/
theorem process_withoutLooseBlanks (hspaces : options.spaces = false) (tree : Tree) :
    ShownAlike options (tree.withoutLooseBlanks options) tree ∧
      ((options.morphology = true ∨
          ∀ word ∈ tree.words, word.withoutBlanks.plainText = word.plainText) →
        ShownAlike options tree.withoutBlanks tree) := by
  have loose : ShownAlike options (tree.withoutLooseBlanks options) tree :=
    .of_surviving (surviving?_withoutLooseBlanks hspaces tree)
  refine ⟨loose, fun hwords => ?_⟩
  cases hroot : tree.isBlanks with
  | true =>
    apply ShownAlike.of_surviving
    rw [surviving?_of_isBlanks hspaces hroot,
      surviving?_of_isBlanks hspaces (isBlanks_withoutBlanks.trans hroot)]
  | false =>
    rw [withoutLooseBlanks_eq_withoutBlanks hroot hwords] at loose
    exact loose

/-- A clause opener keeps the blank that is part of it, where the blank after it and the one
without text in a terminator go; without the clause opener, all blanks go. -/
theorem process_withoutLooseBlanks_clause :
    Options.spaces { terminators := true } = false ∧
    (group [.labeled "ga_clause" [.leaf "ga", .labeled "spaces" [.leaf " "]],
        .labeled "spaces" [.leaf "\n"], .labeled "KU" [.labeled "spaces" []]]).withoutLooseBlanks
          { terminators := true } =
      .group [.labeled "ga_clause" [.leaf "ga", .labeled "spaces" [.leaf " "]],
        .labeled "KU" []] ∧
    ShownAlike { terminators := true }
      ((group [.labeled "ga_clause" [.leaf "ga", .labeled "spaces" [.leaf " "]],
        .labeled "spaces" [.leaf "\n"], .labeled "KU" [.labeled "spaces" []]]).withoutLooseBlanks
          { terminators := true })
      (.group [.labeled "ga_clause" [.leaf "ga", .labeled "spaces" [.leaf " "]],
        .labeled "spaces" [.leaf "\n"], .labeled "KU" [.labeled "spaces" []]]) ∧
    ShownAlike { terminators := true }
      (group [.labeled "spaces" [.leaf "\n"], .labeled "KU" [.labeled "spaces" []]]).withoutBlanks
      (.group [.labeled "spaces" [.leaf "\n"], .labeled "KU" [.labeled "spaces" []]]) :=
  ⟨rfl, by decide, (process_withoutLooseBlanks rfl _).1,
    (process_withoutLooseBlanks rfl _).2 (Or.inr (by decide))⟩

/-- **Blanks in a word do show**: a clause opener takes the blank below it for its last letter. -/
theorem process_blanks_in_word :
    Options.spaces {} = false ∧
    (labeled "ga_clause" [.labeled "GA" [.leaf "g", .leaf "a"],
      .labeled "spaces" [.leaf " "]]).isBlanks = false ∧
    process {} (labeled "ga_clause" [.labeled "GA" [.leaf "g", .leaf "a"],
      .labeled "spaces" [.leaf " "]]).withoutBlanks ≠
    process {} (labeled "ga_clause" [.labeled "GA" [.leaf "g", .leaf "a"],
      .labeled "spaces" [.leaf " "]]) := by
  decide

end

end Tree

end LojbanTree
