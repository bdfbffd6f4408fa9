import LojbanTree.Proofs.Tree.NormalForm
import LojbanTree.Proofs.Tree.ProcessedShape
import LojbanTree.Proofs.Tree.ProcessedWords

/-!
Elided terminators.

An elided terminator is a selma'o with nothing below it, shown by its bare label. When terminators
are dropped a branch may lose all that it had, and so on upwards, but unless the labels of bridi
are kept nothing comes in the place of what goes. Main statement: without terminators the words are
those with terminators, less some that are names of selma'o (`leafTexts_process_terminators`).
-/

namespace LojbanTree

/-! ### Lists with entries left out -/

/-- The second list is the first with some entries left out, all of which have a property. -/
inductive Thinned {α : Type} (P : α → Prop) : List α → List α → Prop where
  | nil : Thinned P [] []
  | keep (entry : α) {full thin : List α} : Thinned P full thin →
      Thinned P (entry :: full) (entry :: thin)
  | drop {entry : α} {full thin : List α} : P entry → Thinned P full thin →
      Thinned P (entry :: full) thin

namespace Thinned

variable {α β : Type} {P : α → Prop}

theorem refl (full : List α) : Thinned P full full := by
  induction full with
  | nil => exact .nil
  | cons entry full ih => exact .keep entry ih

theorem append {full thin more fewer : List α} (h : Thinned P full thin)
    (h' : Thinned P more fewer) : Thinned P (full ++ more) (thin ++ fewer) := by
  induction h with
  | nil => exact h'
  | keep entry _ ih => exact .keep entry ih
  | drop hentry _ ih => exact .drop hentry ih

theorem flatMap {items : List β} {f g : β → List α}
    (h : ∀ item ∈ items, Thinned P (f item) (g item)) :
    Thinned P (items.flatMap f) (items.flatMap g) := by
  induction items with
  | nil => exact .nil
  | cons item items ih =>
    obtain ⟨hitem, hitems⟩ := List.forall_mem_cons.mp h
    rw [List.flatMap_cons, List.flatMap_cons]
    exact hitem.append (ih hitems)

end Thinned

/-- Nothing but names of selma'o has been left out. -/
abbrev LosesTerminators (full thin : List Text) : Prop :=
  Thinned (fun text => Selmaho.isName text = true) full thin

namespace Tree

variable {options : Options}

/-! ### Bare labels -/

/-- Terminators matter to bare selma'o only. -/
theorem keeps_terminators {label : Text} {childless : Bool}
    (h : childless = false ∨ Selmaho.isName label = false) :
    Options.keeps { options with terminators := true } label childless =
      Options.keeps { options with terminators := false } label childless := by
  rcases h with rfl | hname
  · cases hselmaho : options.selmaho <;>
      simp [Options.keeps, Options.alwaysKeeps, Options.tagsWords]
  · simp [Options.keeps, Options.alwaysKeeps, Options.tagsWords, hname]

/-- With neither bridi labels nor tagged words, the only bare labels to be kept are terminators. -/
theorem keeps_bare_untagged (hlabels : options.nodeLabels = false)
    (htags : options.tagsWords = false) (label : Text) :
    options.keeps label true = (Selmaho.isName label && options.terminators) := by
  rw [keeps_bare, Options.alwaysKeeps, hlabels, htags]
  rfl

/-! ### Words that are not tagged -/

section

variable {keep other : Text → Bool → Bool} {spaces : Bool} {P : Text → Prop}

/-- A branch that may be shown bare, and is not any more. -/
theorem thinned_orLabel {label : Text} {below fewer : List Text}
    (hbare : keep label true = true → P label) (hother : other label true = false)
    (h : Thinned P below fewer) :
    Thinned P (orLabel keep label below) (orLabel other label fewer) := by
  have same : orLabel other label fewer = fewer := by
    rw [orLabel, hother]
    split
    · rename_i hnil
      exact hnil.symm
    · rfl
  rw [same, orLabel]
  split
  · rename_i hnil
    -- Nothing was below it before, so nothing is now.
    subst hnil
    cases h
    split
    · rename_i hkept
      exact .drop (hbare hkept) .nil
    · exact .nil
  · exact h

/-- Where bare labels are not wanted any more, nothing but bare labels goes from the frontier. -/
theorem thinned_frontier (hbare : ∀ label, keep label true = true → P label)
    (hother : ∀ label, other label true = false) (tree : Tree) :
    Thinned P (frontier keep spaces tree) (frontier other spaces tree) := by
  induction tree using shownInduction with
  | leaf text =>
    rw [frontier_leaf, frontier_leaf]
    exact .refl _
  | group children ih =>
    rw [frontier_group, frontier_group]
    exact .flatMap ih
  | labeled label children ih =>
    rw [frontier_labeled_eq, frontier_labeled_eq]
    split
    · exact .nil
    · exact thinned_orLabel (hbare label) (hother label) (.flatMap ih)

end

/-! ### Tagged words -/

/-- The texts that tagging shows of what is left of a tree. -/
def taggedTexts (outcome : Option Tree) : List Text :=
  outcome.toList.flatMap fun pruned => (tagWords wordClassCode? pruned).leafTexts

/-- Without a label, a branch shows what its survivors show. -/
theorem taggedTexts_collapse (survivors : List Tree) :
    taggedTexts (collapse none survivors) =
      survivors.flatMap fun survivor => taggedTexts (some survivor) := by
  cases survivors with
  | nil => rfl
  | cons first rest =>
    cases rest with
    | nil => simp [collapse, taggedTexts]
    | cons second rest => simp [collapse, taggedTexts, List.flatMap_map]

theorem taggedTexts_group (children : List Tree) :
    taggedTexts (surviving? options (.group children)) =
      children.flatMap fun child => taggedTexts (surviving? options child) := by
  rw [surviving?, prune_group, taggedTexts_collapse, pruneAll_eq_flatMap, List.flatMap_assoc]
  refine List.flatMap_congr fun child _ => ?_
  cases h : surviving? options child <;> rw [surviving?] at h <;> simp [h, taggedTexts]

/-- Where words are tagged, the processed tree shows these texts. -/
theorem leafTexts_process_tagged (h : options.tagsWords = true) (tree : Tree) :
    (process options tree).leafTexts = taggedTexts (surviving? options (strip options tree)) := by
  unfold process processStripped
  cases surviving? options (strip options tree) with
  | none => simp [taggedTexts]
  | some pruned => simp [finish, h, taggedTexts]

/-- A selma'o without a word goes with the terminators, unless it is kept in any case. -/
theorem thinned_bare {label : Text} (hname : Selmaho.isName label = true) :
    LosesTerminators
      (taggedTexts (settle (Options.keeps { options with terminators := true }) label []))
      (taggedTexts (settle (Options.keeps { options with terminators := false }) label [])) := by
  have bare : ∀ kept : Bool, taggedTexts (collapse (if kept then some label else none) []) =
      if kept then [label] else [] := by
    intro kept
    cases kept <;> simp [collapse, taggedTexts]
  have kept : Options.keeps { options with terminators := true } label true = true := by
    rw [keeps_bare, hname]
    exact Bool.or_true _
  rw [settle, settle, List.isEmpty_nil, kept, bare, bare]
  cases Options.keeps { options with terminators := false } label true with
  | true => exact .refl _
  | false => exact .drop hname .nil

/-- A label that is settled over the same survivors, with terminators and without. -/
theorem thinned_settle (label : Text) (survivors : List Tree) :
    LosesTerminators
      (taggedTexts (settle (Options.keeps { options with terminators := true }) label survivors))
      (taggedTexts
        (settle (Options.keeps { options with terminators := false }) label survivors)) := by
  cases survivors with
  | cons survivor rest =>
    rw [settle, settle, List.isEmpty_cons, keeps_terminators (Or.inl rfl)]
    exact .refl _
  | nil =>
    cases hname : Selmaho.isName label with
    | true => exact thinned_bare hname
    | false =>
      rw [settle, settle, keeps_terminators (Or.inr hname)]
      exact .refl _

/-- Of a word, terminators change nothing but whether it is shown bare. -/
theorem thinned_word {label : Text} {children : List Tree}
    (hm : isMorphologyLabel label = true) (hword : (labeled label children).HoldsWord) :
    LosesTerminators
      (taggedTexts (surviving? { options with terminators := true } (.labeled label children)))
      (taggedTexts
        (surviving? { options with terminators := false } (.labeled label children))) := by
  have stays : ∀ keep : Text → Bool → Bool, ∀ spaces : Bool,
      pruneAll keep spaces (shownChildren label children) = shownChildren label children := by
    intro keep spaces
    refine pruneAll_eq_self fun child hc => ?_
    rcases mem_of_mem_shownChildren hc with rfl | hc
    · exact prune_leaf keep spaces _
    · rcases hword hm with rfl | ⟨text, _, rfl⟩
      · cases hc
      · obtain rfl := List.mem_singleton.mp hc
        exact prune_leaf keep spaces text
  rw [surviving?, surviving?, prune_labeled_eq, prune_labeled_eq, stays, stays]
  split
  · exact .refl _
  · exact thinned_settle label _

/-- Where words are tagged and the labels of bridi are not kept, terminators are the only words to
go: every branch is a word or shows no more than a group. -/
theorem thinned_tagged (hlabels : options.nodeLabels = false) {tree : Tree} (h : tree.Flattened) :
    LosesTerminators
      (taggedTexts (surviving? { options with terminators := true } tree))
      (taggedTexts (surviving? { options with terminators := false } tree)) := by
  induction tree with
  | leaf text => exact .refl _
  | group children ih =>
    obtain ⟨_, hchildren⟩ := every_group.mp h
    rw [taggedTexts_group, taggedTexts_group]
    exact .flatMap fun child hc => ih child hc (hchildren child hc)
  | labeled label children ih =>
    obtain ⟨hroot, hchildren⟩ := every_labeled.mp h
    cases hm : isMorphologyLabel label with
    | true => exact thinned_word hm hroot
    | false =>
      have plain : ∀ terminators : Bool,
          surviving? { options with terminators := terminators } (.labeled label children) =
            surviving? { options with terminators := terminators } (.group children) := by
        intro terminators
        have hplain : Options.Plain { options with terminators := terminators } label :=
          ⟨hm, by simp [hlabels]⟩
        exact prune_of_unwanted (ne_spacesLabel_of_isMorphologyLabel hm) (keeps_of_plain hplain)
          children
      rw [plain, plain, taggedTexts_group, taggedTexts_group]
      exact .flatMap fun child hc => ih child hc (hchildren child hc)

/-! ### The processed tree -/

/-- **Without terminators nothing but terminators goes.** If the labels of bridi are not kept, the
words of the processed tree are those with terminators, tags included, less some that are names of
selma'o. -/
theorem leafTexts_process_terminators (options : Options) (h : options.nodeLabels = false)
    (tree : Tree) :
    LosesTerminators
      (process { options with terminators := true } tree).leafTexts
      (process { options with terminators := false } tree).leafTexts := by
  cases htags : options.tagsWords with
  | true =>
    obtain ⟨_, hmorphology⟩ := tagsWords_eq_true_iff.mp htags
    have shown : ∀ terminators : Bool,
        (process { options with terminators := terminators } tree).leafTexts =
          taggedTexts (surviving? { options with terminators := terminators }
            (strip options tree)) :=
      fun terminators =>
        @leafTexts_process_tagged { options with terminators := terminators } htags tree
    rw [shown, shown]
    exact thinned_tagged h (flattened_strip hmorphology tree)
  | false =>
    have shown : ∀ terminators : Bool,
        (process { options with terminators := terminators } tree).leafTexts =
          frontier (Options.keeps { options with terminators := terminators }) options.spaces
            (strip options tree) :=
      fun terminators => @leafTexts_process { options with terminators := terminators } htags tree
    have bare : ∀ (terminators : Bool) (label : Text),
        Options.keeps { options with terminators := terminators } label true =
          (Selmaho.isName label && terminators) :=
      fun terminators =>
        @keeps_bare_untagged { options with terminators := terminators } h htags
    rw [shown, shown]
    refine thinned_frontier ?name ?gone (strip options tree)
    case name =>
      intro label hkept
      rw [bare] at hkept
      exact (Bool.and_eq_true_iff.mp hkept).1
    case gone =>
      intro label
      rw [bare]
      exact Bool.and_false _

/-- Terminators one below the other with the letters of words kept, and one beside a tagged word. -/
theorem leafTexts_process_terminators_nested :
    Options.nodeLabels { morphology := true, selmaho := true } = false ∧
    LosesTerminators
      (process { morphology := true, selmaho := true, terminators := true }
        (.labeled "sumti" [.leaf "mi", .labeled "KU" [.labeled "VAU" []]])).leafTexts
      (process { morphology := true, selmaho := true, terminators := false }
        (.labeled "sumti" [.leaf "mi", .labeled "KU" [.labeled "VAU" []]])).leafTexts ∧
    LosesTerminators
      (process { selmaho := true, terminators := true }
        (.labeled "sumti" [.labeled "KOhA" [.leaf "m", .leaf "i"], .labeled "KU" []])).leafTexts
      (process { selmaho := true, terminators := false }
        (.labeled "sumti" [.labeled "KOhA" [.leaf "m", .leaf "i"], .labeled "KU" []])).leafTexts ∧
    (process { selmaho := true, terminators := true }
      (.labeled "sumti" [.labeled "KOhA" [.leaf "m", .leaf "i"], .labeled "KU" []])).leafTexts =
        (["KOhA:mi", "KU"] : List Text) :=
  ⟨rfl, leafTexts_process_terminators { morphology := true, selmaho := true } rfl _,
    leafTexts_process_terminators { selmaho := true } rfl _, by decide⟩

end Tree

end LojbanTree
