import LojbanTree.Proofs.Tree.Labels
import LojbanTree.Proofs.Tree.Positions
import LojbanTree.Proofs.Tree.Survivors

/-!
Grammar rules that do not show.

A grammar rule that is *plain* (no label of a word, and none that the options ask for) shows no
more than a group, and a group around a single part shows no more than the part. Two trees are
*alike* when no pass tells them apart: inside a word only the leaf texts matter, anywhere else only
what pruning leaves. Trees stay alike in every surrounding, so none of these changes shows,
wherever it is made. Main statement: `process_replaceAt_of_ruleEdit`.
-/

namespace LojbanTree.Tree

/-- A change of grammar rules at the root of a tree that is not to show. -/
inductive RuleEdit (options : Options) : Tree → Tree → Prop where
  /-- A rule gives way to a group. -/
  | unlabel {label : Text} (children : List Tree) : options.Plain label →
      RuleEdit options (.labeled label children) (.group children)
  /-- A group is put around a part. -/
  | enclose (part : Tree) : RuleEdit options part (.group [part])
  /-- A rule takes the name of another. -/
  | rename {label other : Text} (children : List Tree) : options.Plain label →
      options.Plain other → RuleEdit options (.labeled label children) (.labeled other children)
  /-- A rule is put over a single part. -/
  | insert {label : Text} (part : Tree) : options.Plain label →
      RuleEdit options part (.labeled label [part])
  /-- A rule over a single part is taken away. -/
  | remove {label : Text} (part : Tree) : options.Plain label →
      RuleEdit options (.labeled label [part]) part

/-- Trees that no pass tells apart. -/
structure Alike (options : Options) (tree other : Tree) : Prop where
  leafTexts : tree.leafTexts = other.leafTexts
  surviving : surviving? options (strip options tree) = surviving? options (strip options other)

namespace Alike

variable {options : Options} {tree other third child new : Tree} {children : List Tree}
  {number : Nat}

theorem symm (h : Alike options tree other) : Alike options other tree where
  leafTexts := h.leafTexts.symm
  surviving := h.surviving.symm

theorem trans (h : Alike options tree other) (h' : Alike options other third) :
    Alike options tree third where
  leafTexts := h.leafTexts.trans h'.leafTexts
  surviving := h.surviving.trans h'.surviving

theorem process_eq (h : Alike options tree other) :
    process options tree = process options other := by
  rw [process, process, processStripped, processStripped, h.surviving]

/-! ### Alike trees in their surroundings -/

theorem flatMap_leafTexts (hchild : children[number]? = some child) (h : Alike options child new) :
    children.flatMap Tree.leafTexts = (children.set number new).flatMap Tree.leafTexts := by
  rw [List.flatMap_def, List.flatMap_def, map_set_eq Tree.leafTexts hchild h.leafTexts.symm]

theorem map_surviving (hchild : children[number]? = some child) (h : Alike options child new) :
    (children.map (strip options)).map (surviving? options) =
      ((children.set number new).map (strip options)).map (surviving? options) := by
  rw [List.map_map, List.map_map]
  exact (map_set_eq (surviving? options ∘ strip options) hchild h.surviving.symm).symm

/-- Below a branch, whether it holds the letters of a word or not. -/
theorem labeled (label : Text) (hchild : children[number]? = some child)
    (h : Alike options child new) :
    Alike options (.labeled label children) (.labeled label (children.set number new)) where
  leafTexts := by
    rw [leafTexts_labeled, leafTexts_labeled, flatMap_leafTexts hchild h]
  surviving := by
    by_cases hkept : options.morphology = true ∨ isMorphologyLabel label = false
    · rw [strip_labeled hkept, strip_labeled hkept]
      exact prune_labeled_congr label (map_surviving hchild h)
    · obtain ⟨hstrip, hm⟩ : options.morphology = false ∧ isMorphologyLabel label = true := by
        simpa using hkept
      rw [strip_word hstrip hm, strip_word hstrip hm, flatMap_leafTexts hchild h]

/-- Among the parts of a group. -/
theorem group (hchild : children[number]? = some child) (h : Alike options child new) :
    Alike options (.group children) (.group (children.set number new)) where
  leafTexts := by
    rw [leafTexts_group, leafTexts_group, flatMap_leafTexts hchild h]
  surviving := by
    rw [strip_group, strip_group]
    exact prune_group_congr (map_surviving hchild h)

/-! ### Changes of grammar rules -/

theorem of_plain {label : Text} (h : options.Plain label) (children : List Tree) :
    Alike options (.labeled label children) (.group children) where
  leafTexts := by rw [leafTexts_labeled, leafTexts_group]
  surviving := by
    rw [strip_labeled (Or.inr h.1), strip_group]
    exact prune_of_unwanted (ne_spacesLabel_of_isMorphologyLabel h.1) (keeps_of_plain h) _

theorem group_singleton (part : Tree) : Alike options (.group [part]) part where
  leafTexts := by rw [leafTexts_group, List.flatMap_singleton]
  surviving := by
    rw [strip_group]
    exact prune_group_singleton _

theorem of_ruleEdit (h : RuleEdit options tree other) : Alike options tree other := by
  cases h with
  | unlabel children hplain => exact of_plain hplain children
  | enclose => exact (group_singleton tree).symm
  | rename children hplain hother =>
    exact (of_plain hplain children).trans (of_plain hother children).symm
  | insert _ hplain => exact ((of_plain hplain [tree]).trans (group_singleton tree)).symm
  | remove _ hplain => exact (of_plain hplain [other]).trans (group_singleton other)

end Alike

/-- **Plain grammar rules do not show**: such a change, made at any position, leaves the processed
tree as it is. -/
theorem process_replaceAt_of_ruleEdit {options : Options} {tree old new : Tree}
    {position : List Nat} (hedit : RuleEdit options old new)
    (hold : tree.subtreeAt? position = some old) :
    process options (tree.replaceAt position new) = process options tree := by
  have alike : Alike options tree (tree.replaceAt position new) :=
    related_replaceAt (fun label => Alike.labeled label) Alike.group hold (.of_ruleEdit hedit)
  exact alike.process_eq.symm

/-- A rule inside a word, and a group put around blanks that are kept. -/
theorem process_replaceAt_of_ruleEdit_word :
    RuleEdit { selmaho := true } (.labeled "m" [.leaf "m"]) (.group [.leaf "m"]) ∧
    (labeled "text" [.labeled "KOhA" [.labeled "m" [.leaf "m"], .leaf "i"]]).subtreeAt? [0, 0] =
      some (.labeled "m" [.leaf "m"]) ∧
    process { selmaho := true }
        ((labeled "text" [.labeled "KOhA" [.labeled "m" [.leaf "m"], .leaf "i"]]).replaceAt [0, 0]
          (.group [.leaf "m"])) =
      process { selmaho := true }
        (.labeled "text" [.labeled "KOhA" [.labeled "m" [.leaf "m"], .leaf "i"]]) ∧
    process { spaces := true, morphology := true }
        ((labeled "text" [.leaf "mi", .labeled "spaces" [.leaf " ", .leaf "."]]).replaceAt [1]
          (.group [.labeled "spaces" [.leaf " ", .leaf "."]])) =
      process { spaces := true, morphology := true }
        (.labeled "text" [.leaf "mi", .labeled "spaces" [.leaf " ", .leaf "."]]) :=
  have plain : Options.Plain { selmaho := true } "m" := by decide
  ⟨.unlabel _ plain, by decide, process_replaceAt_of_ruleEdit (.unlabel _ plain) (by decide),
    process_replaceAt_of_ruleEdit (.enclose _) (by decide)⟩

end LojbanTree.Tree
