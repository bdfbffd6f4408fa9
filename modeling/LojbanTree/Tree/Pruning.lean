import LojbanTree.Tree.Basic

/-!
Pruning.

Pruning asks a filter about the label of each branch, once its children have been pruned. A label
that is not wanted disappears and its children move up; a branch that is left with a single part
gives way to that part, and one with none disappears. Branches labeled `spaces` are dropped, or
shown as `_`.

The filter may have effects of its own, so `pruneM` runs in any monad. `prune` is the case of a
plain filter, and `pruneTraced` also lists the questions that are put to it.
-/

namespace LojbanTree

/-- The label of blanks between words. -/
def spacesLabel : Text := "spaces"

/-- The leaf that stands for blanks. -/
def blankLeaf : Tree := .leaf "_"

namespace Tree

/-- What is left of a branch: its label, if it is wanted, and its surviving children. A single
part stands for itself. -/
def collapse : Option Text → List Tree → Option Tree
  | none, [] => none
  | none, [survivor] => some survivor
  | none, survivors => some (.group survivors)
  | some label, [] => some (.leaf label)
  | some label, survivors => some (.labeled label survivors)

section

variable {m : Type → Type} [Monad m]

/-- A filter says whether a label is wanted, given whether its branch has lost all children. -/
abbrev LabelFilter (m : Type → Type) := Text → Bool → m Bool

/-- Asks the filter about a branch whose children have been pruned. -/
def settleM (keep : LabelFilter m) (label : Text) (survivors : List Tree) :
    m (Option Tree) := do
  let wanted ← keep label survivors.isEmpty
  pure (collapse (if wanted then some label else none) survivors)

mutual

/-- Prunes a tree with a filter that may have effects. Nothing is left of a tree all of whose
parts go. -/
def pruneM (keep : LabelFilter m) (spaces : Bool) : Tree → m (Option Tree)
  | .leaf text => pure (some (.leaf text))
  | .group children => do
    let survivors ← pruneAllM keep spaces children
    pure (collapse none survivors)
  | .labeled label children =>
    if label = spacesLabel then
      if spaces then do
        let survivors ← pruneAfterFirstM keep spaces children
        settleM keep label (blankLeaf :: survivors)
      else pure none
    else do
      let survivors ← pruneAllM keep spaces children
      settleM keep label survivors

/-- Prunes siblings from left to right and lists the survivors. -/
def pruneAllM (keep : LabelFilter m) (spaces : Bool) : List Tree → m (List Tree)
  | [] => pure []
  | tree :: siblings => do
    let survivor ← pruneM keep spaces tree
    let survivors ← pruneAllM keep spaces siblings
    pure (survivor.toList ++ survivors)

/-- Prunes all siblings but the first, whose place is taken by a blank. -/
def pruneAfterFirstM (keep : LabelFilter m) (spaces : Bool) : List Tree → m (List Tree)
  | [] => pure []
  | _ :: siblings => pruneAllM keep spaces siblings

end

end

/-- Prunes a tree with a plain filter. -/
def prune (keep : Text → Bool → Bool) (spaces : Bool) (tree : Tree) : Option Tree :=
  Id.run (pruneM (fun label childless => pure (keep label childless)) spaces tree)

/-- Prunes siblings with a plain filter. -/
def pruneAll (keep : Text → Bool → Bool) (spaces : Bool) (siblings : List Tree) : List Tree :=
  Id.run (pruneAllM (fun label childless => pure (keep label childless)) spaces siblings)

/-- A question to the filter: the label, and whether its branch has lost all children. -/
abbrev Query := Text × Bool

/-- A filter that notes each question before it answers. -/
def noting (keep : Text → Bool → Bool) : LabelFilter (StateM (List Query)) :=
  fun label childless => do
    modify (· ++ [(label, childless)])
    pure (keep label childless)

/-- Prunes a tree and lists the questions put to the filter, in order. -/
def pruneTraced (keep : Text → Bool → Bool) (spaces : Bool) (tree : Tree) :
    Option Tree × List Query :=
  (pruneM (noting keep) spaces tree).run []

/-! ### What pruning does to each kind of tree -/

section

variable (keep : Text → Bool → Bool) (spaces : Bool)

@[simp] theorem prune_leaf (text : Text) : prune keep spaces (.leaf text) = some (.leaf text) :=
  rfl

@[simp] theorem prune_group (children : List Tree) :
    prune keep spaces (.group children) = collapse none (pruneAll keep spaces children) :=
  rfl

@[simp] theorem pruneAll_nil : pruneAll keep spaces [] = [] :=
  rfl

@[simp] theorem pruneAll_cons (tree : Tree) (siblings : List Tree) :
    pruneAll keep spaces (tree :: siblings) =
      (prune keep spaces tree).toList ++ pruneAll keep spaces siblings :=
  rfl

/-- A branch that is not labeled `spaces` keeps what is left of its children, and its label if the
filter wants it. -/
theorem prune_labeled {label : Text} (h : label ≠ spacesLabel) (children : List Tree) :
    prune keep spaces (.labeled label children) =
      collapse (if keep label (pruneAll keep spaces children).isEmpty then some label else none)
        (pruneAll keep spaces children) := by
  simp only [prune, pruneM, h, if_false]
  rfl

/-- Without blanks, branches labeled `spaces` disappear. -/
@[simp] theorem prune_spaces_false (children : List Tree) :
    prune keep false (.labeled spacesLabel children) = none :=
  rfl

/-- With blanks, the first child of a branch labeled `spaces` becomes `_`. -/
theorem prune_spaces_true (children : List Tree) :
    prune keep true (.labeled spacesLabel children) =
      collapse (if keep spacesLabel false then some spacesLabel else none)
        (blankLeaf :: pruneAll keep true children.tail) := by
  cases children <;> rfl

theorem pruneAll_eq_flatMap (siblings : List Tree) :
    pruneAll keep spaces siblings =
      siblings.flatMap fun tree => (prune keep spaces tree).toList := by
  induction siblings with
  | nil => rfl
  | cons tree siblings ih => simp [ih]

end

end Tree

end LojbanTree
