import LojbanTree.Json.Basic
import LojbanTree.Tree.Basic

/-!
The list form of a tree.

A parser hands a tree over as nested lists of texts. A text is a leaf. A list that begins with a
text is a branch with that text as its label; any other list is a group. The form cannot express a
group that begins with a leaf, which turns into a labeled branch when it is read back. Main
statement: reading a list form as a tree loses nothing (`toListForm_toTree`).
-/

namespace LojbanTree

/-- Nested lists of texts. -/
inductive ListForm where
  | text (text : Text)
  | list (items : List ListForm)
  deriving Repr, Inhabited

/-- A part of a value that is neither a text nor a list. -/
structure UnsupportedElement where
  kind : Json.Kind
  deriving DecidableEq, Repr

/-- What is said about such a part. -/
def UnsupportedElement.message (e : UnsupportedElement) : String :=
  "Unsupported parse tree element type: <class '" ++ e.kind.name ++ "'>"

namespace ListForm

/-- Induction over list forms, the hypothesis being given for every item. -/
@[induction_eliminator, elab_as_elim]
theorem induction {motive : ListForm → Prop}
    (text : ∀ text, motive (.text text))
    (list : ∀ items, (∀ item ∈ items, motive item) → motive (.list items))
    (form : ListForm) : motive form :=
  ListForm.rec (motive_1 := motive) (motive_2 := fun items => ∀ item ∈ items, motive item)
    text list (fun _ h => absurd h List.not_mem_nil)
    (fun _ _ ihHead ihTail _ h => by
      rcases List.mem_cons.mp h with rfl | h
      · exact ihHead
      · exact ihTail _ h)
    form

mutual

/-- Are two list forms the same? -/
def decideEq : (a b : ListForm) → Decidable (a = b)
  | .text s, .text t =>
    if h : s = t then isTrue (by rw [h]) else isFalse (by simp [h])
  | .list as, .list bs =>
    match decideEqAll as bs with
    | isTrue e => isTrue (by rw [e])
    | isFalse e => isFalse (by simp [e])
  | .text _, .list _ => isFalse (by simp)
  | .list _, .text _ => isFalse (by simp)

/-- Are two lists of items the same? -/
def decideEqAll : (as bs : List ListForm) → Decidable (as = bs)
  | [], [] => isTrue rfl
  | [], _ :: _ => isFalse (by simp)
  | _ :: _, [] => isFalse (by simp)
  | a :: as, b :: bs =>
    match decideEq a b with
    | isTrue h =>
      match decideEqAll as bs with
      | isTrue e => isTrue (by rw [h, e])
      | isFalse e => isFalse (by simp [e])
    | isFalse h => isFalse (by simp [h])

end

instance : DecidableEq ListForm := decideEq

/-! ### From and to JSON values -/

mutual

/-- The list form that a JSON value is, or its first part that is neither a text nor a list. -/
def ofJson : Json → Except UnsupportedElement ListForm
  | .str s => .ok (.text s)
  | .arr items =>
    match ofJsonAll items with
    | .ok forms => .ok (.list forms)
    | .error e => .error e
  | value => .error ⟨value.kind⟩

/-- The list forms of several values, up to the first part that is unsupported. -/
def ofJsonAll : List Json → Except UnsupportedElement (List ListForm)
  | [] => .ok []
  | value :: rest =>
    match ofJson value with
    | .error e => .error e
    | .ok form =>
      match ofJsonAll rest with
      | .ok forms => .ok (form :: forms)
      | .error e => .error e

end

mutual

/-- The JSON value that a list form is. -/
def toJson : ListForm → Json
  | .text s => .str s
  | .list items => .arr (toJsonAll items)

/-- The JSON values of several list forms. -/
def toJsonAll : List ListForm → List Json
  | [] => []
  | form :: rest => toJson form :: toJsonAll rest

end

/-! ### From and to trees -/

mutual

/-- The tree that a list form stands for. -/
def toTree : ListForm → Tree
  | .text s => .leaf s
  | .list (.text label :: items) => .labeled label (toTreeAll items)
  | .list items => .group (toTreeAll items)

/-- The trees of several list forms. -/
def toTreeAll : List ListForm → List Tree
  | [] => []
  | form :: rest => toTree form :: toTreeAll rest

end

end ListForm

namespace Tree

mutual

/-- The list form of a tree. -/
def toListForm : Tree → ListForm
  | .leaf text => .text text
  | .labeled label children => .list (.text label :: toListFormAll children)
  | .group children => .list (toListFormAll children)

/-- The list forms of siblings. -/
def toListFormAll : List Tree → List ListForm
  | [] => []
  | tree :: siblings => toListForm tree :: toListFormAll siblings

end

/-- The tree that a JSON value stands for, or its first part that is neither a text nor a list. -/
def ofJson (value : Json) : Except UnsupportedElement Tree :=
  match ListForm.ofJson value with
  | .ok form => .ok form.toTree
  | .error e => .error e

/-- The JSON value of a tree. -/
def toJson (tree : Tree) : Json :=
  tree.toListForm.toJson

end Tree

/-! ### Siblings one by one -/

theorem ListForm.toTreeAll_eq_map (forms : List ListForm) :
    ListForm.toTreeAll forms = forms.map ListForm.toTree := by
  induction forms with
  | nil => rfl
  | cons form forms ih => simp [ListForm.toTreeAll, ih]

theorem Tree.toListFormAll_eq_map (siblings : List Tree) :
    Tree.toListFormAll siblings = siblings.map Tree.toListForm := by
  induction siblings with
  | nil => rfl
  | cons tree siblings ih => simp [Tree.toListFormAll, ih]

@[simp] theorem Tree.toListForm_leaf (text : Text) :
    (Tree.leaf text).toListForm = .text text := by
  rw [Tree.toListForm]

@[simp] theorem Tree.toListForm_labeled (label : Text) (children : List Tree) :
    (Tree.labeled label children).toListForm =
      .list (.text label :: children.map Tree.toListForm) := by
  rw [Tree.toListForm, Tree.toListFormAll_eq_map]

@[simp] theorem Tree.toListForm_group (children : List Tree) :
    (Tree.group children).toListForm = .list (children.map Tree.toListForm) := by
  rw [Tree.toListForm, Tree.toListFormAll_eq_map]

@[simp] theorem ListForm.toTree_text (text : Text) : (ListForm.text text).toTree = .leaf text := by
  rw [ListForm.toTree]

@[simp] theorem ListForm.toTree_labeled (label : Text) (items : List ListForm) :
    (ListForm.list (.text label :: items)).toTree = .labeled label (items.map ListForm.toTree) := by
  rw [ListForm.toTree, ListForm.toTreeAll_eq_map]

/-- A list that does not begin with a text is a group. -/
theorem ListForm.toTree_group {items : List ListForm}
    (h : ∀ label rest, items ≠ .text label :: rest) :
    (ListForm.list items).toTree = .group (items.map ListForm.toTree) := by
  rw [ListForm.toTree, ListForm.toTreeAll_eq_map]
  exact h

/-- Induction over list forms that tells the lists by the trees that they stand for. -/
@[elab_as_elim]
theorem ListForm.treeInduction {motive : ListForm → Prop}
    (text : ∀ text, motive (.text text))
    (labeled : ∀ label items, (∀ item ∈ items, motive item) →
      motive (.list (.text label :: items)))
    (group : ∀ items, (∀ label rest, items ≠ .text label :: rest) →
      (∀ item ∈ items, motive item) → motive (.list items))
    (form : ListForm) : motive form := by
  induction form with
  | text s => exact text s
  | list items ih =>
    by_cases h : ∃ label rest, items = .text label :: rest
    · obtain ⟨label, rest, rfl⟩ := h
      exact labeled label rest fun item hi => ih item (List.mem_cons_of_mem _ hi)
    · exact group items (fun label rest he => h ⟨label, rest, he⟩) ih

/-- Reading a list form as a tree and writing it again changes nothing. -/
@[simp] theorem ListForm.toListForm_toTree (form : ListForm) :
    form.toTree.toListForm = form := by
  have all : ∀ forms : List ListForm, (∀ form ∈ forms, form.toTree.toListForm = form) →
      (forms.map ListForm.toTree).map Tree.toListForm = forms := by
    intro forms h
    rw [List.map_map]
    exact (List.map_congr_left h).trans (List.map_id forms)
  induction form using ListForm.treeInduction with
  | text text => rw [ListForm.toTree_text, Tree.toListForm_leaf]
  | labeled label items ih => rw [ListForm.toTree_labeled, Tree.toListForm_labeled, all items ih]
  | group items h ih => rw [ListForm.toTree_group h, Tree.toListForm_group, all items ih]

end LojbanTree
