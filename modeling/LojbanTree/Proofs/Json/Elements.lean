import LojbanTree.ParserOutput

/-!
The elements of a list, at all depths.

A list stands for a tree when all its elements are texts and lists. Otherwise the first element that
is neither, in the order in which the list is written, says why there is no tree. Main statement:
`Reading.ofJson_cases`, which tells from the elements of a value what it turns out to be.
-/

namespace LojbanTree

namespace Json

theorem Number.kind_ne_list (n : Number) : n.kind ≠ .list := by
  cases n <;> exact nofun

/-- Induction over the items of lists; values of other kinds have no parts here. -/
@[elab_as_elim]
theorem itemInduction {motive : Json → Prop}
    (list : ∀ items, (∀ item ∈ items, motive item) → motive (.arr items))
    (other : ∀ value : Json, value.kind ≠ .list → motive value)
    (value : Json) : motive value :=
  Json.rec (motive_1 := motive) (motive_2 := fun items => ∀ item ∈ items, motive item)
    (motive_3 := fun _ => True) (motive_4 := fun _ => True)
    (other _ (by decide)) (fun _ => other _ nofun)
    (fun n => other _ n.kind_ne_list)
    (fun _ => other _ nofun) list (fun _ _ => other _ nofun)
    (fun _ h => absurd h List.not_mem_nil)
    (fun _ _ ihHead ihTail _ h => by
      rcases List.mem_cons.mp h with rfl | h
      · exact ihHead
      · exact ihTail _ h)
    trivial (fun _ _ _ _ => trivial) (fun _ _ _ => trivial) value

mutual

/-- What a list holds at any depth, each element before those inside it. -/
def elements : Json → List Json
  | .arr items => elementsAll items
  | _ => []

/-- Several values, each before its own elements. -/
def elementsAll : List Json → List Json
  | [] => []
  | value :: rest => value :: (elements value ++ elementsAll rest)

end

/-- Is the value neither a text nor a list, so that it has no place in a tree? -/
def isForeign (value : Json) : Bool :=
  value.kind != .str && value.kind != .list

/-- The first element, in the order of the text, that has no place in a tree. -/
def foreign? (value : Json) : Option Json :=
  value.elements.find? isForeign

theorem isForeign_eq_false_iff {value : Json} :
    value.isForeign = false ↔ value.kind = .str ∨ value.kind = .list := by
  cases h : value.kind <;> simp [isForeign, h]

/-- Among values that are all texts and lists none is foreign. -/
theorem find?_isForeign_eq_none_iff {values : List Json} :
    values.find? isForeign = none ↔ ∀ value ∈ values, value.kind = .str ∨ value.kind = .list := by
  simp only [List.find?_eq_none, Bool.not_eq_true, isForeign_eq_false_iff]

/-- There is no foreign element when all elements are texts and lists. -/
theorem foreign?_eq_none_iff {value : Json} :
    value.foreign? = none ↔
      ∀ element ∈ value.elements, element.kind = .str ∨ element.kind = .list :=
  find?_isForeign_eq_none_iff

/-- The foreign element is one of the elements, and neither a text nor a list. -/
theorem mem_of_foreign? {value element : Json} (h : value.foreign? = some element) :
    element ∈ value.elements ∧ element.kind ≠ .str ∧ element.kind ≠ .list := by
  have hforeign : element.isForeign = true := List.find?_some h
  exact ⟨List.mem_of_find?_eq_some h, by simpa [isForeign] using hforeign⟩

end Json

/-! ### Reading as a tree -/

namespace ListForm

open Json

/-- What a reading fails with, if it fails. -/
def failure? {α : Type} : Except UnsupportedElement α → Option UnsupportedElement
  | .ok _ => none
  | .error e => some e

/-- What is said about the first foreign one among several values and their elements. -/
def complaint? (values : List Json) : Option UnsupportedElement :=
  ((elementsAll values).find? isForeign).map fun foreign => ⟨foreign.kind⟩

theorem failure?_ofJson_arr (items : List Json) :
    failure? (ofJson (.arr items)) = failure? (ofJsonAll items) := by
  rw [ofJson]
  cases ofJsonAll items <;> rfl

theorem failure?_ofJsonAll_cons (value : Json) (rest : List Json) :
    failure? (ofJsonAll (value :: rest)) =
      (failure? (ofJson value)).or (failure? (ofJsonAll rest)) := by
  rw [ofJsonAll]
  cases ofJson value with
  | error e => rfl
  | ok form => cases ofJsonAll rest <;> rfl

theorem complaint?_cons (value : Json) (rest : List Json) :
    complaint? (value :: rest) = (complaint? [value]).or (complaint? rest) := by
  simp only [complaint?, elementsAll, List.append_nil, ← List.cons_append, List.find?_append,
    Option.map_or]

/-- A list is not foreign itself. -/
theorem complaint?_arr (items : List Json) : complaint? [.arr items] = complaint? items := by
  simp [complaint?, elementsAll, elements, isForeign, kind]

theorem complaint?_of_kind_ne_list {value : Json} (h : value.kind ≠ .list) :
    complaint? [value] = failure? (ofJson value) := by
  cases value with
  | arr items => exact absurd rfl h
  | num n => cases n <;> rfl
  | _ => rfl

/-- Reading siblings fails as the first of them does that cannot be read. -/
theorem failure?_ofJsonAll {items : List Json}
    (each : ∀ item ∈ items, failure? (ofJson item) = complaint? [item]) :
    failure? (ofJsonAll items) = complaint? items := by
  induction items with
  | nil => rfl
  | cons item rest ih =>
    obtain ⟨hitem, hrest⟩ := List.forall_mem_cons.mp each
    rw [failure?_ofJsonAll_cons, hitem, ih hrest, complaint?_cons item rest]

/-- Reading a value fails exactly at the first foreign part. -/
theorem failure?_ofJson (value : Json) : failure? (ofJson value) = complaint? [value] := by
  induction value using itemInduction with
  | list items ih => rw [failure?_ofJson_arr, failure?_ofJsonAll ih, complaint?_arr]
  | other value h => rw [complaint?_of_kind_ne_list h]

end ListForm

/-- **What a value turns out to be is told by its elements.** A value that is no list is turned
down. A list is a tree if all its elements are texts and lists, and a failure that names the kind
of the first other one if not. -/
theorem Reading.ofJson_cases (value : Json) :
    (value.kind ≠ .list ∧ Reading.ofJson value = .rejected (.wrongKind value.kind)) ∨
      (value.kind = .list ∧ value.foreign? = none ∧
        ∃ tree, Tree.ofJson value = .ok tree ∧ Reading.ofJson value = .tree tree) ∨
      (value.kind = .list ∧ ∃ foreign, value.foreign? = some foreign ∧
        Reading.ofJson value = .failed (.unsupported ⟨foreign.kind⟩)) := by
  cases value with
  | arr items =>
    have hfailure : ListForm.failure? (ListForm.ofJson (.arr items)) =
        (Json.foreign? (.arr items)).map fun foreign => ⟨foreign.kind⟩ := by
      rw [ListForm.failure?_ofJson, ListForm.complaint?_arr]
      rfl
    cases hform : ListForm.ofJson (.arr items) with
    | ok form =>
      have hnone : Json.foreign? (.arr items) = none := by
        rw [hform] at hfailure
        exact Option.map_eq_none_iff.mp hfailure.symm
      have htree : Tree.ofJson (.arr items) = .ok form.toTree := by rw [Tree.ofJson, hform]
      exact .inr (.inl ⟨rfl, hnone, form.toTree, htree, by rw [Reading.ofJson, htree]⟩)
    | error e =>
      obtain ⟨foreign, hforeign, rfl⟩ :
          ∃ foreign, Json.foreign? (.arr items) = some foreign ∧
            (⟨foreign.kind⟩ : UnsupportedElement) = e := by
        rw [hform] at hfailure
        exact Option.map_eq_some_iff.mp hfailure.symm
      have htree : Tree.ofJson (.arr items) = .error ⟨foreign.kind⟩ := by rw [Tree.ofJson, hform]
      exact .inr (.inr ⟨rfl, foreign, hforeign, by rw [Reading.ofJson, htree]⟩)
  | num n => exact .inl ⟨n.kind_ne_list, rfl⟩
  | _ => exact .inl ⟨nofun, rfl⟩

end LojbanTree
