import LojbanTree.Proofs.Json.Elements
import LojbanTree.Proofs.Json.RoundTrip
import LojbanTree.Proofs.Tree.Flattening

/-!
Trees and their values.

Reading a value as a tree and writing a tree as its value undo each other wherever the list form
can express the tree. A value is read when all its parts are texts and lists, and it is the value of
what has been read; a tree is read back from its value when no group in it begins with a leaf. Main
statement: `Tree.ofJson_inverse`.
-/

namespace LojbanTree

/-- The value itself and what it holds at any depth, in the order of the text. -/
def Json.parts (value : Json) : List Json :=
  value :: value.elements

/-! ### The value of what has been read -/

namespace ListForm

theorem toJsonAll_of_ofJsonAll {items : List Json}
    (each : ∀ item ∈ items, ∀ form, ofJson item = .ok form → form.toJson = item)
    {forms : List ListForm} (h : ofJsonAll items = .ok forms) : toJsonAll forms = items := by
  induction items generalizing forms with
  | nil =>
    cases h
    rfl
  | cons item rest ih =>
    obtain ⟨hitem, hrest⟩ := List.forall_mem_cons.mp each
    rw [ofJsonAll] at h
    cases hform : ofJson item with
    | error e =>
      rw [hform] at h
      cases h
    | ok form =>
      cases hforms : ofJsonAll rest with
      | error e =>
        rw [hform, hforms] at h
        cases h
      | ok others =>
        rw [hform, hforms] at h
        cases h
        rw [toJsonAll, hitem form hform, ih hrest hforms]

/-- A value that has been read is the value of what it was read as. -/
theorem toJson_of_ofJson {value : Json} {form : ListForm} (h : ofJson value = .ok form) :
    form.toJson = value := by
  induction value using Json.itemInduction generalizing form with
  | list items ih =>
    rw [ofJson] at h
    cases hforms : ofJsonAll items with
    | error e =>
      rw [hforms] at h
      cases h
    | ok forms =>
      rw [hforms] at h
      cases h
      rw [toJson, toJsonAll_of_ofJsonAll (fun item hi form => ih item hi) hforms]
  | other value hkind =>
    cases value with
    | str s =>
      cases h
      rw [toJson]
    | arr items => exact absurd rfl hkind
    | _ => cases h

/-- Where and with what reading a value fails: at the first part that is neither a text nor a
list. -/
theorem failure?_ofJson_parts (value : Json) :
    failure? (ofJson value) =
      (value.parts.find? Json.isForeign).map fun foreign => ⟨foreign.kind⟩ := by
  rw [failure?_ofJson, complaint?, Json.elementsAll, Json.elementsAll, List.append_nil, Json.parts]

end ListForm

/-! ### Reading trees -/

namespace Tree

variable {value : Json} {tree : Tree}

/-- Only readable trees are what their list form reads as. -/
theorem toTree_toListForm_iff : tree.toListForm.toTree = tree ↔ tree.Readable := by
  constructor
  · intro h
    rw [← h]
    exact readable_toTree tree.toListForm
  · exact toTree_toListForm

/-- The value of a tree is read as what its list form stands for. -/
theorem ofJson_toJson (tree : Tree) : ofJson tree.toJson = .ok tree.toListForm.toTree := by
  rw [ofJson, toJson, ListForm.ofJson_toJson]

/-- What is read from a value is readable and has this value, and no other tree is. -/
theorem ofJson_eq_ok_iff : ofJson value = .ok tree ↔ tree.Readable ∧ tree.toJson = value := by
  constructor
  · intro h
    rw [ofJson] at h
    cases hform : ListForm.ofJson value with
    | error e =>
      rw [hform] at h
      cases h
    | ok form =>
      rw [hform] at h
      cases h
      refine ⟨readable_toTree form, ?_⟩
      rw [toJson, ListForm.toListForm_toTree]
      exact ListForm.toJson_of_ofJson hform
  · rintro ⟨hreadable, rfl⟩
    rw [ofJson_toJson, toTree_toListForm hreadable]

/-- Reading fails as it does for the list form. -/
theorem ofJson_eq_error_iff {e : UnsupportedElement} :
    ofJson value = .error e ↔
      ∃ foreign, value.parts.find? Json.isForeign = some foreign ∧ e.kind = foreign.kind ∧
        e.message =
          "Unsupported parse tree element type: <class '" ++ foreign.kind.name ++ "'>" := by
  have hfailure := ListForm.failure?_ofJson_parts value
  rw [ofJson]
  cases hform : ListForm.ofJson value with
  | ok form =>
    rw [hform] at hfailure
    have hnone := Option.map_eq_none_iff.mp hfailure.symm
    simp [hnone]
  | error cause =>
    rw [hform] at hfailure
    obtain ⟨foreign, hforeign, rfl⟩ := Option.map_eq_some_iff.mp hfailure.symm
    constructor
    · rintro ⟨⟩
      exact ⟨foreign, hforeign, rfl, rfl⟩
    · rintro ⟨other, hother, hkind, _⟩
      obtain rfl := Option.some.inj (hforeign.symm.trans hother)
      rw [← hkind]

/-- Reading succeeds when there is nothing to fail at. -/
theorem exists_ofJson_eq_ok_iff :
    (∃ tree, ofJson value = .ok tree) ↔
      ∀ part ∈ value.parts, part.kind = .str ∨ part.kind = .list := by
  rw [← Json.find?_isForeign_eq_none_iff]
  constructor
  · rintro ⟨tree, htree⟩
    cases hfind : value.parts.find? Json.isForeign with
    | none => rfl
    | some foreign =>
      rw [ofJson_eq_error_iff.mpr ⟨foreign, hfind, rfl, rfl⟩] at htree
      cases htree
  · intro hnone
    cases hread : ofJson value with
    | ok tree => exact ⟨tree, rfl⟩
    | error e =>
      obtain ⟨foreign, hforeign, _⟩ := ofJson_eq_error_iff.mp hread
      rw [hnone] at hforeign
      cases hforeign

/-- **Reading a value and writing a tree undo each other where the list form can express the
tree.** A value is read exactly if it and all that it holds are texts and lists, and then it is the
value of what has been read; otherwise reading fails with the kind of the first part that is
neither, which the message names. The value of every tree is read, and as that tree exactly if no
group in it begins with a leaf. -/
theorem ofJson_inverse :
    (∀ value : Json,
      ((∃ tree, ofJson value = .ok tree) ↔
        ∀ part ∈ value.parts, part.kind = .str ∨ part.kind = .list) ∧
      (∀ tree, ofJson value = .ok tree ↔ tree.Readable ∧ tree.toJson = value) ∧
      (∀ e, ofJson value = .error e ↔
        ∃ foreign, value.parts.find? Json.isForeign = some foreign ∧ e.kind = foreign.kind ∧
          e.message =
            "Unsupported parse tree element type: <class '" ++ foreign.kind.name ++ "'>")) ∧
    ∀ tree : Tree,
      (∃ built, ofJson tree.toJson = .ok built) ∧
      (ofJson tree.toJson = .ok tree ↔ tree.Readable) := by
  constructor
  · intro value
    exact ⟨exists_ofJson_eq_ok_iff, fun _ => ofJson_eq_ok_iff, fun _ => ofJson_eq_error_iff⟩
  · intro tree
    refine ⟨⟨_, ofJson_toJson tree⟩, ?_⟩
    rw [ofJson_toJson, Except.ok.injEq, toTree_toListForm_iff]

/-- Of two parts that have no place in a tree the inner one counts, since it comes first. -/
example : (match ofJson (.arr [.str "text", .arr [.arr [], .null], .bool true]) with
    | .ok _ => none
    | .error e => some e.message) =
      some "Unsupported parse tree element type: <class 'NoneType'>" := by decide

end Tree

end LojbanTree
