import LojbanTree.Text.Basic

/-!
Substitution in a text, from left to right.

A rule looks at what is left of the text and either declines or says how many code points beyond
the first it takes and what to write for them. The rule is asked at every position that no earlier
match has taken, and the code point is copied where the rule declines.
-/

namespace LojbanTree.Text

/-- For a text that starts at the current position: how many code points after the first are
taken, and what is written instead of all of them. -/
abbrev SubstitutionRule := List CodePoint → Option (Nat × List CodePoint)

/-- Substitutes in a text whose first `skip` code points belong to an earlier match. -/
def substituteFrom (rule : SubstitutionRule) : Nat → List CodePoint → List CodePoint
  | _, [] => []
  | skip + 1, _ :: rest => substituteFrom rule skip rest
  | 0, c :: rest =>
    match rule (c :: rest) with
    | some (taken, written) => written ++ substituteFrom rule taken rest
    | none => c :: substituteFrom rule 0 rest

/-- Substitutes in a whole text. -/
def substitute (rule : SubstitutionRule) (text : List CodePoint) : List CodePoint :=
  substituteFrom rule 0 text

/-- Each occurrence of `old` gives way to `new`. -/
def replacing (old new : List CodePoint) : SubstitutionRule := fun text =>
  if old.isPrefixOf text then some (old.length - 1, new) else none

@[simp] theorem substitute_nil (rule : SubstitutionRule) : substitute rule [] = [] := by
  simp [substitute, substituteFrom]

/-- Skipping drops code points. -/
theorem substituteFrom_eq_drop (rule : SubstitutionRule) (skip : Nat) (text : List CodePoint) :
    substituteFrom rule skip text = substitute rule (text.drop skip) := by
  induction text generalizing skip with
  | nil => simp [substituteFrom]
  | cons c rest ih => cases skip with
    | zero => rfl
    | succ n => simpa [substituteFrom] using ih n

/-- Where the rule declines, the code point is copied. -/
theorem substitute_cons_of_none {rule : SubstitutionRule} {c : CodePoint} {rest : List CodePoint}
    (h : rule (c :: rest) = none) :
    substitute rule (c :: rest) = c :: substitute rule rest := by
  simp [substitute, substituteFrom, h]

/-- Where the rule matches, what it writes replaces what it takes. -/
theorem substitute_cons_of_some {rule : SubstitutionRule} {c : CodePoint}
    {rest written : List CodePoint} {taken : Nat} (h : rule (c :: rest) = some (taken, written)) :
    substitute rule (c :: rest) = written ++ substitute rule (rest.drop taken) := by
  simp only [substitute, substituteFrom, h, substituteFrom_eq_drop rule taken rest]

end LojbanTree.Text
