import LojbanTree.Selmaho
import Mathlib.Logic.ExistsUnique

/-!
Names of selma'o and their analyses.

A text is recognised by reading it from left to right, and reading has no choice to make. An `h`
ends a core, and any other letter has to make a diphthong with it. `I` and `U`, which can lead a
name and are cores too, begin no diphthong, so they lead exactly where no `h` comes next. Main
statement: the names are the spellings, and no spelling has two analyses (`isName_iff_spelling`).
-/

namespace LojbanTree.Selmaho

/-! ### Cores -/

theorem spell_of_vowel? {c : Char} {core : Core} (h : vowel? c = some core) : core.spell = [c] := by
  unfold vowel? at h
  split at h <;> cases h <;> rfl

theorem spell_of_extend? {core longer : Core} {c : Char} (h : core.extend? c = some longer) :
    longer.spell = core.spell ++ [c] := by
  unfold Core.extend? at h
  split at h <;> cases h <;> rfl

/-- A core is a vowel, or a vowel and the letter that makes it a diphthong. That letter is no
`h`. -/
theorem Core.spell_cases (core : Core) :
    (∃ c, vowel? c = some core ∧ core.spell = [c]) ∨
      ∃ c d vowel, vowel? c = some vowel ∧ vowel.extend? d = some core ∧ d ≠ 'h' ∧
        core.spell = [c, d] := by
  cases core with
  | a => exact .inl ⟨'A', rfl, rfl⟩
  | e => exact .inl ⟨'E', rfl, rfl⟩
  | i => exact .inl ⟨'I', rfl, rfl⟩
  | o => exact .inl ⟨'O', rfl, rfl⟩
  | u => exact .inl ⟨'U', rfl, rfl⟩
  | y => exact .inl ⟨'Y', rfl, rfl⟩
  | ai => exact .inr ⟨'A', 'I', .a, rfl, rfl, by decide, rfl⟩
  | ei => exact .inr ⟨'E', 'I', .e, rfl, rfl, by decide, rfl⟩
  | oi => exact .inr ⟨'O', 'I', .o, rfl, rfl, by decide, rfl⟩
  | au => exact .inr ⟨'A', 'U', .a, rfl, rfl, by decide, rfl⟩

theorem spellCores_nil (core : Core) : spellCores core [] = core.spell := by
  simp [spellCores]

theorem spellCores_cons (core first : Core) (more : List Core) :
    spellCores core (first :: more) = core.spell ++ 'h' :: spellCores first more := by
  simp [spellCores]

/-! ### What is read is a spelling -/

theorem spellCores_of_readAfter {core first : Core} {more : List Core} {text : List Char}
    (h : readAfter core text = some (first, more)) :
    spellCores first more = core.spell ++ text := by
  fun_induction readAfter core text generalizing first more with
  | case1 core =>
    obtain ⟨rfl, rfl⟩ := Prod.mk.inj (Option.some.inj h)
    rw [spellCores_nil, List.append_nil]
  | case2 => cases h
  | case3 core c rest next hvowel after others hread ih =>
    obtain ⟨rfl, rfl⟩ := Prod.mk.inj (Option.some.inj h)
    rw [spellCores_cons, ih hread, spell_of_vowel? hvowel, List.singleton_append]
  | case4 => cases h
  | case5 core c rest hno longer hextend ih =>
    rw [ih h, spell_of_extend? hextend, List.append_assoc, List.singleton_append]
  | case6 => cases h

theorem spellCores_of_readCores? {first : Core} {more : List Core} {text : List Char}
    (h : readCores? text = some (first, more)) : spellCores first more = text := by
  cases text with
  | nil => cases h
  | cons c rest =>
    rw [readCores?] at h
    split at h
    · rename_i vowel hvowel
      rw [spellCores_of_readAfter h, spell_of_vowel? hvowel, List.singleton_append]
    · cases h

theorem spell_of_read? {text : List Char} {name : Name} (h : Name.read? text = some name) :
    name.spell = text := by
  unfold Name.read? at h
  split at h
  · rename_i first more hcores
    obtain rfl := Option.some.inj h
    exact spellCores_of_readCores? hcores
  · split at h
    · cases h
    · rename_i letter rest
      split at h
      · split at h
        · rename_i first more hcores
          obtain rfl := Option.some.inj h
          rw [Name.spell, spellCores_of_readCores? hcores, List.singleton_append]
        · cases h
      · cases h

/-! ### A spelling can be read -/

section

variable {core vowel longer first : Core} {more : List Core} {c letter : Char}
  {text rest : List Char}

theorem readCores?_cons (h : vowel? c = some vowel) :
    readCores? (c :: rest) = readAfter vowel rest := by
  rw [readCores?, h]

/-- A letter other than `h` has to go on with the core. -/
theorem readAfter_extend (hc : c ≠ 'h') (h : core.extend? c = some longer) :
    readAfter core (c :: rest) = readAfter longer rest := by
  rw [readAfter, h]
  exact fun _ _ hh _ => hc hh

theorem readAfter_eq_none (hc : c ≠ 'h') (h : core.extend? c = none) :
    readAfter core (c :: rest) = none := by
  rw [readAfter, h]
  exact fun _ _ hh _ => hc hh

/-- After an `h` the next core begins. -/
theorem readAfter_h (h : readCores? text = some (first, more)) :
    readAfter core ('h' :: text) = some (core, first :: more) := by
  cases text with
  | nil => cases h
  | cons c rest =>
    cases hvowel : vowel? c with
    | none => simp [readCores?, hvowel] at h
    | some vowel =>
      rw [readCores?_cons hvowel] at h
      simp [readAfter, hvowel, h]

/-- A core is read as a whole, whatever stands behind it. -/
theorem readCores?_spell_append (core : Core) (rest : List Char) :
    readCores? (core.spell ++ rest) = readAfter core rest := by
  rcases core.spell_cases with ⟨c, hvowel, hspell⟩ | ⟨c, d, vowel, hvowel, hextend, hd, hspell⟩
  · rw [hspell, List.singleton_append, readCores?_cons hvowel]
  · rw [hspell, List.cons_append, List.singleton_append, readCores?_cons hvowel,
      readAfter_extend hd hextend]

theorem readCores?_spellCores (first : Core) (more : List Core) :
    readCores? (spellCores first more) = some (first, more) := by
  induction more generalizing first with
  | nil =>
    rw [spellCores_nil, ← List.append_nil first.spell, readCores?_spell_append]
    rfl
  | cons next more ih =>
    rw [spellCores_cons, readCores?_spell_append]
    exact readAfter_h (ih next)

/-! ### A leading letter is no core -/

/-- Cores begin with a letter that is no `h`. -/
theorem exists_spellCores_eq_cons (first : Core) (more : List Core) :
    ∃ c rest, c ≠ 'h' ∧ spellCores first more = c :: rest := by
  cases first <;> exact ⟨_, _, by decide, rfl⟩

/-- The letters `I` and `U` can lead and are cores, but no diphthong begins with them. -/
theorem extend?_of_mem_leadLetters (hletter : letter ∈ leadLetters)
    (hvowel : vowel? letter = some core) (c : Char) : core.extend? c = none := by
  unfold vowel? at hvowel
  split at hvowel
  · exact absurd hletter (by decide)
  · exact absurd hletter (by decide)
  · cases hvowel
    rfl
  · exact absurd hletter (by decide)
  · cases hvowel
    rfl
  · exact absurd hletter (by decide)
  · cases hvowel

/-- So a leading letter and the cores after it are not all cores. -/
theorem readCores?_lead (h : letter ∈ leadLetters) (first : Core) (more : List Core) :
    readCores? (letter :: spellCores first more) = none := by
  cases hvowel : vowel? letter with
  | none => rw [readCores?, hvowel]
  | some core =>
    obtain ⟨c, rest, hc, heq⟩ := exists_spellCores_eq_cons first more
    rw [readCores?_cons hvowel, heq]
    exact readAfter_eq_none hc (extend?_of_mem_leadLetters h hvowel c)

end

/-! ### Names -/

/-- Reading what has been spelled gives the name back. -/
theorem read?_spell (name : Name) : Name.read? name.spell = some name := by
  obtain ⟨lead, first, more⟩ := name
  cases lead with
  | none => simp [Name.spell, Name.read?, readCores?_spellCores]
  | some letter =>
    obtain ⟨letter, hletter⟩ := letter
    simp [Name.spell, Name.read?, readCores?_lead hletter, readCores?_spellCores, hletter]

theorem read?_eq_some_iff {text : List Char} {name : Name} :
    Name.read? text = some name ↔ name.spell = text := by
  constructor
  · exact spell_of_read?
  · rintro rfl
    exact read?_spell name

/-- The leading letter, or that there is none, and the cores can be told from the spelling. -/
theorem spell_injective : Function.Injective Name.spell := by
  intro name other h
  apply Option.some.inj
  rw [← read?_spell name, h, read?_spell other]

theorem isName_iff {text : Text} :
    isName text = true ↔ ∃ name : Name, name.spell.map .char = text.toList := by
  unfold isName
  constructor
  · intro h
    split at h
    · rename_i chars hchars
      obtain ⟨name, hname⟩ := Option.isSome_iff_exists.mp h
      refine ⟨name, ?_⟩
      rw [← Text.chars?_eq_some_iff.mp hchars, read?_eq_some_iff.mp hname]
    · cases h
  · rintro ⟨name, hname⟩
    simp only [Text.chars?_eq_some_iff.mpr hname, read?_spell, Option.isSome_some]

/-- **A text names a selma'o exactly when it is spelled as one**, by a leading letter or none, a
core, and any number of cores with an `h` before each; and no text is spelled so in two ways. -/
theorem isName_iff_spelling (text : Text) :
    (isName text = true ↔ ∃ name : Name, name.spell.map .char = text.toList) ∧
      (isName text = true ↔ ∃! name : Name, name.spell.map .char = text.toList) := by
  refine ⟨isName_iff, ?_⟩
  rw [isName_iff]
  constructor
  · rintro ⟨name, hname⟩
    refine ⟨name, hname, fun other hother => spell_injective ?_⟩
    exact (List.map_inj_right fun _ _ => CodePoint.char.inj).mp (hother.trans hname.symm)
  · exact ExistsUnique.exists

example : isName "KOhA" = true := by decide
example : isName "IAI" = true := by decide
example : isName "AE" = false := by decide
example : isName "KOhAh" = false := by decide

end LojbanTree.Selmaho
