import LojbanTree.Json.Reader
import LojbanTree.Tree.Encoding

/-!
Reading the JSON text of a tree.

The scanner turns the JSON text of a list form into its tokens, whatever the layout, since what a
layout puts between tokens is blank; the reader turns the tokens into the value. Main statement:
reading the JSON text of a tree in any layout gives the value of the tree (`read_encode`).
-/

namespace LojbanTree

open Json

/-! ### Scanning a text between quotes -/

namespace Json.Token

theorem scanFrom_of_step {mode next : Mode} {c : CodePoint} {tokens : List Token}
    (rest : List CodePoint) (h : step mode c = (tokens, some next)) :
    scanFrom mode (c :: rest) = tokens ++ scanFrom next rest := by
  rw [scanFrom, h]

/-- One more code point of a text has been read, with nothing to show for it yet. -/
theorem scanFrom_of_silent {mode next : Mode} {c : CodePoint} (rest : List CodePoint)
    (h : step mode c = ([], some next)) : scanFrom mode (c :: rest) = scanFrom next rest :=
  scanFrom_of_step rest h

section

variable {next : Nat → Nat → Mode} {done : Nat → Mode}

theorem digitStep_digitChar {missing value digit : Nat} (hdigit : digit < 16) :
    digitStep missing value next done (Nat.digitChar digit) =
      ([], some (if missing = 1 then done (value * 16 + digit)
        else next (missing - 1) (value * 16 + digit))) := by
  rw [digitStep, Text.hexValue?_digitChar hdigit]

/-- Four digits are the code unit that they are written for. -/
theorem scanFrom_hexDigits
    (hstep : ∀ missing value (c : Char),
      step (next missing value) c = digitStep missing value next done c)
    {unit : Nat} (hunit : unit < 0x10000) (rest : List CodePoint) :
    scanFrom (next 4 0) ((Text.hexDigits 4 unit).map .char ++ rest) =
      scanFrom (done unit) rest := by
  have digits : Text.hexDigits 4 unit =
      [Nat.digitChar (unit / 16 / 16 / 16 % 16), Nat.digitChar (unit / 16 / 16 % 16),
        Nat.digitChar (unit / 16 % 16), Nat.digitChar (unit % 16)] := rfl
  have step (missing value digit : Nat) (hdigit : digit < 16) :=
    (hstep missing value _).trans (digitStep_digitChar hdigit)
  have value : (((0 * 16 + unit / 16 / 16 / 16 % 16) * 16 + unit / 16 / 16 % 16) * 16 +
      unit / 16 % 16) * 16 + unit % 16 = unit := by omega
  rw [digits]
  simp only [List.map_cons, List.map_nil, List.cons_append, List.nil_append]
  rw [scanFrom_of_silent _ (step 4 _ _ (Nat.mod_lt _ (by decide))), if_neg (by decide),
    scanFrom_of_silent _ (step 3 _ _ (Nat.mod_lt _ (by decide))), if_neg (by decide),
    scanFrom_of_silent _ (step 2 _ _ (Nat.mod_lt _ (by decide))), if_neg (by decide),
    scanFrom_of_silent _ (step 1 _ _ (Nat.mod_lt _ (by decide))), if_pos rfl, value]

end

/-- A code unit by its number, after a backslash. -/
theorem scanFrom_unit {unit : Nat} (hunit : unit < 0x10000) (seen rest : List CodePoint) :
    scanFrom (.text seen)
        (.char '\\' :: .char 'u' :: ((Text.hexDigits 4 unit).map .char ++ rest)) =
      scanFrom (unitMode seen unit) rest := by
  have hslash : step (.text seen) '\\' = ([], some (.escape seen)) := rfl
  have hletter : step (.escape seen) 'u' = ([], some (.unit seen 4 0)) := rfl
  rw [scanFrom_of_silent _ hslash, scanFrom_of_silent _ hletter,
    scanFrom_hexDigits (fun _ _ _ => rfl) hunit]

/-- A code unit below the halves of pairs is a character. -/
theorem unitMode_toNat {c : Char} (h : c.toNat < 0xD800) (seen : List CodePoint) :
    unitMode seen c.toNat = .text (.char c :: seen) := by
  have hhigh : ¬0xD800 ≤ c.toNat := by omega
  simp [unitMode, isHigh, CodePoint.ofNat, hhigh]

/-- A letter after a backslash gives the character it stands for back. -/
theorem scanFrom_letter {letter c : Char} (h : escaped? letter = some c) (hu : letter ≠ 'u')
    (seen rest : List CodePoint) :
    scanFrom (.text seen) (.char '\\' :: .char letter :: rest) =
      scanFrom (.text (.char c :: seen)) rest := by
  have hslash : step (.text seen) '\\' = ([], some (.escape seen)) := rfl
  have hletter : step (.escape seen) letter = ([], some (.text (.char c :: seen))) := by
    simp [step, escapeStep, hu, h]
  rw [scanFrom_of_silent _ hslash, scanFrom_of_silent _ hletter]

/-- A code point that needs no backslash stands for itself. -/
theorem scanFrom_plain {c : CodePoint} (hquote : c ≠ '"') (hslash : c ≠ '\\')
    (hlow : ¬c.toNat < 0x20) (seen rest : List CodePoint) :
    scanFrom (.text seen) (c :: rest) = scanFrom (.text (c :: seen)) rest := by
  have hstep : step (.text seen) c = ([], some (.text (c :: seen))) := by
    simp [step, textStep, hquote, hslash, hlow]
  exact scanFrom_of_silent _ hstep

/-- Low numbers are those of characters. -/
theorem exists_char_of_toNat_lt {c : CodePoint} (h : c.toNat < 0xD800) : ∃ d : Char, c = d := by
  cases c with
  | char d => exact ⟨d, rfl⟩
  | surrogate place =>
    rw [CodePoint.toNat] at h
    omega

/-- However a code point is written, it is the next one of the text. -/
theorem scanFrom_escapeChar (c : CodePoint) (seen rest : List CodePoint) :
    scanFrom (.text seen) (escapeChar c ++ rest) = scanFrom (.text (c :: seen)) rest := by
  unfold escapeChar
  split
  case h_8 hquote hslash _ _ _ _ _ =>
    split
    case isTrue hlow =>
      obtain ⟨d, rfl⟩ := exists_char_of_toNat_lt (Nat.lt_trans hlow (by decide))
      have hunit : d.toNat < 0x20 := hlow
      rw [← unitMode_toNat (by omega), ← scanFrom_unit (by omega)]
      rfl
    case isFalse hlow => exact scanFrom_plain hquote hslash hlow seen rest
  all_goals exact scanFrom_letter rfl (by decide) seen rest

/-- A text between quotes is one token. -/
theorem scanFrom_quoteText (text : Text) (rest : List CodePoint) :
    scanFrom .between (quoteText text ++ rest) = .str text :: scanFrom .between rest := by
  have letters : ∀ points seen : List CodePoint,
      scanFrom (.text seen) (points.flatMap escapeChar ++ .char '"' :: rest) =
        .str (.ofList (seen.reverse ++ points)) :: scanFrom .between rest := by
    intro points
    induction points with
    | nil =>
      intro seen
      have hclose : step (.text seen) '"' =
          ([.str (.ofList seen.reverse)], some .between) := rfl
      rw [List.flatMap_nil, List.nil_append, scanFrom_of_step _ hclose, List.append_nil,
        List.singleton_append]
    | cons c points ih =>
      intro seen
      rw [List.flatMap_cons, List.append_assoc, scanFrom_escapeChar, ih, List.reverse_cons,
        List.append_assoc, List.singleton_append]
  have hopen : step .between '"' = ([], some (.text [])) := rfl
  rw [quoteText, List.cons_append, List.append_assoc, List.singleton_append,
    scanFrom_of_silent _ hopen, letters, List.reverse_nil, List.nil_append]

/-! ### Scanning nested lists -/

/-- A character that is a token by itself. -/
theorem scanFrom_delimiter {c : CodePoint} {token : Token}
    (h : step .between c = ([token], some .between)) (rest : List CodePoint) :
    scanFrom .between (c :: rest) = token :: scanFrom .between rest := by
  rw [scanFrom_of_step rest h, List.singleton_append]

/-- Blanks between tokens leave no trace. -/
theorem scanFrom_blanks {blanks : List CodePoint} (h : ∀ c ∈ blanks, c.isChar isBlank = true)
    (rest : List CodePoint) : scanFrom .between (blanks ++ rest) = scanFrom .between rest := by
  induction blanks with
  | nil => rw [List.nil_append]
  | cons c blanks ih =>
    obtain ⟨hc, hblanks⟩ := List.forall_mem_cons.mp h
    have hstep : step .between c = ([], some .between) := by
      cases c with
      | char d => exact if_pos hc
      | surrogate place => cases hc
    rw [List.cons_append, scanFrom_of_silent _ hstep, ih hblanks]

/-- What a layout puts before an item is blank. -/
theorem isBlank_of_mem_gap {layout : Layout} {depth : Nat} {c : CodePoint}
    (h : c ∈ layout.gap depth) : c.isChar isBlank = true := by
  cases layout with
  | compact => cases h
  | indented width =>
    rcases List.mem_cons.mp h with rfl | h
    · rfl
    · rw [List.eq_of_mem_replicate h]
      rfl

theorem scanFrom_gap (layout : Layout) (depth : Nat) (rest : List CodePoint) :
    scanFrom .between (layout.gap depth ++ rest) = scanFrom .between rest :=
  scanFrom_blanks (fun _ h => isBlank_of_mem_gap h) rest

end Json.Token

namespace ListForm

mutual

/-- The tokens of a list form's JSON text. -/
def tokens : ListForm → List Token
  | .text s => [.str s]
  | .list [] => [.openBracket, .closeBracket]
  | .list (first :: rest) => .openBracket :: (tokens first ++ tokensRest rest)

/-- The tokens of the items after the first, and of the closing bracket. -/
def tokensRest : List ListForm → List Token
  | [] => [.closeBracket]
  | item :: rest => .comma :: (tokens item ++ tokensRest rest)

end

section Scanning

open Token

variable {layout : Layout}

/-- The scanner finds the tokens of a list form in its JSON text at every depth. -/
def Scans (layout : Layout) (form : ListForm) : Prop :=
  ∀ (depth : Nat) (after : List CodePoint),
    scanFrom .between (form.encodeAt layout depth ++ after) =
      form.tokens ++ scanFrom .between after

theorem step_openBracket : step .between '[' = ([.openBracket], some .between) := rfl

theorem step_closeBracket : step .between ']' = ([.closeBracket], some .between) := rfl

theorem step_comma : step .between ',' = ([.comma], some .between) := rfl

/-- The items after the first are scanned one by one, then the closing bracket. -/
theorem scanFrom_encodeRest {items : List ListForm} (each : ∀ item ∈ items, item.Scans layout)
    (depth : Nat) (after : List CodePoint) :
    scanFrom .between (encodeRest layout depth items ++ after) =
      tokensRest items ++ scanFrom .between after := by
  induction items with
  | nil =>
    rw [encodeRest, tokensRest, List.append_assoc, List.singleton_append, scanFrom_gap,
      scanFrom_delimiter step_closeBracket, List.singleton_append]
  | cons item items ih =>
    obtain ⟨hitem, heach⟩ := List.forall_mem_cons.mp each
    rw [encodeRest, tokensRest, List.cons_append, scanFrom_delimiter step_comma,
      List.append_assoc, List.append_assoc, scanFrom_gap, hitem, ih heach, List.cons_append,
      List.append_assoc]

/-- **The scanner finds the tokens of a list form in its JSON text**, in every layout. -/
theorem scans (layout : Layout) (form : ListForm) : form.Scans layout := by
  induction form with
  | text s =>
    intro depth after
    rw [encodeAt, tokens, scanFrom_quoteText, List.singleton_append]
  | list items ih =>
    intro depth after
    cases items with
    | nil =>
      rw [encodeAt, tokens, List.cons_append, List.singleton_append,
        scanFrom_delimiter step_openBracket, scanFrom_delimiter step_closeBracket,
        List.cons_append, List.singleton_append]
    | cons first rest =>
      obtain ⟨hfirst, hrest⟩ := List.forall_mem_cons.mp ih
      rw [encodeAt, tokens, List.cons_append, scanFrom_delimiter step_openBracket,
        List.append_assoc, List.append_assoc, scanFrom_gap, hfirst, scanFrom_encodeRest hrest,
        List.cons_append, List.append_assoc]

end Scanning

/-! ### Reading nested lists -/

section Reading

variable {stack : List Reader.Frame} {after : List Token}

/-- The reader goes on after a token that fits. -/
theorem run_of_step {state next : Reader.State} {token : Token}
    (h : Reader.step state token = .ok next) :
    Reader.run state (token :: after) = Reader.run next after := by
  cases state <;> simp only [Reader.run, h]

/-- The first item of an array is read like any other value. -/
theorem run_firstItem (form : ListForm) :
    Reader.run (.firstItem stack) (form.tokens ++ after) =
      Reader.run (.value (.array [] :: stack)) (form.tokens ++ after) := by
  cases form with
  | text s => rfl
  | list items =>
    cases items with
    | nil => rfl
    | cons first rest => rfl

/-- The reader gives a list form back from its tokens, whatever is around it. -/
def Reads (form : ListForm) : Prop :=
  ∀ (stack : List Reader.Frame) (after : List Token),
    Reader.run (.value stack) (form.tokens ++ after) =
      Reader.run (.complete form.toJson stack) after

/-- The items after the first are read with the value before them still to be put away. -/
theorem run_tokensRest {items : List ListForm} (each : ∀ item ∈ items, item.Reads) (value : Json)
    (seen : List Json) :
    Reader.run (.complete value (.array seen :: stack)) (tokensRest items ++ after) =
      Reader.run (.complete (.arr ((value :: seen).reverse ++ toJsonAll items)) stack) after := by
  induction items generalizing value seen with
  | nil =>
    have hclose : Reader.step (.complete value (.array seen :: stack)) .closeBracket =
        .ok (.complete (.arr (value :: seen).reverse) stack) := rfl
    rw [tokensRest, List.singleton_append, run_of_step hclose, toJsonAll, List.append_nil]
  | cons item items ih =>
    obtain ⟨hitem, heach⟩ := List.forall_mem_cons.mp each
    have hcomma : Reader.step (.complete value (.array seen :: stack)) .comma =
        .ok (.value (.array (value :: seen) :: stack)) := rfl
    rw [tokensRest, List.cons_append, run_of_step hcomma, List.append_assoc, hitem, ih heach,
      toJsonAll, List.reverse_cons, List.append_assoc, List.singleton_append]

/-- **The reader gives every list form back from its tokens.** -/
theorem reads (form : ListForm) : form.Reads := by
  induction form with
  | text s =>
    intro stack after
    rfl
  | list items ih =>
    intro stack after
    cases items with
    | nil => rfl
    | cons first rest =>
      obtain ⟨hfirst, hrest⟩ := List.forall_mem_cons.mp ih
      have hopen : Reader.step (.value stack) .openBracket = .ok (.firstItem stack) := rfl
      rw [tokens, List.cons_append, run_of_step hopen, List.append_assoc, run_firstItem, hfirst,
        run_tokensRest hrest, toJson, toJsonAll, List.reverse_singleton, List.singleton_append]

end Reading

/-- The value of a list form is that list form. -/
@[simp] theorem ofJson_toJson (form : ListForm) : ofJson form.toJson = .ok form := by
  induction form with
  | text s => rw [toJson, ofJson]
  | list items ih =>
    have all : ∀ forms : List ListForm, (∀ form ∈ forms, ofJson form.toJson = .ok form) →
        ofJsonAll (toJsonAll forms) = .ok forms := by
      intro forms
      induction forms with
      | nil =>
        intro _
        rw [toJsonAll, ofJsonAll]
      | cons form forms ihForms =>
        intro h
        obtain ⟨hform, hforms⟩ := List.forall_mem_cons.mp h
        simp only [toJsonAll, ofJsonAll, hform, ihForms hforms]
    simp only [toJson, ofJson, all items ih]

/-- Reading a list form's JSON text gives its value. -/
theorem read_encodeAt (layout : Layout) (form : ListForm) :
    Json.read (.ofList (form.encodeAt layout 0)) = .ok form.toJson := by
  have scanned : Token.scan (form.encodeAt layout 0) = form.tokens ++ [] := by
    have h := scans layout form 0 []
    rw [List.append_nil] at h
    exact h
  rw [Json.read, scanned, reads]
  rfl

end ListForm

/-- **Reading the JSON text of a tree gives the value of the tree**, in every layout. -/
theorem Tree.read_encode (layout : Layout) (tree : Tree) :
    Json.read (tree.encode layout) = .ok tree.toJson :=
  ListForm.read_encodeAt layout tree.toListForm

end LojbanTree
