import LojbanTree.Proofs.Json.RoundTrip

/-!
Texts by code units.

A text may name its code units one by one, four hexadecimal digits each. Two halves of a pair that
follow each other make up one code point, and every other unit is a code point of its own, a half
without the other included. Main statement: any row of code units is read so (`read_unitText`).
-/

namespace LojbanTree.Json

open Token

/-- The code points of a row of code units. -/
def pairUp : List Nat → List CodePoint
  | [] => []
  | [unit] => [.ofNat unit]
  | unit :: next :: rest =>
    if isHigh unit && isLow next then ofPair unit next :: pairUp rest
    else .ofNat unit :: pairUp (next :: rest)

/-- Code units, each written by its number. -/
def writtenUnits (units : List Nat) : List CodePoint :=
  units.flatMap fun unit => .char '\\' :: .char 'u' :: (Text.hexDigits 4 unit).map .char

/-- The JSON text of code units. -/
def unitText (units : List Nat) : Text :=
  .ofList (.char '"' :: (writtenUnits units ++ [.char '"']))

theorem pairUp_of_not_high {unit : Nat} (h : isHigh unit = false) (rest : List Nat) :
    pairUp (unit :: rest) = .ofNat unit :: pairUp rest := by
  cases rest with
  | nil => rfl
  | cons next rest => simp [pairUp, h]

theorem pairUp_of_low {high low : Nat} (hhigh : isHigh high = true) (hlow : isLow low = true)
    (rest : List Nat) : pairUp (high :: low :: rest) = ofPair high low :: pairUp rest := by
  simp [pairUp, hhigh, hlow]

theorem pairUp_of_not_low {unit : Nat} (h : isLow unit = false) (high : Nat) (rest : List Nat) :
    pairUp (high :: unit :: rest) = .ofNat high :: pairUp (unit :: rest) := by
  simp [pairUp, h]

theorem writtenUnits_cons (unit : Nat) (units : List Nat) (rest : List CodePoint) :
    writtenUnits (unit :: units) ++ rest =
      .char '\\' :: .char 'u' ::
        ((Text.hexDigits 4 unit).map .char ++ (writtenUnits units ++ rest)) := by
  simp [writtenUnits]

namespace Token

/-- A code unit by its number, after the first half of a pair. -/
theorem scanFrom_halfUnit {unit : Nat} (hunit : unit < 0x10000) (seen : List CodePoint) (high : Nat)
    (rest : List CodePoint) :
    scanFrom (.half seen high)
        (.char '\\' :: .char 'u' :: ((Text.hexDigits 4 unit).map .char ++ rest)) =
      scanFrom (halfMode seen high unit) rest := by
  have hslash : step (.half seen high) '\\' = ([], some (.halfEscape seen high)) := rfl
  have hletter : step (.halfEscape seen high) 'u' = ([], some (.halfUnit seen high 4 0)) := rfl
  rw [scanFrom_of_silent _ hslash, scanFrom_of_silent _ hletter,
    scanFrom_hexDigits (fun _ _ _ => rfl) hunit]

/-- Code units are read as they pair up, whether the last before them was the first half of a pair
or not. By induction on the units. -/
theorem scanFrom_writtenUnits {units : List Nat} (hunits : ∀ unit ∈ units, unit < 0x10000)
    (rest : List CodePoint) :
    (∀ seen, scanFrom (.text seen) (writtenUnits units ++ .char '"' :: rest) =
        .str (.ofList (seen.reverse ++ pairUp units)) :: scanFrom .between rest) ∧
      ∀ seen high, isHigh high = true →
        scanFrom (.half seen high) (writtenUnits units ++ .char '"' :: rest) =
          .str (.ofList (seen.reverse ++ pairUp (high :: units))) :: scanFrom .between rest := by
  induction units with
  | nil =>
    constructor
    · intro seen
      have hquote : step (.text seen) '"' =
          ([.str (.ofList seen.reverse)], some .between) := rfl
      rw [pairUp, List.append_nil]
      exact scanFrom_of_step rest hquote
    · intro seen high _
      have hquote : step (.half seen high) '"' =
          ([.str (.ofList (CodePoint.ofNat high :: seen).reverse)], some .between) := rfl
      rw [pairUp, ← List.reverse_cons]
      exact scanFrom_of_step rest hquote
  | cons unit units ih =>
    obtain ⟨hunit, hothers⟩ := List.forall_mem_cons.mp hunits
    obtain ⟨ihText, ihHalf⟩ := ih hothers
    have whole (seen : List CodePoint) :
        scanFrom (unitMode seen unit) (writtenUnits units ++ .char '"' :: rest) =
          .str (.ofList (seen.reverse ++ pairUp (unit :: units))) :: scanFrom .between rest := by
      unfold unitMode
      split
      · next hhigh => exact ihHalf seen unit hhigh
      · next hhigh =>
        rw [ihText, pairUp_of_not_high (by simpa using hhigh), List.reverse_cons,
          List.append_assoc, List.singleton_append]
    constructor
    · intro seen
      rw [writtenUnits_cons, scanFrom_unit hunit]
      exact whole seen
    · intro seen high hhigh
      rw [writtenUnits_cons, scanFrom_halfUnit hunit]
      unfold halfMode
      split
      · next hlow =>
        rw [ihText, pairUp_of_low hhigh hlow, List.reverse_cons, List.append_assoc,
          List.singleton_append]
      · next hlow =>
        rw [whole, pairUp_of_not_low (by simpa using hlow), List.reverse_cons,
          List.append_assoc, List.singleton_append]

end Token

/-- **Any row of code units is read as it pairs up.** -/
theorem read_unitText {units : List Nat} (hunits : ∀ unit ∈ units, unit < 0x10000) :
    read (unitText units) = .ok (.str (.ofList (pairUp units))) := by
  have hscan : scan (unitText units).toList = [.str (.ofList (pairUp units))] := by
    have hopen : step .between '"' = ([], some (.text [])) := rfl
    rw [scan, unitText, scanFrom_of_silent _ hopen, (scanFrom_writtenUnits hunits []).1]
    rfl
  rw [read, hscan]
  rfl

/-- A half that stands alone, and a pair. -/
example : pairUp [0xD800, 0xD83D, 0xDE00] = [.surrogate 0, .char '😀'] := by
  decide

end LojbanTree.Json
