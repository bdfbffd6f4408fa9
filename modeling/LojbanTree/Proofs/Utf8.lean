import LojbanTree.Text.Utf8
import Mathlib.Data.List.Basic

/-!
Reading bytes back.

The bytes of a character tell which character it is and how many they are. Main statement: bytes
are read as a text exactly when the text is written in these bytes (`decode_eq_ok_iff`), so no
character is read that is written in more bytes than it needs, and no surrogate.
-/

namespace LojbanTree.Utf8

variable {position : Nat} {pending : Pending} {bytes : List UInt8} {points : List CodePoint}

/-! ### The bytes of a character -/

/-- The numbers of characters. -/
theorem toNat_lt (c : Char) : c.toNat < 0xD800 ∨ 0xDFFF < c.toNat ∧ c.toNat < 0x110000 := by
  have hvalid := c.valid
  simpa [UInt32.isValidChar, Nat.isValidChar] using hvalid

/-- The bytes of a character by its number. -/
theorem utf8EncodeChar_eq (c : Char) :
    String.utf8EncodeChar c =
      if c.toNat < 0x80 then [.ofNat c.toNat]
      else if c.toNat < 0x800 then [.ofNat (0xC0 + c.toNat / 0x40), .ofNat (0x80 + c.toNat % 0x40)]
      else if c.toNat < 0x10000 then
        [.ofNat (0xE0 + c.toNat / 0x1000), .ofNat (0x80 + c.toNat / 0x40 % 0x40),
          .ofNat (0x80 + c.toNat % 0x40)]
      else
        [.ofNat (0xF0 + c.toNat / 0x40000), .ofNat (0x80 + c.toNat / 0x1000 % 0x40),
          .ofNat (0x80 + c.toNat / 0x40 % 0x40), .ofNat (0x80 + c.toNat % 0x40)] := by
  have hlt := toNat_lt c
  have hval : c.val.toNat = c.toNat := rfl
  simp only [String.utf8EncodeChar, hval]
  by_cases hone : c.toNat < 0x80
  · rw [if_pos (by omega), if_pos hone]
  by_cases htwo : c.toNat < 0x800
  · have hlead : c.toNat / 64 % 32 + 192 = 0xC0 + c.toNat / 0x40 := by omega
    rw [if_neg (by omega), if_pos (by omega), if_neg hone, if_pos htwo, hlead, Nat.add_comm 0x80]
  by_cases hthree : c.toNat < 0x10000
  · have hlead : c.toNat / 4096 % 16 + 224 = 0xE0 + c.toNat / 0x1000 := by omega
    rw [if_neg (by omega), if_neg (by omega), if_pos (by omega), if_neg hone, if_neg htwo,
      if_pos hthree, hlead, Nat.add_comm 0x80, Nat.add_comm 0x80]
  · have hlead : c.toNat / 262144 % 8 + 240 = 0xF0 + c.toNat / 0x40000 := by omega
    rw [if_neg (by omega), if_neg (by omega), if_neg (by omega), if_neg hone, if_neg htwo,
      if_neg hthree, hlead, Nat.add_comm 0x80, Nat.add_comm 0x80, Nat.add_comm 0x80]

theorem toNat_ofNat_of_lt {n : Nat} (h : n < 0x100) : (UInt8.ofNat n).toNat = n := by
  rw [UInt8.toNat_ofNat']
  omega

/-- A byte is a number added to a lower byte. -/
theorem exists_eq_ofNat_add {byte : UInt8} {low : Nat} (h : low ≤ byte.toNat) :
    ∃ k, byte.toNat = low + k ∧ byte = .ofNat (low + k) := by
  have hbyte := byte.toNat_lt
  refine ⟨byte.toNat - low, by omega, ?_⟩
  rw [← UInt8.toNat_inj, toNat_ofNat_of_lt (by omega)]
  omega

theorem map_eq_ok_iff {ε α β : Type} {result : Except ε α} {f : α → β} {b : β} :
    result.map f = .ok b ↔ ∃ a, result = .ok a ∧ f a = b := by
  cases result <;> simp [Except.map]

/-! ### Bytes after the first -/

/-- A byte with six bits of a character that it does not begin. -/
def tailByte (bits : Nat) : UInt8 :=
  .ofNat (0x80 + bits)

theorem toNat_tailByte {bits : Nat} (h : bits < 0x40) : (tailByte bits).toNat = 0x80 + bits := by
  have hlt : 0x80 + bits < 0x100 := by omega
  exact toNat_ofNat_of_lt hlt

/-- Every byte from 80 to BF is of this kind. -/
theorem exists_tailByte {byte : UInt8} (hlow : 0x80 ≤ byte.toNat) (hhigh : byte.toNat ≤ 0xBF) :
    ∃ bits < 0x40, byte = tailByte bits := by
  obtain ⟨bits, hbits, hbyte⟩ := exists_eq_ofNat_add hlow
  exact ⟨bits, by omega, hbyte⟩

/-- The number that bits stand for, with more bits after them. -/
def withBits (value : Nat) (bits : List Nat) : Nat :=
  bits.foldl (fun value six => value * 0x40 + six) value

/-- With these bits the character is complete. -/
structure Completes (pending : Pending) (first : Nat) (others : List Nat) : Prop where
  length : others.length = pending.owed
  low : pending.low ≤ 0x80 + first
  high : 0x80 + first ≤ pending.high
  six : ∀ bits ∈ first :: others, bits < 0x40

theorem valueWith_tailByte {bits : Nat} (h : bits < 0x40) :
    pending.valueWith (tailByte bits) = pending.value * 0x40 + bits := by
  have htail := toNat_tailByte h
  unfold Pending.valueWith
  omega

/-- Reading before the last byte of a character. -/
theorem decodeFrom_last_iff (howed : pending.owed = 0) :
    decodeFrom position (some pending) bytes = .ok points ↔
      ∃ byte rest more, bytes = byte :: rest ∧ pending.low ≤ byte.toNat ∧
        byte.toNat ≤ pending.high ∧ points = .char (.ofNat (pending.valueWith byte)) :: more ∧
        decodeFrom (position + 1) none rest = .ok more := by
  constructor
  · intro h
    cases bytes with
    | nil => cases h
    | cons byte rest =>
      rw [decodeFrom, howed] at h
      split at h
      · next hbounds =>
        obtain ⟨more, hmore, rfl⟩ := map_eq_ok_iff.mp h
        exact ⟨byte, rest, more, rfl, hbounds.1, hbounds.2, rfl, hmore⟩
      · cases h
  · rintro ⟨byte, rest, more, rfl, hlow, hhigh, rfl, hmore⟩
    rw [decodeFrom, if_pos ⟨hlow, hhigh⟩, howed]
    exact map_eq_ok_iff.mpr ⟨more, hmore, rfl⟩

/-- Reading before another byte of a character. -/
theorem decodeFrom_more_iff {owed : Nat} (howed : pending.owed = owed + 1) :
    decodeFrom position (some pending) bytes = .ok points ↔
      ∃ byte rest, bytes = byte :: rest ∧ pending.low ≤ byte.toNat ∧
        byte.toNat ≤ pending.high ∧
        decodeFrom (position + 1) (some (pending.take byte owed)) rest = .ok points := by
  constructor
  · intro h
    cases bytes with
    | nil => cases h
    | cons byte rest =>
      rw [decodeFrom, howed] at h
      split at h
      · next hbounds => exact ⟨byte, rest, rfl, hbounds.1, hbounds.2, h⟩
      · cases h
  · rintro ⟨byte, rest, rfl, hlow, hhigh, hmore⟩
    rw [decodeFrom, if_pos ⟨hlow, hhigh⟩, howed]
    exact hmore

/-- Reading in the middle of a character comes to a text exactly when it is completed and the rest
comes to the rest of the text. By induction on how many bytes are missing. -/
theorem decodeFrom_pending_iff (hlow : 0x80 ≤ pending.low) (hhigh : pending.high ≤ 0xBF) :
    decodeFrom position (some pending) bytes = .ok points ↔
      ∃ first others rest more, Completes pending first others ∧
        bytes = (first :: others).map tailByte ++ rest ∧
        points = .char (.ofNat (withBits pending.value (first :: others))) :: more ∧
        decodeFrom (position + others.length + 1) none rest = .ok more := by
  induction howed : pending.owed generalizing position pending bytes with
  | zero =>
    rw [decodeFrom_last_iff howed]
    constructor
    · rintro ⟨byte, rest, more, rfl, hbyte, hbyte', rfl, hrest⟩
      obtain ⟨bits, hbits, rfl⟩ :=
        exists_tailByte (Nat.le_trans hlow hbyte) (Nat.le_trans hbyte' hhigh)
      rw [toNat_tailByte hbits] at hbyte hbyte'
      refine ⟨bits, [], rest, more, ⟨howed.symm, hbyte, hbyte', ?_⟩, rfl, ?_, hrest⟩
      · simpa using hbits
      · rw [valueWith_tailByte hbits]
        rfl
    · rintro ⟨first, others, rest, more, hcompletes, rfl, rfl, hrest⟩
      obtain rfl : others = [] := List.eq_nil_of_length_eq_zero (hcompletes.length.trans howed)
      have hbits := hcompletes.six first List.mem_cons_self
      refine ⟨tailByte first, rest, more, rfl, ?_, ?_, ?_, hrest⟩
      · rw [toNat_tailByte hbits]
        exact hcompletes.low
      · rw [toNat_tailByte hbits]
        exact hcompletes.high
      · rw [valueWith_tailByte hbits]
        rfl
  | succ owed ih =>
    rw [decodeFrom_more_iff howed]
    constructor
    · rintro ⟨byte, rest, rfl, hbyte, hbyte', hrest⟩
      obtain ⟨bits, hbits, rfl⟩ :=
        exists_tailByte (Nat.le_trans hlow hbyte) (Nat.le_trans hbyte' hhigh)
      obtain ⟨first, others, rest, more, hcompletes, rfl, rfl, hmore⟩ :=
        (ih (Nat.le_refl _) (Nat.le_refl _) rfl).mp hrest
      rw [toNat_tailByte hbits] at hbyte hbyte'
      refine ⟨bits, first :: others, rest, more, ⟨?_, hbyte, hbyte', ?_⟩, rfl, ?_, ?_⟩
      · rw [List.length_cons, hcompletes.length, howed]
        rfl
      · exact List.forall_mem_cons.mpr ⟨hbits, hcompletes.six⟩
      · rw [Pending.take, valueWith_tailByte hbits]
        rfl
      · rw [List.length_cons, Nat.add_right_comm]
        exact hmore
    · rintro ⟨bits, others, rest, more, hcompletes, rfl, rfl, hrest⟩
      have hbits := hcompletes.six bits List.mem_cons_self
      cases others with
      | nil => exact absurd (hcompletes.length.trans howed) (Nat.zero_ne_add_one owed)
      | cons first others =>
        obtain ⟨hlength, hlow', hhigh', hsix⟩ := hcompletes
        have hfirst : first < 0x40 := hsix first (List.mem_cons_of_mem _ List.mem_cons_self)
        have hnext : Completes (pending.take (tailByte bits) owed) first others :=
          ⟨Nat.succ.inj (hlength.trans howed), Nat.le_add_right _ _,
            show 0x80 + first ≤ 0xBF by omega, (List.forall_mem_cons.mp hsix).2⟩
        refine ⟨tailByte bits, _, rfl, ?_, ?_, ?_⟩
        · rwa [toNat_tailByte hbits]
        · rwa [toNat_tailByte hbits]
        · refine (ih (Nat.le_refl _) (Nat.le_refl _) rfl).mpr
            ⟨first, others, rest, more, hnext, rfl, ?_, ?_⟩
          · rw [Pending.take, valueWith_tailByte hbits]
            rfl
          · rw [List.length_cons, Nat.add_right_comm] at hrest
            exact hrest

/-! ### Characters of several bytes -/

theorem begin?_two {k : Nat} (hleast : 2 ≤ k) (hlt : k < 0x20) :
    Pending.begin? position (.ofNat (0xC0 + k)) =
      some ⟨position, .ofNat (0xC0 + k), 0, k, 0, 0x80, 0xBF⟩ := by
  simp only [Pending.begin?, toNat_ofNat_of_lt (show 0xC0 + k < 0x100 by omega)]
  rw [if_neg (by omega), if_pos (by omega), Nat.add_sub_cancel_left]

theorem begin?_three {k : Nat} (hlt : k < 0x10) :
    Pending.begin? position (.ofNat (0xE0 + k)) =
      some ⟨position, .ofNat (0xE0 + k), 0, k, 1, if k = 0 then 0xA0 else 0x80,
        if k = 0xD then 0x9F else 0xBF⟩ := by
  simp only [Pending.begin?, toNat_ofNat_of_lt (show 0xE0 + k < 0x100 by omega)]
  rw [if_neg (by omega), if_neg (by omega), if_pos (by omega), Nat.add_sub_cancel_left]
  simp [show 0xE0 + k = 0xED ↔ k = 0xD by omega]

theorem begin?_four {k : Nat} (hlt : k < 5) :
    Pending.begin? position (.ofNat (0xF0 + k)) =
      some ⟨position, .ofNat (0xF0 + k), 0, k, 2, if k = 0 then 0x90 else 0x80,
        if k = 4 then 0x8F else 0xBF⟩ := by
  simp only [Pending.begin?, toNat_ofNat_of_lt (show 0xF0 + k < 0x100 by omega)]
  rw [if_neg (by omega), if_neg (by omega), if_neg (by omega), if_pos (by omega),
    Nat.add_sub_cancel_left]
  simp [show 0xF0 + k = 0xF4 ↔ k = 4 by omega]

/-- There are three kinds of first byte. -/
theorem begin?_cases {byte : UInt8} (h : Pending.begin? position byte = some pending) :
    (∃ k, 2 ≤ k ∧ k < 0x20 ∧ byte = .ofNat (0xC0 + k)) ∨
      (∃ k < 0x10, byte = .ofNat (0xE0 + k)) ∨ ∃ k < 5, byte = .ofNat (0xF0 + k) := by
  simp only [Pending.begin?] at h
  by_cases hnone : byte.toNat < 0xC2
  · rw [if_pos hnone] at h
    cases h
  by_cases htwo : byte.toNat < 0xE0
  · obtain ⟨k, hk, hbyte⟩ := exists_eq_ofNat_add (show 0xC0 ≤ byte.toNat by omega)
    exact .inl ⟨k, by omega, by omega, hbyte⟩
  by_cases hthree : byte.toNat < 0xF0
  · obtain ⟨k, hk, hbyte⟩ := exists_eq_ofNat_add (show 0xE0 ≤ byte.toNat by omega)
    exact .inr (.inl ⟨k, by omega, hbyte⟩)
  by_cases hfour : byte.toNat < 0xF5
  · obtain ⟨k, hk, hbyte⟩ := exists_eq_ofNat_add (show 0xF0 ≤ byte.toNat by omega)
    exact .inr (.inr ⟨k, by omega, hbyte⟩)
  · rw [if_neg hnone, if_neg htwo, if_neg hthree, if_neg hfour] at h
    cases h

/-- The bounds that a first byte gives for the next one lie within those of such bytes. -/
theorem bounds_of_begin? {byte : UInt8} (h : Pending.begin? position byte = some pending) :
    0x80 ≤ pending.low ∧ pending.high ≤ 0xBF := by
  obtain ⟨k, hleast, hlt, rfl⟩ | ⟨k, hlt, rfl⟩ | ⟨k, hlt, rfl⟩ := begin?_cases h
  · rw [begin?_two hleast hlt] at h
    cases h
    exact ⟨Nat.le_refl _, Nat.le_refl _⟩
  · rw [begin?_three hlt] at h
    cases h
    exact ⟨by dsimp only; split <;> omega, by dsimp only; split <;> omega⟩
  · rw [begin?_four hlt] at h
    cases h
    exact ⟨by dsimp only; split <;> omega, by dsimp only; split <;> omega⟩

/-- A character of several bytes is begun by its first byte and completed by the others. -/
theorem exists_begin?_of_char {c : Char} (h : 0x80 ≤ c.toNat) (position : Nat) :
    ∃ byte pending first others, Pending.begin? position byte = some pending ∧
      Completes pending first others ∧
      String.utf8EncodeChar c = byte :: (first :: others).map tailByte ∧
      withBits pending.value (first :: others) = c.toNat := by
  have hnumber := toNat_lt c
  rw [utf8EncodeChar_eq, if_neg (by omega)]
  by_cases htwo : c.toNat < 0x800
  · rw [if_pos htwo]
    refine ⟨_, _, c.toNat % 0x40, [], begin?_two (k := c.toNat / 0x40) (by omega) (by omega),
      ⟨rfl, ?_, ?_, ?_⟩, rfl, ?_⟩
    · dsimp only
      omega
    · dsimp only
      omega
    · simp
      omega
    · simp only [withBits, List.foldl_cons, List.foldl_nil]
      omega
  by_cases hthree : c.toNat < 0x10000
  · rw [if_neg htwo, if_pos hthree]
    refine ⟨_, _, c.toNat / 0x40 % 0x40, [c.toNat % 0x40],
      begin?_three (k := c.toNat / 0x1000) (by omega), ⟨rfl, ?_, ?_, ?_⟩, rfl, ?_⟩
    · dsimp only
      split <;> omega
    · dsimp only
      split <;> omega
    · simp
      omega
    · simp only [withBits, List.foldl_cons, List.foldl_nil]
      omega
  · rw [if_neg htwo, if_neg hthree]
    refine ⟨_, _, c.toNat / 0x1000 % 0x40, [c.toNat / 0x40 % 0x40, c.toNat % 0x40],
      begin?_four (k := c.toNat / 0x40000) (by omega), ⟨rfl, ?_, ?_, ?_⟩, rfl, ?_⟩
    · dsimp only
      split <;> omega
    · dsimp only
      split <;> omega
    · simp
      omega
    · simp only [withBits, List.foldl_cons, List.foldl_nil]
      omega

theorem toNat_ofNat_of_isValidChar {n : Nat} (h : n < 0xD800 ∨ 0xDFFF < n ∧ n < 0x110000) :
    (Char.ofNat n).toNat = n := by
  rw [Char.ofNat, dif_pos h]
  rfl

theorem utf8EncodeChar_two {k first : Nat} (hleast : 2 ≤ k) (hlt : k < 0x20)
    (hfirst : first < 0x40) :
    String.utf8EncodeChar (.ofNat (withBits k [first])) =
      [.ofNat (0xC0 + k), tailByte first] := by
  have hnumber : withBits k [first] = k * 0x40 + first := rfl
  have hlead : (k * 0x40 + first) / 0x40 = k := by omega
  have hlast : (k * 0x40 + first) % 0x40 = first := by omega
  rw [hnumber, utf8EncodeChar_eq, toNat_ofNat_of_isValidChar (by omega), if_neg (by omega),
    if_pos (by omega), hlead, hlast]
  rfl

theorem utf8EncodeChar_three {k first second : Nat} (hlt : k < 0x10)
    (hlow : k = 0 → 0x20 ≤ first) (hhigh : k = 0xD → first < 0x20)
    (hfirst : first < 0x40) (hsecond : second < 0x40) :
    String.utf8EncodeChar (.ofNat (withBits k [first, second])) =
      [.ofNat (0xE0 + k), tailByte first, tailByte second] := by
  have hnumber : withBits k [first, second] = (k * 0x40 + first) * 0x40 + second := rfl
  generalize hn : (k * 0x40 + first) * 0x40 + second = n at hnumber
  have hlead : n / 0x1000 = k := by omega
  have hmiddle : n / 0x40 % 0x40 = first := by omega
  have hlast : n % 0x40 = second := by omega
  rw [hnumber, utf8EncodeChar_eq, toNat_ofNat_of_isValidChar (by omega), if_neg (by omega),
    if_neg (by omega), if_pos (by omega), hlead, hmiddle, hlast]
  rfl

theorem utf8EncodeChar_four {k first second third : Nat} (hlt : k < 5)
    (hlow : k = 0 → 0x10 ≤ first) (hhigh : k = 4 → first < 0x10)
    (hfirst : first < 0x40) (hsecond : second < 0x40) (hthird : third < 0x40) :
    String.utf8EncodeChar (.ofNat (withBits k [first, second, third])) =
      [.ofNat (0xF0 + k), tailByte first, tailByte second, tailByte third] := by
  have hnumber : withBits k [first, second, third] =
      ((k * 0x40 + first) * 0x40 + second) * 0x40 + third := rfl
  generalize hn : ((k * 0x40 + first) * 0x40 + second) * 0x40 + third = n at hnumber
  have hlead : n / 0x40000 = k := by omega
  have hhigher : n / 0x1000 % 0x40 = first := by omega
  have hlower : n / 0x40 % 0x40 = second := by omega
  have hlast : n % 0x40 = third := by omega
  rw [hnumber, utf8EncodeChar_eq, toNat_ofNat_of_isValidChar (by omega), if_neg (by omega),
    if_neg (by omega), if_neg (by omega), hlead, hhigher, hlower, hlast]
  rfl

/-- What is begun by a first byte and completed by others are the bytes of a character. -/
theorem utf8EncodeChar_of_begin? {byte : UInt8} {first : Nat} {others : List Nat}
    (h : Pending.begin? position byte = some pending)
    (hcompletes : Completes pending first others) :
    String.utf8EncodeChar (.ofNat (withBits pending.value (first :: others))) =
      byte :: (first :: others).map tailByte := by
  obtain ⟨hlength, hlow, hhigh, hsix⟩ := hcompletes
  obtain ⟨k, hleast, hlt, rfl⟩ | ⟨k, hlt, rfl⟩ | ⟨k, hlt, rfl⟩ := begin?_cases h
  · rw [begin?_two hleast hlt] at h
    cases h
    obtain rfl := List.eq_nil_of_length_eq_zero hlength
    exact utf8EncodeChar_two hleast hlt (hsix first List.mem_cons_self)
  · rw [begin?_three hlt] at h
    cases h
    obtain ⟨second, rfl⟩ := List.length_eq_one_iff.mp hlength
    dsimp only at hlow hhigh
    exact utf8EncodeChar_three hlt (by grind) (by grind) (hsix first (by simp))
      (hsix second (by simp))
  · rw [begin?_four hlt] at h
    cases h
    obtain ⟨second, third, rfl⟩ := List.length_eq_two.mp hlength
    dsimp only at hlow hhigh
    exact utf8EncodeChar_four hlt (by grind) (by grind) (hsix first (by simp))
      (hsix second (by simp)) (hsix third (by simp))

/-! ### Texts -/

theorem utf8EncodeChar_ofNat {byte : UInt8} (h : byte.toNat < 0x80) :
    String.utf8EncodeChar (.ofNat byte.toNat) = [byte] := by
  rw [utf8EncodeChar_eq, toNat_ofNat_of_isValidChar (by omega), if_pos h, UInt8.ofNat_toNat]

/-- The bytes of a character are read as that character. -/
theorem decodeFrom_encodeChar {c : Char} {rest : List UInt8}
    (h : decodeFrom (position + (String.utf8EncodeChar c).length) none rest = .ok points) :
    decodeFrom position none (String.utf8EncodeChar c ++ rest) = .ok (.char c :: points) := by
  by_cases hone : c.toNat < 0x80
  · have hbytes : String.utf8EncodeChar c = [.ofNat c.toNat] := by
      rw [utf8EncodeChar_eq, if_pos hone]
    have hbyte : (UInt8.ofNat c.toNat).toNat = c.toNat := toNat_ofNat_of_lt (by omega)
    rw [hbytes] at h ⊢
    rw [List.singleton_append, decodeFrom, hbyte, if_pos hone, Char.ofNat_toNat]
    exact map_eq_ok_iff.mpr ⟨points, h, rfl⟩
  · obtain ⟨byte, pending, first, others, hbegin, hcompletes, hbytes, hnumber⟩ :=
      exists_begin?_of_char (Nat.le_of_not_lt hone) position
    obtain ⟨hlow, hhigh⟩ := bounds_of_begin? hbegin
    have hlead : ¬byte.toNat < 0x80 := by
      intro hlt
      rw [Pending.begin?, if_pos (by omega)] at hbegin
      cases hbegin
    have hplace : position + 1 + others.length + 1 =
        position + (byte :: (first :: others).map tailByte).length := by
      simp only [List.length_cons, List.length_map]
      omega
    rw [hbytes, ← hplace] at h
    rw [hbytes, List.cons_append, decodeFrom, if_neg hlead, hbegin]
    refine (decodeFrom_pending_iff hlow hhigh).mpr
      ⟨first, others, rest, points, hcompletes, rfl, ?_, h⟩
    rw [hnumber, Char.ofNat_toNat]

/-- Nothing else is read as a text that is not empty. -/
theorem exists_char_of_decodeFrom {byte : UInt8}
    (h : decodeFrom position none (byte :: bytes) = .ok points) :
    ∃ c rest more, byte :: bytes = String.utf8EncodeChar c ++ rest ∧ points = .char c :: more ∧
      decodeFrom (position + (String.utf8EncodeChar c).length) none rest = .ok more := by
  rw [decodeFrom] at h
  split at h
  · next hone =>
    obtain ⟨more, hmore, rfl⟩ := map_eq_ok_iff.mp h
    refine ⟨.ofNat byte.toNat, bytes, more, ?_, rfl, ?_⟩
    · rw [utf8EncodeChar_ofNat hone]
      rfl
    · rw [utf8EncodeChar_ofNat hone]
      exact hmore
  · split at h
    · next pending hbegin =>
      obtain ⟨hlow, hhigh⟩ := bounds_of_begin? hbegin
      obtain ⟨first, others, rest, more, hcompletes, rfl, rfl, hmore⟩ :=
        (decodeFrom_pending_iff hlow hhigh).mp h
      have hbytes := utf8EncodeChar_of_begin? hbegin hcompletes
      refine ⟨_, rest, more, ?_, rfl, ?_⟩
      · rw [hbytes]
        rfl
      · rw [hbytes, List.length_cons, List.length_map, List.length_cons]
        rwa [Nat.add_assoc, Nat.add_assoc, Nat.add_comm 1] at hmore
    · cases h

/-- Reading and writing are inverse, from whatever place on. By induction on the text. -/
theorem decodeFrom_eq_ok_iff {place : Nat} :
    decodeFrom position none bytes = .ok points ↔
      encodeFrom (fun _ => none) place points = .ok bytes := by
  induction points generalizing position place bytes with
  | nil =>
    cases bytes with
    | nil => exact iff_of_true rfl rfl
    | cons byte bytes =>
      refine iff_of_false ?_ ?_
      · intro h
        obtain ⟨c, rest, more, -, hpoints, -⟩ := exists_char_of_decodeFrom h
        cases hpoints
      · intro h
        cases h
  | cons point points ih =>
    constructor
    · intro h
      cases bytes with
      | nil => cases h
      | cons byte bytes =>
        obtain ⟨c, rest, more, hbytes, hpoints, hmore⟩ := exists_char_of_decodeFrom h
        cases hpoints
        rw [hbytes, encodeFrom]
        exact map_eq_ok_iff.mpr ⟨rest, ih.mp hmore, rfl⟩
    · intro h
      cases point with
      | surrogate => cases h
      | char c =>
        obtain ⟨rest, hrest, rfl⟩ := map_eq_ok_iff.mp h
        exact decodeFrom_encodeChar (ih.mpr hrest)

/-- **Bytes are read as a text exactly when the text is written in them.** -/
theorem decode_eq_ok_iff {text : Text} : decode bytes = .ok text ↔ encode text = .ok bytes := by
  rw [decode, encode, map_eq_ok_iff]
  constructor
  · rintro ⟨points, h, rfl⟩
    exact decodeFrom_eq_ok_iff.mp h
  · intro h
    exact ⟨text.toList, decodeFrom_eq_ok_iff.mpr h, rfl⟩

end LojbanTree.Utf8
