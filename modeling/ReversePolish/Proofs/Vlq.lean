import Mathlib.Algebra.Order.Ring.Int
import ReversePolish.SourceMap.Vlq

/-!
# Integers read back

An integer that is written as base64 text is read back, whatever follows it: the last
digit of an integer says that it is the last.  So integers that are written one behind
the other need no separator, and no digit can be taken for one.

A reader has room for thirteen digits.  Integers of less than 63 bits need no more.

## Main results

* `decode_encode` — an integer with any text behind it is read back, and the text left.
* `decodeAll_flatMap_encode` — a row of integers is read back.
* `separators_not_mem_encode` — no integer holds a comma or a semicolon.
-/

namespace ReversePolish.Vlq

/-! ## Digits -/

theorem digitValue?_digit {value : Nat} (h : value < 64) :
    digitValue? (digit value) = some value := by
  revert value
  decide +kernel

/-- No digit is a separator, since a separator has no value. -/
theorem digit_not_separator {value : Nat} (h : value < 64) :
    digit value ≠ ',' ∧ digit value ≠ ';' := by
  have hValue := digitValue?_digit h
  constructor
  · intro hComma
    rw [hComma, show digitValue? ',' = none by decide] at hValue
    cases hValue
  · intro hSemicolon
    rw [hSemicolon, show digitValue? ';' = none by decide] at hValue
    cases hValue

/-- A digit below 32 ends an integer. -/
theorem readGroups_last {value : Nat} (h : value < 32) (room : Nat) (rest : List Char) :
    readGroups (room + 1) (digit value :: rest) = (.ok [value], rest) := by
  unfold readGroups
  rw [digitValue?_digit (by omega)]
  exact if_pos h

/-- A digit from 32 on is followed by the rest of its integer. -/
theorem readGroups_more {value room : Nat} (h : value < 32) {cs rest : List Char}
    {groups : List Nat} (hRest : readGroups room cs = (.ok groups, rest)) :
    readGroups (room + 1) (digit (value + 32) :: cs) = (.ok (value :: groups), rest) := by
  unfold readGroups
  rw [digitValue?_digit (by omega)]
  simp only [hRest, if_neg (show ¬value + 32 < 32 by omega)]
  rw [Nat.add_mod_right, Nat.mod_eq_of_lt h]

/-! ## Natural numbers -/

/-- The digits of a natural number that the room suffices for are read as groups that
make up this number. -/
theorem readGroups_encodeNat {room n : Nat} (h : n < 32 ^ (room + 1)) (rest : List Char) :
    ∃ groups, readGroups (room + 1) (encodeNat n ++ rest) = (.ok groups, rest) ∧
      ofGroups groups = n := by
  induction room generalizing n with
  | zero =>
      have hSmall : n < 32 := h
      rw [encodeNat, if_pos hSmall]
      exact ⟨[n], readGroups_last hSmall 0 rest, by simp [ofGroups]⟩
  | succ room ih =>
      by_cases hSmall : n < 32
      · rw [encodeNat, if_pos hSmall]
        exact ⟨[n], readGroups_last hSmall (room + 1) rest, by simp [ofGroups]⟩
      · have hQuotient : n / 32 < 32 ^ (room + 1) := by
          rw [Nat.div_lt_iff_lt_mul (by decide), ← Nat.pow_succ]
          exact h
        have hMod : n % 32 < 32 := Nat.mod_lt n (by decide)
        obtain ⟨groups, hRead, hGroups⟩ := ih hQuotient
        rw [encodeNat, if_neg hSmall]
        refine ⟨n % 32 :: groups, readGroups_more hMod hRead, ?_⟩
        show n % 32 + 32 * ofGroups groups = n
        rw [hGroups]
        exact Nat.mod_add_div n 32

theorem separators_not_mem_encodeNat (n : Nat) : ',' ∉ encodeNat n ∧ ';' ∉ encodeNat n := by
  fun_induction encodeNat n with
  | case1 n hSmall =>
      obtain ⟨hComma, hSemicolon⟩ := digit_not_separator (show n < 64 by omega)
      simp [hComma.symm, hSemicolon.symm]
  | case2 n hLarge ih =>
      have hMod : n % 32 < 32 := Nat.mod_lt n (by decide)
      obtain ⟨hComma, hSemicolon⟩ := digit_not_separator (show n % 32 + 32 < 64 by omega)
      simp [hComma.symm, hSemicolon.symm, ih]

theorem encodeNat_ne_nil (n : Nat) : encodeNat n ≠ [] := by
  rw [encodeNat]
  split <;> simp

/-! ## Integers -/

/-- An integer of less than 63 bits: neither writing nor reading it loses a bit. -/
def Short (value : Int) : Prop := -2 ^ 62 < value ∧ value < 2 ^ 62

theorem unsigned_signed {value : Int} (h : Short value) : unsigned (signed value) = value := by
  obtain ⟨hLow, hHigh⟩ := h
  unfold unsigned signed
  by_cases hSign : value < 0
  · simp only [if_pos hSign]
    rw [Int.bmod_eq_of_le (by omega) (by omega)]
    split <;> omega
  · simp only [if_neg hSign]
    rw [Int.bmod_eq_of_le (by omega) (by omega)]
    split <;> omega

/-- An integer is read back, and what follows it is left. -/
theorem decode_encode {value : Int} (h : Short value) (rest : List Char) :
    decode (encode value ++ rest) = (.ok value, rest) := by
  have hRoom : signed value < 32 ^ (12 + 1) := by
    obtain ⟨hLow, hHigh⟩ := h
    unfold signed
    split <;> omega
  obtain ⟨groups, hRead, hGroups⟩ := readGroups_encodeNat hRoom rest
  have hDigits : maxDigits = 12 + 1 := rfl
  rw [decode, encode, hDigits, hRead]
  simp only [hGroups, unsigned_signed h]

theorem encode_ne_nil (value : Int) : encode value ≠ [] :=
  encodeNat_ne_nil (signed value)

theorem separators_not_mem_encode (value : Int) : ',' ∉ encode value ∧ ';' ∉ encode value :=
  separators_not_mem_encodeNat (signed value)

/-- A row of integers is read back. -/
theorem decodeAll_flatMap_encode {values : List Int} (h : ∀ v ∈ values, Short v) :
    decodeAll (values.flatMap encode) = ⟨values, none, []⟩ := by
  induction values with
  | nil => rw [List.flatMap_nil, decodeAll]
  | cons v values ih =>
      have hFirst := decode_encode (h v (by simp)) (values.flatMap encode)
      rw [List.flatMap_cons]
      obtain ⟨c, cs, hDigits⟩ := List.exists_cons_of_ne_nil (encode_ne_nil v)
      rw [hDigits, List.cons_append] at hFirst ⊢
      rw [decodeAll]
      split
      · next fault rest hFault => rw [hFirst] at hFault; cases hFault
      · next value rest hValue =>
          rw [hFirst] at hValue
          cases hValue
          rw [ih fun w hw => h w (by simp [hw])]

end ReversePolish.Vlq
