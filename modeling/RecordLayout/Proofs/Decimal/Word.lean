import RecordLayout.Decimal.Numeral

/-! Whole numbers are read back from their text. -/

namespace RecordLayout.Decimal

theorem natural?_toDigits (size : Nat) : natural? (Nat.toDigits 10 size) = some size := by
  have digits : (Nat.toDigits 10 size).all Char.isDigit = true :=
    List.all_eq_true.mpr fun _ member => Nat.isDigit_of_mem_toDigits (by decide) (by decide) member
  rw [natural?, if_pos ⟨Nat.toDigits_ne_nil, digits⟩, Nat.ofDigitChars_ten_toDigits]

theorem splitSign_of_unsigned {chars : List Char} (unsigned : ∀ c ∈ chars.head?, c ≠ '-' ∧ c ≠ '+') :
    splitSign chars = (false, chars) := by
  unfold splitSign
  split
  next => exact absurd rfl (unsigned _ rfl).1
  next => exact absurd rfl (unsigned _ rfl).2
  next => rfl

theorem splitSign_toDigits (size : Nat) : splitSign (Nat.toDigits 10 size) = (false, Nat.toDigits 10 size) := by
  apply splitSign_of_unsigned
  intro c first
  have digit : c.isDigit = true :=
    Nat.isDigit_of_mem_toDigits (by decide) (by decide) (List.mem_of_mem_head? first)
  constructor <;> rintro rfl <;> cases digit

theorem int64?_toDigits (size : Nat) : int64? (Nat.toDigits 10 size) = word? size := by
  simp [int64?, signed?, splitSign_toDigits, natural?_toDigits]

theorem int64?_negative (size : Nat) : int64? ('-' :: Nat.toDigits 10 size) = word? (-size) := by
  simp [int64?, signed?, splitSign, natural?_toDigits]

theorem word?_toInt (value : Int64) : word? value.toInt = some value := by
  rw [word?, if_pos ⟨value.minValue_le_toInt, value.toInt_le⟩, Int64.ofInt_toInt]

theorem word?_eq_some {size : Int} {value : Int64} : word? size = some value ↔ value.toInt = size := by
  constructor
  · intro fits
    unfold word? at fits
    split at fits
    next range =>
      cases fits
      have top := range.2
      rw [Int64.toInt_maxValue] at top
      exact Int64.toInt_ofInt_of_le range.1 (by omega)
    next => cases fits
  · rintro rfl
    exact word?_toInt value

/-- A word that is not negative has an opposite. -/
theorem word?_neg {value : Int64} (positive : 0 ≤ value.toInt) : word? (-value.toInt) = some (-value) := by
  have top := value.toInt_lt
  rw [word?, if_pos, Int64.ofInt_neg, Int64.ofInt_toInt]
  constructor
  · rw [Int64.toInt_minValue]
    omega
  · rw [Int64.toInt_maxValue]
    omega

theorem toList_toString_ofNat (size : Nat) : (toString (size : Int)).toList = Nat.toDigits 10 size :=
  Nat.toList_repr

theorem toList_toString_negSucc (size : Nat) :
    (toString (Int.negSucc size)).toList = '-' :: Nat.toDigits 10 (size + 1) := by
  have written : toString (Int.negSucc size) = "-" ++ (size + 1).repr := rfl
  rw [written, String.toList_append, Nat.toList_repr]
  rfl

theorem int64?_toString (value : Int64) : int64? (toString value.toInt).toList = some value := by
  have same := word?_toInt value
  cases shape : value.toInt with
  | ofNat size =>
    rw [shape] at same
    exact toList_toString_ofNat size ▸ (int64?_toDigits size).trans same
  | negSucc size =>
    rw [shape] at same
    rw [toList_toString_negSucc, int64?_negative]
    exact same

end RecordLayout.Decimal
