import Mathlib.Data.List.Induction
import RecordLayout.Proofs.Decimal.Word
import RecordLayout.Proofs.Text.Pieces

/-! What the readers of whole numbers take: at least one digit, with a sign in front or without one, where the number
fits a word. The digits of both bases are hexadecimal ones, in base ten the first ten of them. -/

namespace RecordLayout.Decimal

open RecordLayout.Text (HexDigit)

/-- The digits of a number, the highest one first. -/
inductive Digits (base : Nat) : List Char → Nat → Prop where
  | one {digit : HexDigit} (small : digit.value < base) : Digits base [digit.char] digit.value
  | more {chars number} {digit : HexDigit} (before : Digits base chars number) (small : digit.value < base) :
      Digits base (chars ++ [digit.char]) (base * number + digit.value)

/-- Digits of a number with its sign, where no sign is a plus. -/
inductive Numeral (base : Nat) : List Char → Int64 → Prop where
  | unsigned {chars} {size : Nat} {value : Int64} (digits : Digits base chars size) (same : value.toInt = size) :
      Numeral base chars value
  | plus {chars} {size : Nat} {value : Int64} (digits : Digits base chars size) (same : value.toInt = size) :
      Numeral base ('+' :: chars) value
  | minus {chars} {size : Nat} {value : Int64} (digits : Digits base chars size) (same : value.toInt = -size) :
      Numeral base ('-' :: chars) value

variable {base size : Nat} {chars : List Char} {c : Char} {value : Int64}

theorem Digits.ne_nil (digits : Digits base chars size) : chars ≠ [] := by
  cases digits <;> simp

theorem Digits.exists_char (digits : Digits base chars size) : ∀ c ∈ chars, ∃ digit : HexDigit, digit.char = c := by
  induction digits with
  | one => exact List.forall_mem_singleton.mpr ⟨_, rfl⟩
  | more _ _ ih => exact List.forall_mem_append.mpr ⟨ih, List.forall_mem_singleton.mpr ⟨_, rfl⟩⟩

theorem Digits.lt_pow (digits : Digits base chars size) : size < base ^ chars.length := by
  induction digits with
  | one small => simpa using small
  | @more chars number digit _ small ih =>
    have further : base * (number + 1) ≤ base * base ^ chars.length := Nat.mul_le_mul_left base ih
    rw [Nat.mul_succ] at further
    rw [List.length_append, List.length_singleton, Nat.pow_succ']
    omega

/-! Base ten. -/

theorem isDigit_char_iff {digit : HexDigit} : digit.char.isDigit = true ↔ digit.value.val < 10 := by
  obtain ⟨digit, upper⟩ := digit
  revert digit upper
  decide

theorem exists_of_isDigit (decimal : c.isDigit = true) : ∃ digit : HexDigit, digit.char = c :=
  HexDigit.of_hexDigit? (if_pos decimal)

theorem ofDigitChars_append_char {digit : HexDigit} (small : digit.value.val < 10) :
    Nat.ofDigitChars 10 (chars ++ [digit.char]) 0 = 10 * Nat.ofDigitChars 10 chars 0 + digit.value := by
  have worth : digit.char.toNat = digit.value.val + 0x30 := by rw [HexDigit.toNat_char, if_pos small]
  have last : digit.char.toNat - '0'.toNat = digit.value.val := by
    rw [worth]
    exact Nat.add_sub_cancel _ _
  rw [Nat.ofDigitChars_append, Nat.ofDigitChars_cons, Nat.ofDigitChars_nil, last]

theorem natural?_eq_some_iff : natural? chars = some size ↔
    chars ≠ [] ∧ (∀ c ∈ chars, c.isDigit = true) ∧ Nat.ofDigitChars 10 chars 0 = size := by
  rw [natural?, Option.ite_none_right_eq_some, List.all_eq_true, Option.some.injEq, and_assoc]

theorem digits_of_isDigit (some : chars ≠ []) (decimal : ∀ c ∈ chars, c.isDigit = true) :
    Digits 10 chars (Nat.ofDigitChars 10 chars 0) := by
  induction chars using List.reverseRecOn with
  | nil => exact absurd rfl some
  | append_singleton front c ih =>
    obtain ⟨before, last⟩ := List.forall_mem_append.mp decimal
    have last := List.forall_mem_singleton.mp last
    obtain ⟨digit, rfl⟩ := exists_of_isDigit last
    have small := isDigit_char_iff.mp last
    rw [ofDigitChars_append_char small]
    by_cases none : front = []
    · subst none
      simpa using Digits.one small
    · exact .more (ih none before) small

theorem natural?_eq_some : natural? chars = some size ↔ Digits 10 chars size := by
  rw [natural?_eq_some_iff]
  constructor
  · rintro ⟨some, decimal, rfl⟩
    exact digits_of_isDigit some decimal
  · intro digits
    refine ⟨digits.ne_nil, ?_⟩
    induction digits with
    | one small =>
      refine ⟨List.forall_mem_singleton.mpr (isDigit_char_iff.mpr small), ?_⟩
      simpa using @ofDigitChars_append_char [] _ small
    | more _ small ih =>
      obtain ⟨before, same⟩ := ih
      refine ⟨List.forall_mem_append.mpr ⟨before, ?_⟩, ?_⟩
      · exact List.forall_mem_singleton.mpr (isDigit_char_iff.mpr small)
      · rw [ofDigitChars_append_char small, same]

/-! Base sixteen. -/

theorem hexadecimal?_singleton (c : Char) : hexadecimal? [c] = Text.hexDigit? c := by
  simp [hexadecimal?]

theorem hexadecimal?_append_singleton (some : chars ≠ []) : hexadecimal? (chars ++ [c]) =
    (hexadecimal? chars).bind fun number => (Text.hexDigit? c).map (16 * number + ·) := by
  simp [hexadecimal?, some, List.foldlM_append]

theorem digits_of_hexadecimal? (read : hexadecimal? chars = some size) : Digits 16 chars size := by
  induction chars using List.reverseRecOn generalizing size with
  | nil => cases read
  | append_singleton front c ih =>
    by_cases none : front = []
    · subst none
      rw [List.nil_append, hexadecimal?_singleton] at read
      obtain ⟨digit, rfl⟩ := HexDigit.of_hexDigit? read
      rw [digit.hexDigit?_char] at read
      cases read
      exact .one digit.value.isLt
    · rw [hexadecimal?_append_singleton none] at read
      obtain ⟨number, before, last⟩ := Option.bind_eq_some_iff.mp read
      obtain ⟨_, known, rfl⟩ := Option.map_eq_some_iff.mp last
      obtain ⟨digit, rfl⟩ := HexDigit.of_hexDigit? known
      rw [digit.hexDigit?_char] at known
      cases known
      exact .more (ih before) digit.value.isLt

theorem hexadecimal?_eq_some : hexadecimal? chars = some size ↔ Digits 16 chars size := by
  refine ⟨digits_of_hexadecimal?, fun digits => ?_⟩
  induction digits with
  | one => rw [hexadecimal?_singleton, HexDigit.hexDigit?_char]
  | more before _ ih =>
    rw [hexadecimal?_append_singleton before.ne_nil, ih, HexDigit.hexDigit?_char]
    rfl

/-! Signs. -/

theorem Digits.unsigned (digits : Digits base chars size) : ∀ c ∈ chars.head?, c ≠ '-' ∧ c ≠ '+' := by
  intro c first
  obtain ⟨digit, rfl⟩ := digits.exists_char c (List.mem_of_mem_head? first)
  have known := digit.hexDigit?_char
  constructor <;> intro same <;> rw [same] at known <;> cases known

theorem splitSign_cases (chars : List Char) :
    (∃ rest, chars = '-' :: rest ∧ splitSign chars = (true, rest)) ∨
      (∃ rest, chars = '+' :: rest ∧ splitSign chars = (false, rest)) ∨ splitSign chars = (false, chars) := by
  unfold splitSign
  split
  next rest => exact .inl ⟨rest, rfl, rfl⟩
  next rest => exact .inr (.inl ⟨rest, rfl, rfl⟩)
  next => exact .inr (.inr rfl)

theorem signed?_of_splitSign {digits? : List Char → Option Nat} {negative : Bool} {rest : List Char}
    (split : splitSign chars = (negative, rest)) : signed? digits? chars = some value ↔
      ∃ size : Nat, digits? rest = some size ∧ value.toInt = if negative then -(size : Int) else size := by
  simp [signed?, split, Option.bind_eq_some_iff, word?_eq_some]

theorem signed?_eq_some {digits? : List Char → Option Nat}
    (reads : ∀ {chars size}, digits? chars = some size ↔ Digits base chars size) :
    signed? digits? chars = some value ↔ Numeral base chars value := by
  constructor
  · intro read
    rcases splitSign_cases chars with ⟨rest, rfl, split⟩ | ⟨rest, rfl, split⟩ | split
    all_goals obtain ⟨size, digits, same⟩ := (signed?_of_splitSign split).mp read
    · exact .minus (reads.mp digits) same
    · exact .plus (reads.mp digits) same
    · exact .unsigned (reads.mp digits) same
  · intro numeral
    cases numeral with
    | unsigned digits same =>
      exact (signed?_of_splitSign (splitSign_of_unsigned digits.unsigned)).mpr ⟨_, reads.mpr digits, same⟩
    | plus digits same => exact (signed?_of_splitSign rfl).mpr ⟨_, reads.mpr digits, same⟩
    | minus digits same => exact (signed?_of_splitSign rfl).mpr ⟨_, reads.mpr digits, same⟩

theorem int64?_eq_some : int64? chars = some value ↔ Numeral 10 chars value :=
  signed?_eq_some natural?_eq_some

theorem hexInt64?_eq_some : hexInt64? chars = some value ↔ Numeral 16 chars value :=
  signed?_eq_some hexadecimal?_eq_some

end RecordLayout.Decimal
