import Mathlib.Data.String.Basic
import RecordLayout.Text.Escape

/-! What can be written between double quotes, piece by piece: characters as they are, escapes of one character,
and bytes in hexadecimal with two digits or one. Decoding takes the pieces apart where they were put together,
as long as no digit follows one that stands alone. -/

namespace RecordLayout.Text

/-- A hexadecimal digit, in one of two cases. -/
structure HexDigit where
  value : Fin 16
  upper : Bool

def HexDigit.char (digit : HexDigit) : Char :=
  (if digit.upper then "0123456789ABCDEF" else "0123456789abcdef").toList.getD digit.value '0'

/-- Escapes that are one character after a backslash and stand for one byte. -/
inductive Escape where
  | lineFeed | tab | carriageReturn | zero | backslash | apostrophe | quote

namespace Escape

def char : Escape → Char
  | lineFeed => 'n'
  | tab => 't'
  | carriageReturn => 'r'
  | zero => '0'
  | backslash => '\\'
  | apostrophe => '\x27'
  | quote => '\x22'

def byte : Escape → UInt8
  | lineFeed => 0x0A
  | tab => 0x09
  | carriageReturn => 0x0D
  | zero => 0x00
  | backslash => 0x5C
  | apostrophe => 0x27
  | quote => 0x22

end Escape

inductive Piece where
  | plain (c : Char) (raw : c ≠ '\\' ∧ c ≠ '\x22')
  | escape (letter : Escape)
  | pair (high low : HexDigit)
  | single (digit : HexDigit)

namespace Piece

def text : Piece → List Char
  | plain c _ => [c]
  | escape letter => ['\\', letter.char]
  | pair high low => ['\\', 'x', high.char, low.char]
  | single digit => ['\\', 'x', digit.char]

def bytes : Piece → List UInt8
  | plain c _ => String.utf8EncodeChar c
  | escape letter => [letter.byte]
  | pair high low => [(16 * high.value.val + low.value.val).toUInt8]
  | single digit => [digit.value.val.toUInt8]

theorem head?_text_append (piece : Piece) (rest : List Char) : (piece.text ++ rest).head? = piece.text.head? := by
  cases piece <;> rfl

/-- A digit that stands alone is not followed by another one. -/
def Separate (first next : Piece) : Prop :=
  ∀ digit, first = single digit → ∀ other : HexDigit, next.text.head? ≠ some other.char

end Piece

/-! Digits. -/

theorem HexDigit.hexDigit?_char (digit : HexDigit) : hexDigit? digit.char = some digit.value.val := by
  obtain ⟨value, upper⟩ := digit
  revert value upper
  decide

/-- What ends or escapes in a literal is no digit. -/
theorem HexDigit.plain (digit : HexDigit) : digit.char ≠ '\\' ∧ digit.char ≠ '\x22' := by
  have known := digit.hexDigit?_char
  constructor <;> intro same <;> rw [same] at known <;> cases known

theorem HexDigit.toNat_char (digit : HexDigit) : digit.char.toNat =
    digit.value.val + if digit.value.val < 10 then 0x30 else if digit.upper then 0x37 else 0x57 := by
  obtain ⟨value, upper⟩ := digit
  revert value upper
  decide

theorem HexDigit.exists_char {c : Char} (value : Nat) (small : value < 16) (upper : Bool)
    (same : c.toNat = value + if value < 10 then 0x30 else if upper then 0x37 else 0x57) :
    ∃ digit : HexDigit, digit.char = c :=
  ⟨⟨⟨value, small⟩, upper⟩, Char.toNat_inj.mp ((toNat_char _).trans same.symm)⟩

/-- Every character that has a value is a digit. -/
theorem HexDigit.of_hexDigit? {c : Char} {value : Nat} (read : hexDigit? c = some value) :
    ∃ digit : HexDigit, digit.char = c := by
  unfold hexDigit? at read
  split at read
  next decimal =>
    have range : 48 ≤ c.toNat ∧ c.toNat ≤ 57 := by simpa [Char.isDigit, UInt32.le_iff_toNat_le] using decimal
    exact exists_char (c.toNat - 0x30) (by omega) false (by rw [if_pos (by omega)]; omega)
  next =>
    split at read
    next lower => exact exists_char (c.toNat - 0x57) (by omega) false (by rw [if_neg (by omega)]; simp; omega)
    next =>
      split at read
      next upper => exact exists_char (c.toNat - 0x37) (by omega) true (by rw [if_neg (by omega)]; simp; omega)
      next => cases read

/-! Decoding. -/

theorem unescape_plain {c : Char} (raw : c ≠ '\\') (rest : List Char) :
    unescape (c :: rest) = String.utf8EncodeChar c ++ unescape rest := by
  rw [unescape]
  all_goals simp [raw]

theorem unescape_escape (letter : Escape) (rest : List Char) :
    unescape ('\\' :: letter.char :: rest) = letter.byte :: unescape rest := by
  cases letter
  all_goals
    rw [Escape.char, unescape]
    · rfl
    all_goals simp

theorem unescape_pair (high low : HexDigit) (rest : List Char) :
    unescape ('\\' :: 'x' :: high.char :: low.char :: rest) =
      (16 * high.value.val + low.value.val).toUInt8 :: unescape rest := by
  rw [unescape, high.hexDigit?_char, low.hexDigit?_char]

theorem unescape_single (digit : HexDigit) {rest : List Char} (stop : ∀ other : HexDigit, rest.head? ≠ some other.char) :
    unescape ('\\' :: 'x' :: digit.char :: rest) = digit.value.val.toUInt8 :: unescape rest := by
  cases rest with
  | nil => simp [unescape, digit.hexDigit?_char]
  | cons c rest =>
    have none : hexDigit? c = none := by
      cases read : hexDigit? c with
      | none => rfl
      | some value =>
        obtain ⟨other, rfl⟩ := HexDigit.of_hexDigit? read
        exact absurd rfl (stop other)
    rw [unescape, digit.hexDigit?_char, none]

theorem unescape_pieces {pieces : List Piece} (separate : pieces.IsChain Piece.Separate) :
    unescape (pieces.flatMap Piece.text) = pieces.flatMap Piece.bytes := by
  induction pieces with
  | nil => rfl
  | cons piece pieces ih =>
    have others := ih separate.of_cons
    rw [List.flatMap_cons, List.flatMap_cons, ← others]
    cases piece with
    | plain c raw => exact unescape_plain raw.1 _
    | escape letter => exact unescape_escape letter _
    | pair high low => exact unescape_pair high low _
    | single digit =>
      refine @unescape_single digit (pieces.flatMap Piece.text) fun other => ?_
      cases pieces with
      | nil => simp
      | cons next pieces =>
        have apart := (List.isChain_cons_cons.mp separate).1 digit rfl other
        rwa [List.flatMap_cons, next.head?_text_append]

/-! Bytes. -/

/-- The byte with both of its digits. -/
def Piece.ofByte (byte : UInt8) : Piece :=
  .pair ⟨Fin.ofNat 16 (byte.toNat / 16), false⟩ ⟨Fin.ofNat 16 byte.toNat, false⟩

theorem Piece.bytes_ofByte (byte : UInt8) : (ofByte byte).bytes = [byte] := by
  have small := byte.toNat_lt
  have same : 16 * (byte.toNat / 16 % 16) + byte.toNat % 16 = byte.toNat := by omega
  rw [ofByte, bytes]
  simp only [Fin.ofNat, same]
  simp

/-- Whatever the bytes, there are pieces that stand for them. -/
theorem exists_pieces (bytes : List UInt8) :
    ∃ pieces : List Piece, pieces.IsChain Piece.Separate ∧ pieces.flatMap Piece.bytes = bytes := by
  refine ⟨bytes.map Piece.ofByte, ?_, ?_⟩
  · refine List.isChain_iff_getElem.mpr fun index inside digit impossible => ?_
    rw [List.getElem_map] at impossible
    cases impossible
  · induction bytes with
    | nil => rfl
    | cons byte bytes ih => rw [List.map_cons, List.flatMap_cons, Piece.bytes_ofByte, ih, List.singleton_append]

end RecordLayout.Text
