import RecordLayout.Grammar.Member
import RecordLayout.Proofs.Decimal.Digits

/-! The words and signs of layout descriptions, each with the reader that picks it out: operators and relations by the
kinds of their tokens, keywords, byte orders and primitive types by how they are spelled, and bytes after a backslash
by their digits. -/

namespace RecordLayout

/-! Signs. -/

/-- The kind of token that the operator is. -/
def Operator.kind : Operator → Token.Kind
  | add => .plus
  | sub => .minus
  | mul => .star
  | div => .slash
  | bitAnd => .ampersand
  | bitOr => .pipe
  | bitXor => .caret
  | complement => .tilde
  | shiftLeft => .shiftLeft
  | shiftRight => .shiftRight

/-- An operator that may stand before an operand. Between operands the two others bind closer. -/
def Operator.IsPrefix (op : Operator) : Prop :=
  op ≠ .mul ∧ op ≠ .div

/-- The kind of token that the relation is. -/
def Relation.kind : Relation → Token.Kind
  | equal => .equal
  | notEqual => .notEqual
  | less => .less
  | greater => .greater
  | lessEqual => .lessEqual
  | greaterEqual => .greaterEqual

namespace Parser

variable {token : Token} {op : Operator}

theorem additive?_eq_some : additive? token = some op ↔ op.IsPrefix ∧ token.kind = op.kind := by
  constructor
  · intro found
    unfold additive? at found
    split at found <;> cases found <;> exact ⟨⟨by decide, by decide⟩, by assumption⟩
  · rintro ⟨before, same⟩
    cases op
    case mul => exact absurd rfl before.1
    case div => exact absurd rfl before.2
    all_goals simp [additive?, same, Operator.kind]

theorem multiplicative?_eq_some : multiplicative? token = some op ↔ ¬ op.IsPrefix ∧ token.kind = op.kind := by
  constructor
  · intro found
    unfold multiplicative? at found
    split at found <;> cases found <;> exact ⟨by simp [Operator.IsPrefix], by assumption⟩
  · rintro ⟨between, same⟩
    cases op
    case mul | div => simp [multiplicative?, same, Operator.kind]
    all_goals exact absurd ⟨by decide, by decide⟩ between

theorem relation?_eq_some {op : Relation} : relation? token = some op ↔ token.kind = op.kind := by
  constructor
  · intro found
    unfold relation? at found
    split at found <;> cases found <;> assumption
  · intro same
    cases op <;> simp [relation?, same, Relation.kind]

end Parser

/-! Words. -/

/-- The token is the reserved word. -/
def Token.IsWord (word : String) (token : Token) : Prop :=
  token.kind = .keyword ∧ token.content = word

theorem Token.isKeyword_iff {word : String} {token : Token} : token.isKeyword word = true ↔ token.IsWord word := by
  simp [isKeyword, IsWord]

theorem ByteOrder.ofKeyword?_eq_some {word : String} {order : ByteOrder} :
    ofKeyword? word = some order ↔ word = order.keyword := by
  constructor
  · intro found
    unfold ofKeyword? at found
    split at found <;> cases found <;> rfl
  · rintro rfl
    cases order <;> rfl

namespace Primitive

theorem ofName?_eq_some {word : String} {primitive : Primitive} :
    ofName? word = some primitive ↔ word = primitive.name := by
  constructor
  · intro found
    exact (name_of_ofName? found).symm
  · rintro rfl
    exact ofName?_name primitive

/-- A type whose values end at a delimiter. -/
def IsDelimited (primitive : Primitive) : Prop :=
  primitive = .string ∨ primitive = .bytes

theorem takesDelimiter_iff {primitive : Primitive} : primitive.takesDelimiter = true ↔ primitive.IsDelimited := by
  cases primitive <;> simp [takesDelimiter, byteSize, IsDelimited]

end Primitive

/-! Bytes. -/

/-- An `x` and the number of the byte in base sixteen, at most two characters long. -/
inductive Token.SpellsByte : List Char → Int64 → Prop where
  | mk {written value} (number : Decimal.Numeral 16 written value) (short : written.length ≤ 2) :
      SpellsByte ('x' :: written) value

theorem Text.utf8Length_eq_length {chars : List Char} (narrow : ∀ c ∈ chars, c.utf8Size = 1) :
    utf8Length chars = chars.length := by
  induction chars with
  | nil => rfl
  | cons c chars ih =>
    obtain ⟨first, others⟩ := List.forall_mem_cons.mp narrow
    rw [utf8Length, first, ih others, List.length_cons, Nat.add_comm]

theorem Text.HexDigit.utf8Size_char (digit : HexDigit) : digit.char.utf8Size = 1 := by
  obtain ⟨digit, upper⟩ := digit
  revert digit upper
  decide

namespace Decimal

variable {base size : Nat} {chars : List Char} {value : Int64}

theorem Digits.utf8Length_eq (digits : Digits base chars size) : Text.utf8Length chars = chars.length := by
  apply Text.utf8Length_eq_length
  intro c member
  obtain ⟨digit, rfl⟩ := digits.exists_char c member
  exact digit.utf8Size_char

theorem Numeral.utf8Length_eq (numeral : Numeral base chars value) : Text.utf8Length chars = chars.length := by
  cases numeral with
  | unsigned digits => exact digits.utf8Length_eq
  | plus digits | minus digits =>
    rw [Text.utf8Length, digits.utf8Length_eq, List.length_cons, Nat.add_comm]
    rfl

theorem Numeral.ne_nil (numeral : Numeral base chars value) : chars ≠ [] := by
  cases numeral with
  | unsigned digits => exact digits.ne_nil
  | plus | minus => exact List.cons_ne_nil _ _

end Decimal

theorem Parser.hexEscape?_eq_some {chars : List Char} {value : Int64} :
    hexEscape? chars = some value ↔ Token.SpellsByte chars value := by
  constructor
  · intro read
    unfold hexEscape? at read
    split at read
    next written =>
      obtain ⟨sized, read⟩ := Option.ite_none_right_eq_some.mp read
      have number := Decimal.hexInt64?_eq_some.mp read
      exact .mk number (number.utf8Length_eq ▸ sized.2)
    next => cases read
  · rintro ⟨number, short⟩
    have some := List.length_pos_iff.mpr number.ne_nil
    rw [hexEscape?, number.utf8Length_eq, if_pos ⟨some, short⟩, Decimal.hexInt64?_eq_some]
    exact number

end RecordLayout
