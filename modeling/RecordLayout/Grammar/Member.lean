import RecordLayout.Grammar.Condition
import RecordLayout.Member

/-!
Members: an optional byte order, a type, an optional repetition, and for types that take one a
delimiter, before or after the repetition. A parenthesis in front chooses byte orders where both
alternatives are byte orders, and types otherwise.
-/

namespace RecordLayout.Parser

variable {σ : Type} [TokenSource σ]

def byteOrder? : ParserOn σ (Option ByteOrder) :=
  accept? fun token =>
    if token.kind = .keyword then ByteOrder.ofKeyword? token.content else none

/-- The opening parenthesis of a choice, its condition, and the question mark. -/
def choiceHead (room : Nat) : ParserOn σ (Token × Condition) := do
  let opening ← token .leftParen
  let condition ← condition room
  let _ ← token .question
  return (opening, condition)

/-- A choice of byte orders. Where an alternative is something else, nothing is read. -/
def orderChoice? (room : Nat) : ParserOn σ (Option (Choice ByteOrder)) := do
  let start ← get
  nested room fun room => do
    let (opening, condition) ← choiceHead room
    match ← byteOrder? with
    | none =>
      set start
      return none
    | some ifTrue =>
      let _ ← token .colon
      match ← byteOrder? with
      | none =>
        set start
        return none
      | some ifFalse =>
        let closing ← token .rightParen
        return some ⟨condition, ifTrue, ifFalse, opening.span.through closing.span⟩

/-- The number that the digits after a backslash and an `x` stand for; they are one or two. -/
def hexEscape? : List Char → Option Int64
  | 'x' :: digits =>
    if 1 ≤ Text.utf8Length digits ∧ Text.utf8Length digits ≤ 2 then
      Decimal.hexInt64? digits
    else
      none
  | _ => none

def hexEscape : ParserOn σ Delimiter := do
  let backslash ← token .backslash
  let digits ← token .identifier
  let span := backslash.span.through digits.span
  match hexEscape? digits.content.toList with
  | some value => return .int value span
  | none => failAt span (.malformedHexEscape digits.content)

/-- A delimiter in its parentheses. -/
def delimiter : ParserOn σ Delimiter :=
  inParens do
    match ← peek? with
    | none => unexpected .delimiter
    | some next =>
      match next.kind with
      | .string =>
        skip
        return .string next.content next.span
      | .char =>
        skip
        return .char next.content next.span
      | .integer =>
        let (value, span) ← integer
        return .int value span
      | .backslash => hexEscape
      | .identifier => return .member (← path)
      | _ => unexpected .delimiter

/-- The name of a primitive type, with the delimiter that directly follows it. -/
def dataType : ParserOn σ DataType := do
  let token ← token .dataType
  match Primitive.ofName? token.content with
  | none => failAt token.span (.unknownDataType token.content)
  | some primitive =>
    if primitive.takesDelimiter && (← nextIsKind .leftParen) then
      return ⟨primitive, some (← delimiter), token.span⟩
    else
      return ⟨primitive, none, token.span⟩

/-- The type with the delimiter that it has for want of a written one: strings end at a zero byte,
and for raw bytes there is none. -/
def withDefaultDelimiter (type : DataType) : ParserOn σ DataType :=
  match type.primitive, type.delimiter with
  | .string, none => return { type with delimiter := some (.int 0 type.span) }
  | .bytes, none => failAt type.span .bytesWithoutDelimiter
  | _, _ => return type

/-- An alternative of a choice of types. -/
def typeRef : ParserOn σ TypeRef := do
  if ← nextIsKind .dataType then
    return .data (← withDefaultDelimiter (← dataType))
  else if ← nextIsKind .identifier then
    return .named (← path)
  else
    unexpected .type

def typeChoice (room : Nat) : ParserOn σ (Choice TypeRef) :=
  nested room fun room => do
    let (opening, condition) ← choiceHead room
    let ifTrue ← typeRef
    let _ ← token .colon
    let ifFalse ← typeRef
    let closing ← token .rightParen
    return ⟨condition, ifTrue, ifFalse, opening.span.through closing.span⟩

/-- A type whose delimiter may still follow. -/
def memberType (room : Nat) : ParserOn σ MemberType := do
  if ← nextIsKind .leftParen then
    return .chosen (← typeChoice room)
  else if ← nextIsKind .dataType then
    return .plain (.data (← dataType))
  else if ← nextIsKind .identifier then
    return .plain (.named (← path))
  else
    unexpected .type

/-- The byte order, if one is written, and the type. -/
def orderAndType (room : Nat) : ParserOn σ (Option OrderRule × MemberType) := do
  match ← byteOrder? with
  | some order => return (some (.fixed order), ← memberType room)
  | none =>
    if ← nextIsKind .leftParen then
      match ← orderChoice? room with
      | some choice => return (some (.chosen choice), ← memberType room)
      | none => return (none, .chosen (← typeChoice room))
    else
      return (none, ← memberType room)

/-- The rest of a repetition whose bracket has been opened. What is no count is a condition. -/
def repetition (room : Nat) : ParserOn σ Repetition := do
  if ← eat .rightBracket then
    return .untilEnd
  else
    tryCatch
      (do
        let amount ← expr room
        let _ ← token .rightBracket
        return .count amount)
      fun _ => do
        let condition ← condition room
        let _ ← token .rightBracket
        return .whileTrue condition

/-- The type with the delimiter that follows the repetition, if it takes one. -/
def withLateDelimiter : MemberType → ParserOn σ MemberType
  | .plain (.data type) => do
    if type.primitive.takesDelimiter && (← nextIsKind .leftParen) then
      if type.delimiter.isSome then
        fail (.secondDelimiter type.primitive)
      else
        return .plain (.data { type with delimiter := some (← delimiter) })
    else
      return .plain (.data (← withDefaultDelimiter type))
  | type => return type

/-- All of a member but its name. Without a byte order it has that of the struct. -/
def memberInfo (room : Nat) (inherited : OrderRule) : ParserOn σ MemberInfo := do
  let (order, type) ← orderAndType room
  let repetition ←
    if ← eat .leftBracket then
      some <$> repetition room
    else
      pure none
  let type ← withLateDelimiter type
  return ⟨type, order.getD inherited, repetition⟩

def member (room : Nat) (inherited : OrderRule) : ParserOn σ Member := do
  let info ← memberInfo room inherited
  let name ← name .memberName
  let _ ← token .comma
  return ⟨name, info⟩

end RecordLayout.Parser
