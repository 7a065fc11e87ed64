import Mathlib
import RecordLayout.Grammar.Declaration
import RecordLayout.Proofs.Reader.State

/-! The parsers of descriptions, written for readers. A routine that fails leaves the reader where it failed, so one
that tries something in vain has to go back by itself, and one that went a level deeper has to come up again. How deep
it is, is what the reader says and not what the routine was given. -/

namespace RecordLayout

/-- What has no outcome has looked for a token where there is none, or does not end. -/
abbrev Routine := ExceptT Failure (StateT Reader Part)

namespace Routine

/-! ### Tokens -/

/-- The token at the place, of which there has to be one. -/
def current : Routine Token :=
  fun reader => (Part.ofOption reader.tokens[reader.place]?).map fun token => (.ok token, reader)

/-- Passes over the token at the place and the comments behind it. The end of input is not left. -/
def advance : Routine Unit :=
  fun reader => (Part.ofOption reader.tokens[reader.place]?).map fun token =>
    (.ok (), if token.kind = .endOfInput then reader else reader.next)

def place : Routine Nat :=
  fun reader => .some (.ok reader.place, reader)

/-- Goes back to a place that was kept. -/
def rollback (place : Nat) : Routine Unit :=
  fun reader => .some (.ok (), { reader with place := place })

/-- Whether a token of the kind is at the given place. -/
def kindAt (place : Nat) (kind : Token.Kind) : Routine Bool :=
  fun reader => .some (.ok ((reader.tokens[place]?).any (·.kind == kind)), reader)

/-- The token at the place, unless it is the end of input. -/
def peek? : Routine (Option Token) := do
  let token ← current
  return if token.kind = .endOfInput then none else some token

def accept? (pick : Token → Option α) : Routine (Option α) := do
  match (← peek?).bind pick with
  | some value =>
    advance
    return some value
  | none => return none

def fail (fault : SyntaxFault) : Routine α := do
  throw (.fault ((← peek?).map Token.span) fault)

def failAt (span : Span) (fault : SyntaxFault) : Routine α :=
  throw (.fault (some span) fault)

def unexpected (wanted : Expectation) : Routine α := do
  match ← peek? with
  | none => throw (.ended wanted)
  | some token => throw (.fault (some token.span) (.unexpected wanted token))

def expect (wanted : Expectation) (pick : Token → Option α) : Routine α := do
  match ← accept? pick with
  | some value => return value
  | none => unexpected wanted

def token (kind : Token.Kind) : Routine Token :=
  expect (.kind kind) (Parser.ofKind? kind)

def keyword (word : String) : Routine Token :=
  expect (.keyword word) fun token => if token.isKeyword word then some token else none

def name (wanted : Expectation) : Routine Name :=
  expect wanted fun token => (Parser.ofKind? .identifier token).map fun found =>
    ⟨found.content, found.span⟩

def nextIs (test : Token → Bool) : Routine Bool := do
  return (← peek?).any test

def nextIsKind (kind : Token.Kind) : Routine Bool :=
  nextIs (·.kind == kind)

def isAtEnd : Routine Bool := do
  return (← peek?).isNone

def eat (kind : Token.Kind) : Routine Bool := do
  return (← accept? (Parser.ofKind? kind)).isSome

/-! ### Loops and nesting -/

/-- Whether a loop ends with an item, and what the next turn begins with otherwise. -/
def onward (found : List α) : Except Failure (Option α) × Reader →
    (Except Failure (List α) × Reader) ⊕ (List α × Reader)
  | (.ok (some value), after) => .inr (value :: found, after)
  | (.ok none, after) => .inl (.ok found.reverse, after)
  | (.error failure, after) => .inl (.error failure, after)

/-- A turn of a loop. -/
def turn (item : Routine (Option α)) (state : List α × Reader) :
    Part ((Except Failure (List α) × Reader) ⊕ (List α × Reader)) :=
  (item state.2).map (onward state.1)

/-- Reads items until one is absent, after those already found. Nothing bounds how many there are. -/
def repeating (item : Routine (Option α)) (found : List α) : Routine (List α) :=
  fun reader => PFun.fix (turn item) (found, reader)

def many (item : Routine (Option α)) : Routine (List α) :=
  repeating item []

def manyInBraces (item : Routine α) : Routine (List α) :=
  many do
    if (← isAtEnd) || (← nextIsKind .rightBrace) then
      return none
    else
      return some (← item)

def inParens (inner : Routine α) : Routine α := do
  let _ ← token .leftParen
  let value ← inner
  let _ ← token .rightParen
  return value

/-- Reads something one level deeper, and comes up again whether it was read or not. -/
def nested (body : Routine α) : Routine α :=
  fun reader =>
    if reader.limit ≤ reader.depth then
      fail .nestingTooDeep reader
    else
      (body reader.deeper).map fun (result, after) => (result, after.shallower)

/-! ### Expressions -/

def path : Routine Path := do
  let first ← token .identifier
  let others ← many do
    if ← eat .dot then
      return some (← expect .segment (Parser.ofKind? .identifier))
    else
      return none
  return ⟨(first :: others).map Token.content, first.span.through (others.getLastD first).span⟩

def integer : Routine (Int64 × Span) := do
  let token ← token .integer
  match Decimal.int64? token.content.toList with
  | some value => return (value, token.span)
  | none => failAt token.span (.integerOutOfRange token.content)

def float : Routine (Float × Span) := do
  let token ← token .float
  match Decimal.float? token.content.toList with
  | some value => return (value, token.span)
  | none => failAt token.span .malformedFloat

def chain (operator? : Token → Option Operator) (operand : Routine Expr) : Routine Expr := do
  let first ← operand
  let others ← many do
    match ← accept? operator? with
    | some op => return some (op, ← operand)
    | none => return none
  return others.foldl (fun left (op, right) => .binary left op right) first

def signed (factor : Routine Expr) : Routine Expr := do
  let (op, span) ← expect .expression fun token => (Parser.additive? token).map (·, token.span)
  let operand ← factor
  return .unary op operand (span.through operand.span)

def factorWith (signed grouped : Routine Expr) : Routine Expr := do
  match ← peek? with
  | none => unexpected .expression
  | some next =>
    if (Parser.additive? next).isSome then
      signed
    else
      match next.kind with
      | .integer =>
        let (value, span) ← integer
        return .int value span
      | .float =>
        let (value, span) ← float
        return .float value span
      | .leftParen => grouped
      | .identifier => return .ref (← path)
      | _ => unexpected .expression

/-- Factors, as far as they call for others no more often than this. -/
def factorWithin : Nat → Routine Expr
  | 0 => fun _ => .none
  | calls + 1 =>
    factorWith (nested (signed (factorWithin calls)))
      (nested (inParens (chain Parser.additive? (chain Parser.multiplicative? (factorWithin calls)))))

/-- Each call for another factor is a level deeper, and the last one fails. -/
def factor : Routine Expr :=
  fun reader => factorWithin (reader.limit + 1) reader

def term : Routine Expr :=
  chain Parser.multiplicative? factor

def expr : Routine Expr :=
  chain Parser.additive? term

/-! ### Conditions -/

/-- Two expressions with a relation between them. -/
def comparison : Routine Condition := do
  let left ← expr
  let op ← expect .comparison Parser.relation?
  let right ← expr
  return .relation left op right

/-- A comparison, or from the same place a condition in parentheses. -/
def relationOrGroup (inner : Routine Condition) : Routine Condition := do
  let start ← place
  tryCatch comparison fun failure => do
    if ← kindAt start .leftParen then
      rollback start
      inParens inner
    else
      throw failure

def junction (op : Connective) (kind : Token.Kind) (item : Routine Condition) : Routine Condition := do
  let first ← item
  let others ← many do
    if ← eat kind then
      return some (← item)
    else
      return none
  return others.foldl (fun left right => .junction left op right) first

/-- Conditions, as far as they call for others no more often than this. -/
def conditionWithin : Nat → Routine Condition
  | 0 => fun _ => .none
  | calls + 1 => nested (junction .or .or (junction .and .and (relationOrGroup (conditionWithin calls))))

def condition : Routine Condition :=
  fun reader => conditionWithin (reader.limit + 1) reader

def relation : Routine Condition :=
  relationOrGroup condition

def conjunction : Routine Condition :=
  junction .and .and relation

/-! ### Choices -/

def byteOrder? : Routine (Option ByteOrder) :=
  accept? fun token =>
    if token.kind = .keyword then ByteOrder.ofKeyword? token.content else none

def choiceHead : Routine (Token × Condition) := do
  let opening ← token .leftParen
  let condition ← condition
  let _ ← token .question
  return (opening, condition)

/-- The alternatives of a choice of byte orders that began at the place. -/
def orderArms? (start : Nat) (opening : Token) (condition : Condition) : Routine (Option (Choice ByteOrder)) := do
  match ← byteOrder? with
  | none =>
    rollback start
    return none
  | some ifTrue =>
    let _ ← token .colon
    match ← byteOrder? with
    | none =>
      rollback start
      return none
    | some ifFalse =>
      let closing ← token .rightParen
      return some ⟨condition, ifTrue, ifFalse, opening.span.through closing.span⟩

def orderChoice? : Routine (Option (Choice ByteOrder)) := do
  let start ← place
  nested do
    let (opening, condition) ← choiceHead
    orderArms? start opening condition

/-! ### Types -/

def hexEscape : Routine Delimiter := do
  let backslash ← token .backslash
  let digits ← token .identifier
  let span := backslash.span.through digits.span
  match Parser.hexEscape? digits.content.toList with
  | some value => return .int value span
  | none => failAt span (.malformedHexEscape digits.content)

def delimiter : Routine Delimiter :=
  inParens do
    match ← peek? with
    | none => unexpected .delimiter
    | some next =>
      match next.kind with
      | .string =>
        advance
        return .string next.content next.span
      | .char =>
        advance
        return .char next.content next.span
      | .integer =>
        let (value, span) ← integer
        return .int value span
      | .backslash => hexEscape
      | .identifier => return .member (← path)
      | _ => unexpected .delimiter

def dataType : Routine DataType := do
  let token ← token .dataType
  match Primitive.ofName? token.content with
  | none => failAt token.span (.unknownDataType token.content)
  | some primitive =>
    if primitive.takesDelimiter && (← nextIsKind .leftParen) then
      return ⟨primitive, some (← delimiter), token.span⟩
    else
      return ⟨primitive, none, token.span⟩

def withDefaultDelimiter (type : DataType) : Routine DataType :=
  match type.primitive, type.delimiter with
  | .string, none => return { type with delimiter := some (.int 0 type.span) }
  | .bytes, none => failAt type.span .bytesWithoutDelimiter
  | _, _ => return type

def typeRef : Routine TypeRef := do
  if ← nextIsKind .dataType then
    return .data (← withDefaultDelimiter (← dataType))
  else if ← nextIsKind .identifier then
    return .named (← path)
  else
    unexpected .type

def typeChoice : Routine (Choice TypeRef) :=
  nested do
    let (opening, condition) ← choiceHead
    let ifTrue ← typeRef
    let _ ← token .colon
    let ifFalse ← typeRef
    let closing ← token .rightParen
    return ⟨condition, ifTrue, ifFalse, opening.span.through closing.span⟩

def memberType : Routine MemberType := do
  if ← nextIsKind .leftParen then
    return .chosen (← typeChoice)
  else if ← nextIsKind .dataType then
    return .plain (.data (← dataType))
  else if ← nextIsKind .identifier then
    return .plain (.named (← path))
  else
    unexpected .type

/-! ### Members -/

def orderAndType : Routine (Option OrderRule × MemberType) := do
  match ← byteOrder? with
  | some order => return (some (.fixed order), ← memberType)
  | none =>
    if ← nextIsKind .leftParen then
      match ← orderChoice? with
      | some choice => return (some (.chosen choice), ← memberType)
      | none => return (none, .chosen (← typeChoice))
    else
      return (none, ← memberType)

/-- A count with the bracket behind it. -/
def count : Routine Repetition := do
  let amount ← expr
  let _ ← token .rightBracket
  return .count amount

/-- The rest of a repetition. What is no count is a condition from the same place. -/
def repetition : Routine Repetition := do
  if ← eat .rightBracket then
    return .untilEnd
  else
    let start ← place
    tryCatch count fun _ => do
      rollback start
      let condition ← condition
      let _ ← token .rightBracket
      return .whileTrue condition

def withLateDelimiter : MemberType → Routine MemberType
  | .plain (.data type) => do
    if type.primitive.takesDelimiter && (← nextIsKind .leftParen) then
      if type.delimiter.isSome then
        fail (.secondDelimiter type.primitive)
      else
        return .plain (.data { type with delimiter := some (← delimiter) })
    else
      return .plain (.data (← withDefaultDelimiter type))
  | type => return type

def memberInfo (inherited : OrderRule) : Routine MemberInfo := do
  let (order, type) ← orderAndType
  let repetition ←
    if ← eat .leftBracket then
      some <$> repetition
    else
      pure none
  let type ← withLateDelimiter type
  return ⟨type, order.getD inherited, repetition⟩

def member (inherited : OrderRule) : Routine Member := do
  let info ← memberInfo inherited
  let name ← name .memberName
  let _ ← token .comma
  return ⟨name, info⟩

def memberGroup (inherited : OrderRule) : Routine (List Member) := do
  let opening ← token .leftBrace
  let members ← manyInBraces (member inherited)
  let closing ← token .rightBrace
  if members.isEmpty then
    failAt (opening.span.through closing.span) .emptyGroup
  else
    return members

/-! ### Selections -/

def caseValue : Routine Expr := do
  let value ← expr
  let _ ← token .colon
  return value

def caseBody (body : Routine α) : Routine α := do
  let body ← body
  let _ ← token .comma
  return body

def singleCase (inherited : OrderRule) : Routine (Case MemberInfo) := do
  let value ← caseValue
  if ← nextIsKind .leftBrace then
    failAt value.span .mixedCases
  else
    return ⟨value, ← caseBody (memberInfo inherited)⟩

def groupCase (inherited : OrderRule) : Routine (Case (List Member)) := do
  let value ← caseValue
  if ← nextIsKind .leftBrace then
    return ⟨value, ← caseBody (memberGroup inherited)⟩
  else
    failAt value.span .mixedCases

def selected (inherited : OrderRule) : Routine Selected := do
  let _ ← token .leftBrace
  if ← nextIsKind .rightBrace then
    fail .noCases
  else if ← isAtEnd then
    unexpected (.kind .rightBrace)
  else
    let value ← caseValue
    if ← nextIsKind .leftBrace then
      let body ← caseBody (memberGroup inherited)
      let others ← manyInBraces (groupCase inherited)
      let _ ← token .rightBrace
      if ← nextIsKind .identifier then
        fail .namedGroups
      else
        return .groups (⟨value, body⟩ :: others)
    else
      let body ← caseBody (memberInfo inherited)
      let others ← manyInBraces (singleCase inherited)
      let _ ← token .rightBrace
      let name ← name .selectionName
      return .single name (⟨value, body⟩ :: others)

def selection (inherited : OrderRule) : Routine Selection := do
  let opening ← keyword "match"
  let condition ← inParens expr
  let selected ← selected inherited
  let _ ← token .comma
  return ⟨condition, selected, opening.span⟩

/-! ### Declarations -/

def structItem (inherited : OrderRule) : Routine StructItem := do
  if ← nextIs (·.isKeyword "match") then
    return .selection (← selection inherited)
  else
    return .member (← member inherited)

def structOrder : Routine OrderRule := do
  match ← byteOrder? with
  | some order => return .fixed order
  | none =>
    if ← nextIsKind .leftParen then
      match ← orderChoice? with
      | some choice => return .chosen choice
      | none => fail .notByteOrders
    else
      return .fixed .big

def struct : Routine StructDef := do
  let order ← structOrder
  let _ ← keyword "struct"
  let name ← name .structName
  let _ ← token .leftBrace
  let items ← manyInBraces (structItem order)
  let _ ← token .rightBrace
  return ⟨name, order, items⟩

def size? : Routine (Option Expr) := do
  if ← nextIsKind .leftParen then
    return some (← inParens expr)
  else
    return none

def bitfieldMember : Routine BitfieldMember := do
  let name ← name .bitfieldMemberName
  let size ← size?
  let _ ← token .comma
  return ⟨name, size.getD (.int 1 name.span)⟩

def bitfield : Routine BitfieldDef := do
  let _ ← keyword "bitfield"
  let name ← name .bitfieldName
  let byteSize ← size?
  let _ ← token .leftBrace
  let members ← manyInBraces bitfieldMember
  let _ ← token .rightBrace
  return ⟨name, byteSize, members⟩

def declaration : Routine Declaration := do
  if ← nextIs (·.isKeyword "bitfield") then
    return .bitfield (← bitfield)
  else if ← nextIs Parser.beginsStruct then
    return .struct (← struct)
  else
    unexpected .declaration

def declarations : Routine (List Declaration) :=
  many do
    if ← isAtEnd then
      return none
    else
      return some (← declaration)

end Routine

end RecordLayout
