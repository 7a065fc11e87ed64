import RecordLayout.Declaration
import RecordLayout.Grammar.Cursor
import RecordLayout.Grammar.Member

/-!
Selections, structs, bitfields, and whole descriptions. The first case of a selection decides
whether its cases are types of one member or groups of members, and the others have to agree.
-/

namespace RecordLayout

namespace Parser

variable {σ : Type} [TokenSource σ]

/-- Members in braces, at least one. -/
def memberGroup (room : Nat) (inherited : OrderRule) : ParserOn σ (List Member) := do
  let opening ← token .leftBrace
  let members ← manyInBraces (member room inherited)
  let closing ← token .rightBrace
  if members.isEmpty then
    failAt (opening.span.through closing.span) .emptyGroup
  else
    return members

/-- The value of a case and the colon after it. -/
def caseValue (room : Nat) : ParserOn σ Expr := do
  let value ← expr room
  let _ ← token .colon
  return value

/-- What follows the value of a case. -/
def caseBody (body : ParserOn σ α) : ParserOn σ α := do
  let body ← body
  let _ ← token .comma
  return body

def singleCase (room : Nat) (inherited : OrderRule) : ParserOn σ (Case MemberInfo) := do
  let value ← caseValue room
  if ← nextIsKind .leftBrace then
    failAt value.span .mixedCases
  else
    return ⟨value, ← caseBody (memberInfo room inherited)⟩

def groupCase (room : Nat) (inherited : OrderRule) : ParserOn σ (Case (List Member)) := do
  let value ← caseValue room
  if ← nextIsKind .leftBrace then
    return ⟨value, ← caseBody (memberGroup room inherited)⟩
  else
    failAt value.span .mixedCases

/-- The cases in their braces and the name after them, if they are types of one member. -/
def selected (room : Nat) (inherited : OrderRule) : ParserOn σ Selected := do
  let _ ← token .leftBrace
  if ← nextIsKind .rightBrace then
    fail .noCases
  else if ← isAtEnd then
    unexpected (.kind .rightBrace)
  else
    let value ← caseValue room
    if ← nextIsKind .leftBrace then
      let body ← caseBody (memberGroup room inherited)
      let others ← manyInBraces (groupCase room inherited)
      let _ ← token .rightBrace
      if ← nextIsKind .identifier then
        fail .namedGroups
      else
        return .groups (⟨value, body⟩ :: others)
    else
      let body ← caseBody (memberInfo room inherited)
      let others ← manyInBraces (singleCase room inherited)
      let _ ← token .rightBrace
      let name ← name .selectionName
      return .single name (⟨value, body⟩ :: others)

def selection (room : Nat) (inherited : OrderRule) : ParserOn σ Selection := do
  let opening ← keyword "match"
  let condition ← inParens (expr room)
  let selected ← selected room inherited
  let _ ← token .comma
  return ⟨condition, selected, opening.span⟩

def structItem (room : Nat) (inherited : OrderRule) : ParserOn σ StructItem := do
  if ← nextIs (·.isKeyword "match") then
    return .selection (← selection room inherited)
  else
    return .member (← member room inherited)

/-- The byte order before a struct; without one the most significant byte comes first. -/
def structOrder (room : Nat) : ParserOn σ OrderRule := do
  match ← byteOrder? with
  | some order => return .fixed order
  | none =>
    if ← nextIsKind .leftParen then
      match ← orderChoice? room with
      | some choice => return .chosen choice
      | none => fail .notByteOrders
    else
      return .fixed .big

def struct (room : Nat) : ParserOn σ StructDef := do
  let order ← structOrder room
  let _ ← keyword "struct"
  let name ← name .structName
  let _ ← token .leftBrace
  let items ← manyInBraces (structItem room order)
  let _ ← token .rightBrace
  return ⟨name, order, items⟩

/-- An expression in parentheses, if there is one. -/
def size? (room : Nat) : ParserOn σ (Option Expr) := do
  if ← nextIsKind .leftParen then
    return some (← inParens (expr room))
  else
    return none

/-- A member of a bitfield. Without a size it is one bit wide. -/
def bitfieldMember (room : Nat) : ParserOn σ BitfieldMember := do
  let name ← name .bitfieldMemberName
  let size ← size? room
  let _ ← token .comma
  return ⟨name, size.getD (.int 1 name.span)⟩

def bitfield (room : Nat) : ParserOn σ BitfieldDef := do
  let _ ← keyword "bitfield"
  let name ← name .bitfieldName
  let byteSize ← size? room
  let _ ← token .leftBrace
  let members ← manyInBraces (bitfieldMember room)
  let _ ← token .rightBrace
  return ⟨name, byteSize, members⟩

/-- Whether a token may be the first of a struct. -/
def beginsStruct (token : Token) : Bool :=
  token.isKeyword "struct" || token.isKeyword "LE" || token.isKeyword "BE" ||
    token.kind == .leftParen

def declaration (room : Nat) : ParserOn σ Declaration := do
  if ← nextIs (·.isKeyword "bitfield") then
    return .bitfield (← bitfield room)
  else if ← nextIs beginsStruct then
    return .struct (← struct room)
  else
    unexpected .declaration

/-- Declarations up to the end. -/
def declarations (room : Nat) : ParserOn σ (List Declaration) :=
  many do
    if ← isAtEnd then
      return none
    else
      return some (← declaration room)

end Parser

/-- The declarations that the tokens make up, with the deepest nesting allowed in them. -/
def Declaration.ofTokens (nesting : Nat) (tokens : List Token) :
    Except CompileError (List Declaration) :=
  match (Parser.declarations nesting).run (Cursor.start tokens) with
  | .ok (declared, _) => .ok declared
  | .error failure => .error (failure.toError (Token.endSpan tokens))

end RecordLayout
