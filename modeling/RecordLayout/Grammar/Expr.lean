import RecordLayout.Decimal.Numeral
import RecordLayout.Grammar.Parser

/-!
Expressions: chains of terms joined by additive and bitwise operators, which all bind alike; terms
are chains of factors joined by `*` and `/`. Both chains group to the left. A factor is a literal, a
path, a parenthesis, or an operator before another factor; the last two nest.
-/

namespace RecordLayout.Parser

variable {σ : Type} [TokenSource σ]

/-- Operators between terms, which may also stand before a factor. -/
def additive? (token : Token) : Option Operator :=
  match token.kind with
  | .plus => some .add
  | .minus => some .sub
  | .ampersand => some .bitAnd
  | .pipe => some .bitOr
  | .caret => some .bitXor
  | .tilde => some .complement
  | .shiftLeft => some .shiftLeft
  | .shiftRight => some .shiftRight
  | _ => none

/-- Operators between factors. -/
def multiplicative? (token : Token) : Option Operator :=
  match token.kind with
  | .star => some .mul
  | .slash => some .div
  | _ => none

/-- Names with dots between them. -/
def path : ParserOn σ Path := do
  let first ← token .identifier
  let others ← many do
    if ← eat .dot then
      return some (← expect .segment (ofKind? .identifier))
    else
      return none
  return ⟨(first :: others).map Token.content, first.span.through (others.getLastD first).span⟩

def integer : ParserOn σ (Int64 × Span) := do
  let token ← token .integer
  match Decimal.int64? token.content.toList with
  | some value => return (value, token.span)
  | none => failAt token.span (.integerOutOfRange token.content)

def float : ParserOn σ (Float × Span) := do
  let token ← token .float
  match Decimal.float? token.content.toList with
  | some value => return (value, token.span)
  | none => failAt token.span .malformedFloat

/-- Operands with operators between them, grouped to the left. -/
def chain (operator? : Token → Option Operator) (operand : ParserOn σ Expr) : ParserOn σ Expr := do
  let first ← operand
  let others ← many do
    match ← accept? operator? with
    | some op => return some (op, ← operand)
    | none => return none
  return others.foldl (fun left (op, right) => .binary left op right) first

/-- Chains of chains of factors. -/
def sum (factor : ParserOn σ Expr) : ParserOn σ Expr :=
  chain additive? (chain multiplicative? factor)

/-- An operator and what it stands before. -/
def signed (factor : ParserOn σ Expr) : ParserOn σ Expr := do
  let (op, span) ← expect .expression fun token => (additive? token).map (·, token.span)
  let operand ← factor
  return .unary op operand (span.through operand.span)

/-- A factor whose nested forms are read by the given parsers. -/
def factorWith (signed grouped : ParserOn σ Expr) : ParserOn σ Expr := do
  match ← peek? with
  | none => unexpected .expression
  | some next =>
    if (additive? next).isSome then
      signed
    else
      match next.kind with
      | .integer =>
        let (value, span) ← integer
        return .int value span
      | .float =>
        let (value, span) ← float
        return .float value span
      | .leftParen => grouped
      | .identifier => return .ref (← path)
      | _ => unexpected .expression

def factor (room : Nat) : ParserOn σ Expr :=
  fun source =>
    match room with
    | 0 => factorWith (fail .nestingTooDeep) (fail .nestingTooDeep) source
    | room + 1 => factorWith (signed (factor room)) (inParens (sum (factor room))) source

def expr (room : Nat) : ParserOn σ Expr :=
  sum (factor room)

end RecordLayout.Parser
