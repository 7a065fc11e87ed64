import RecordLayout.Decimal.Style
import RecordLayout.Position

/-!
Arithmetic expressions: how many elements a list has, how many bits a bitfield member takes, which
case of a selection applies. The text of an expression puts every operation in parentheses.
-/

namespace RecordLayout

/-- A declared name with the span of its token. -/
structure Name where
  text : String
  span : Span
deriving DecidableEq

/-- A reference to a member or a type, its segments separated by dots. -/
structure Path where
  segments : List String
  span : Span
deriving DecidableEq

def Path.name (path : Path) : String :=
  ".".intercalate path.segments

/-- Operators on numbers. Complement is unary in meaning but is read between operands too. -/
inductive Operator where
  | add | sub | mul | div
  | bitAnd | bitOr | bitXor | complement
  | shiftLeft | shiftRight
deriving DecidableEq

namespace Operator

def all : List Operator :=
  [add, sub, mul, div, bitAnd, bitOr, bitXor, complement, shiftLeft, shiftRight]

def symbol : Operator → String
  | add => "+"
  | sub => "-"
  | mul => "*"
  | div => "/"
  | bitAnd => "&"
  | bitOr => "|"
  | bitXor => "^"
  | complement => "~"
  | shiftLeft => "<<"
  | shiftRight => ">>"

def ofSymbol? (symbol : String) : Option Operator :=
  all.find? (·.symbol == symbol)

theorem ofSymbol?_symbol (op : Operator) : ofSymbol? op.symbol = some op := by
  cases op <;> rfl

end Operator

inductive Expr where
  | int (value : Int64) (span : Span)
  | float (value : Float) (span : Span)
  | ref (path : Path)
  | unary (op : Operator) (operand : Expr) (span : Span)
  | binary (left : Expr) (op : Operator) (right : Expr)

/-- Floating-point numbers are positional from a ten-thousandth up to 10 ^ 16, and whole ones
show a zero after the point. -/
def floatStyle : Decimal.Style where
  plainFrom := -4
  plainBelow := 16
  wholeTail := ".0"
  exponentMark := "e"
  infinity := "inf"
  notANumber := "NaN"

namespace Expr

/-- From the first token of the expression to its last; a parenthesis around it does not count. -/
def span : Expr → Span
  | int _ span | float _ span | unary _ _ span => span
  | ref path => path.span
  | binary left _ right => left.span.through right.span

def text : Expr → String
  | int value _ => toString value.toInt
  | float value _ => floatStyle.write value
  | ref path => path.name
  | unary op operand _ => "(" ++ op.symbol ++ operand.text ++ ")"
  | binary left op right => "(" ++ left.text ++ " " ++ op.symbol ++ " " ++ right.text ++ ")"

end Expr

end RecordLayout
