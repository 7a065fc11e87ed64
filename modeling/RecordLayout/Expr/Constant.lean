import RecordLayout.Expr

/-!
The values of expressions without references. Whole numbers are words of 64 bits and wrap around;
an operation on a whole and a floating-point number is one on floating-point numbers. What has no
value has none: division by zero, a quotient or a shift that leaves the word, and operations on
bits of floating-point numbers.
-/

namespace RecordLayout

inductive Constant where
  | int (value : Int64)
  | float (value : Float)

namespace Constant

def toInt64? : Constant → Option Int64
  | int value => some value
  | float _ => none

def toFloat : Constant → Float
  | int value => value.toFloat
  | float value => value

def text : Constant → String
  | int value => toString value.toInt
  | float value => floatStyle.write value

end Constant

namespace Operator

/-- A shift that moves no bit past the whole word. -/
def InWord (amount : Int64) : Prop :=
  0 ≤ amount.toInt ∧ amount.toInt < 64

instance (amount : Int64) : Decidable (InWord amount) :=
  inferInstanceAs (Decidable (_ ∧ _))

/-- The result of an operation on two words. -/
def onWords? (op : Operator) (left right : Int64) : Option Int64 :=
  match op with
  | add => some (left + right)
  | sub => some (left - right)
  | mul => some (left * right)
  | div =>
    if right = 0 ∨ left = Int64.minValue ∧ right = -1 then none else some (left / right)
  | bitAnd => some (left &&& right)
  | bitOr => some (left ||| right)
  | bitXor => some (left ^^^ right)
  | shiftLeft => if InWord right then some (left <<< right) else none
  | shiftRight => if InWord right then some (left >>> right) else none
  | complement => none

/-- The result of an operation on two floating-point numbers. -/
def onFloats? (op : Operator) (left right : Float) : Option Float :=
  match op with
  | add => some (left + right)
  | sub => some (left - right)
  | mul => some (left * right)
  | div => if right == 0 then none else some (left / right)
  | _ => none

def onConstants? (op : Operator) : Constant → Constant → Option Constant
  | .int left, .int right => (op.onWords? left right).map .int
  | left, right => (op.onFloats? left.toFloat right.toFloat).map .float

/-- The result of an operation on one number. -/
def onConstant? : Operator → Constant → Option Constant
  | add, value => some value
  | sub, .int value => some (.int (-value))
  | sub, .float value => some (.float (-value))
  | complement, .int value => some (.int (~~~value))
  | _, _ => none

end Operator

/-- The value of an expression of literals, if it has one. -/
def Expr.constant? : Expr → Option Constant
  | int value _ => some (.int value)
  | float value _ => some (.float value)
  | ref _ => none
  | unary op operand _ => operand.constant?.bind op.onConstant?
  | binary left op right => do op.onConstants? (← left.constant?) (← right.constant?)

/-- The value where there is one, and the text of the expression otherwise. -/
def Expr.foldedText (expr : Expr) : String :=
  match expr.constant? with
  | some value => value.text
  | none => expr.text

end RecordLayout
