import RecordLayout.Condition
import RecordLayout.Grammar.Expr

/-!
Conditions: chains joined by `||` of chains joined by `&&` of comparisons, both grouped to the left.
A parenthesis begins either an expression or a condition; it is a condition where no comparison can
be read.
-/

namespace RecordLayout.Parser

variable {σ : Type} [TokenSource σ]

def relation? (token : Token) : Option Relation :=
  match token.kind with
  | .equal => some .equal
  | .notEqual => some .notEqual
  | .less => some .less
  | .greater => some .greater
  | .lessEqual => some .lessEqual
  | .greaterEqual => some .greaterEqual
  | _ => none

/-- Two expressions with a relation between them. -/
def comparison (operand : ParserOn σ Expr) : ParserOn σ Condition := do
  let left ← operand
  let op ← expect .comparison relation?
  let right ← operand
  return .relation left op right

/-- A comparison, or a condition in parentheses where there is none. -/
def relationOrGroup (operand : ParserOn σ Expr) (inner : ParserOn σ Condition) : ParserOn σ Condition :=
  tryCatch (comparison operand) fun failure => do
    if ← nextIsKind .leftParen then
      inParens inner
    else
      throw failure

/-- Conditions with a connective between them, grouped to the left. -/
def junction (op : Connective) (kind : Token.Kind) (item : ParserOn σ Condition) : ParserOn σ Condition := do
  let first ← item
  let others ← many do
    if ← eat kind then
      return some (← item)
    else
      return none
  return others.foldl (fun left right => .junction left op right) first

def condition (room : Nat) : ParserOn σ Condition :=
  fun source =>
    match room with
    | 0 => fail .nestingTooDeep source
    | room + 1 =>
      junction .or .or (junction .and .and (relationOrGroup (expr room) (condition room))) source

end RecordLayout.Parser
