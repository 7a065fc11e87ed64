import RecordLayout.Expr

/-!
Conditions compare expressions and join comparisons. They choose between two types or byte orders
and say how long a list goes on.
-/

namespace RecordLayout

inductive Relation where
  | equal | notEqual | less | greater | lessEqual | greaterEqual
deriving DecidableEq

def Relation.symbol : Relation → String
  | equal => "=="
  | notEqual => "!="
  | less => "<"
  | greater => ">"
  | lessEqual => "<="
  | greaterEqual => ">="

inductive Connective where
  | and | or
deriving DecidableEq

def Connective.symbol : Connective → String
  | and => "&&"
  | or => "||"

inductive Condition where
  | relation (left : Expr) (op : Relation) (right : Expr)
  | junction (left : Condition) (op : Connective) (right : Condition)

namespace Condition

def span : Condition → Span
  | relation left _ right => left.span.through right.span
  | junction left _ right => left.span.through right.span

def text : Condition → String
  | relation left op right => "(" ++ left.text ++ " " ++ op.symbol ++ " " ++ right.text ++ ")"
  | junction left op right => "(" ++ left.text ++ " " ++ op.symbol ++ " " ++ right.text ++ ")"

end Condition

end RecordLayout
