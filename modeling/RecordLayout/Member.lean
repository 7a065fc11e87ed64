import RecordLayout.Condition
import RecordLayout.DataType

/-!
Members of structs: what type a member has, in which order its bytes come, how often it repeats,
and selections, which pick the type of one member or a whole group of members by a value.
-/

namespace RecordLayout

inductive ByteOrder where
  | big | little
deriving DecidableEq

namespace ByteOrder

def keyword : ByteOrder → String
  | big => "BE"
  | little => "LE"

def ofKeyword? : String → Option ByteOrder
  | "BE" => some big
  | "LE" => some little
  | _ => none

end ByteOrder

/-- One of two alternatives, as a condition has it. -/
structure Choice (α : Type) where
  condition : Condition
  ifTrue : α
  ifFalse : α
  span : Span

/-- A choice with its alternatives as text. -/
def Choice.text (choice : Choice α) (alternative : α → String) : String :=
  "(" ++ choice.condition.text ++ " ? " ++ alternative choice.ifTrue ++ " : " ++
    alternative choice.ifFalse ++ ")"

inductive OrderRule where
  | fixed (order : ByteOrder)
  | chosen (choice : Choice ByteOrder)

def OrderRule.text : OrderRule → String
  | fixed order => order.keyword
  | chosen choice => choice.text ByteOrder.keyword

/-- A primitive type or the name of a declared one. -/
inductive TypeRef where
  | data (type : DataType)
  | named (path : Path)

def TypeRef.text : TypeRef → String
  | data type => type.primitive.name
  | named path => path.name

inductive MemberType where
  | plain (type : TypeRef)
  | chosen (choice : Choice TypeRef)

namespace MemberType

def text : MemberType → String
  | plain type => type.text
  | chosen choice => choice.text TypeRef.text

/-- The delimiter of a plain primitive type. -/
def delimiter? : MemberType → Option Delimiter
  | plain (.data type) => type.delimiter
  | _ => none

end MemberType

/-- How often a member repeats. -/
inductive Repetition where
  /-- Until the data ends. -/
  | untilEnd
  | count (amount : Expr)
  /-- As long as the condition holds. -/
  | whileTrue (condition : Condition)

def Repetition.text : Repetition → String
  | untilEnd => "[]"
  | count amount => "[" ++ amount.text ++ "]"
  | whileTrue condition => "[while " ++ condition.text ++ "]"

/-- All there is to a member but its name. -/
structure MemberInfo where
  type : MemberType
  order : OrderRule
  repetition : Option Repetition

/-- Type, repetition, byte order and delimiter in one line. -/
def MemberInfo.text (info : MemberInfo) : String :=
  info.type.text ++ (info.repetition.map Repetition.text).getD "" ++ " " ++ info.order.text ++
    match info.type.delimiter? with
    | some delimiter => " until " ++ delimiter.text
    | none => ""

structure Member where
  name : Name
  info : MemberInfo

/-- What a selection does when its value is the given one. -/
structure Case (α : Type) where
  value : Expr
  body : α

inductive Selected where
  /-- The cases are the types of one member. -/
  | single (name : Name) (cases : List (Case MemberInfo))
  /-- The cases are groups of members. -/
  | groups (cases : List (Case (List Member)))

/-- Cases by the value of an expression. The span is that of the word it begins with. -/
structure Selection where
  condition : Expr
  selected : Selected
  span : Span

end RecordLayout
