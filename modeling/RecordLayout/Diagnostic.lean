import RecordLayout.Position

/-!
What can be wrong with a layout description. Every stage stops at its first mistake, and a mistake
is a category, the spans it concerns and a detail; the message is category and detail.
-/

namespace RecordLayout

inductive CompileError where
  /-- A character that begins no token. -/
  | illegalCharacter (span : Span) (character : Char)
  /-- The text or the tokens end where one of the expected things has to follow. -/
  | expectedMore (span : Span) (expected : List String)
  | invalidSyntax (span : Span) (explanation : String)
  | unknownType (span : Span) (typeName structName : String)
  | duplicateMember (spans : List Span) (memberName structName : String)
  | duplicateDeclaration (spans : List Span) (name : String)
  /-- The first and the last name of the cycle are the same. -/
  | recursiveStruct (spans : List Span) (cycle : List String)
deriving DecidableEq

namespace CompileError

def category : CompileError → String
  | illegalCharacter .. => "Illegal character error"
  | expectedMore .. => "Expected more chars error"
  | invalidSyntax .. => "Invalid syntax error"
  | unknownType .. => "Unknown data type error"
  | duplicateMember .. => "Duplicate member error"
  | duplicateDeclaration .. => "Duplicate struct or bitfield error"
  | recursiveStruct .. => "Recursive nested structs error"

def spans : CompileError → List Span
  | illegalCharacter span _ | expectedMore span _ | invalidSyntax span _ | unknownType span _ _ =>
    [span]
  | duplicateMember spans _ _ | duplicateDeclaration spans _ | recursiveStruct spans _ => spans

def detail : CompileError → String
  | illegalCharacter _ character => "'" ++ character.toString ++ "'"
  | expectedMore _ expected => ", ".intercalate (expected.map fun wanted => "'" ++ wanted ++ "'")
  | invalidSyntax _ explanation => explanation
  | unknownType _ typeName structName => "\"" ++ typeName ++ "\" in struct " ++ structName
  | duplicateMember _ memberName structName => memberName ++ " in struct " ++ structName
  | duplicateDeclaration _ name => name
  | recursiveStruct _ cycle => " -> ".intercalate cycle

def message (error : CompileError) : String :=
  error.category ++ ": " ++ error.detail

end CompileError

end RecordLayout
