import RecordLayout.Diagnostic
import RecordLayout.Schema

/-!
Names have to be distinct within their scope. All declarations are one scope. The members of a
struct outside groups are a scope, and so are they together with any one group of a selection: only
one group of a selection is ever present.
-/

namespace RecordLayout

namespace Name

/-- The first name that occurs again. -/
def firstRepeated? : List Name → Option Name
  | [] => none
  | name :: rest => if rest.any (·.text == name.text) then some name else firstRepeated? rest

/-- Where a name occurs, in order. -/
def spansOf (text : String) (names : List Name) : List Span :=
  (names.filter (·.text == text)).map Name.span

/-- Fails with the first name that occurs again and all places where it does. -/
def checkDistinct (names : List Name) (error : List Span → String → CompileError) :
    Except CompileError Unit :=
  match firstRepeated? names with
  | some name => .error (error (spansOf name.text names) name.text)
  | none => .ok ()

end Name

namespace StructItem

/-- The names that the item adds to every scope of its struct. -/
def sharedNames : StructItem → List Name
  | .member plain => [plain.name]
  | .selection cases =>
    match cases.selected with
    | .single name _ => [name]
    | .groups _ => []

/-- The names of each group of the item. -/
def groupNames : StructItem → List (List Name)
  | .member _ => []
  | .selection cases =>
    match cases.selected with
    | .single .. => []
    | .groups groups => groups.map fun group => group.body.map Member.name

end StructItem

/-- The names of the members of a struct that are present together, whichever group is. -/
def StructDef.scopes (struct : StructDef) : List (List Name) :=
  let shared := struct.items.flatMap StructItem.sharedNames
  shared :: (struct.items.flatMap StructItem.groupNames).map (shared ++ ·)

namespace Schema

def checkDeclarationNames (schema : Schema) : Except CompileError Unit :=
  Name.checkDistinct (schema.declarations.map Declaration.name) .duplicateDeclaration

def checkMemberNames (struct : StructDef) : Except CompileError Unit :=
  struct.scopes.forM fun scope =>
    Name.checkDistinct scope fun spans name => .duplicateMember spans name struct.name.text

end Schema

end RecordLayout
