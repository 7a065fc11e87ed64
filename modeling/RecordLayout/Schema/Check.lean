import RecordLayout.Schema.Names
import RecordLayout.Schema.Walk

/-!
When declarations are a schema: no name is used twice in a scope, every type that is mentioned is
declared, and no struct contains itself. Names come first, then types and cycles member by member.
-/

namespace RecordLayout.Schema

/-- Checks the types of one member, given the structs known to contain no cycle. -/
def checkInfo (schema : Schema) (struct : StructDef) (finished : List String) (info : MemberInfo) :
    Except CompileError (List String) :=
  match info.type.mentioned.find? (fun path => !schema.declares path.name) with
  | some path => .error (.unknownType path.span path.name struct.name.text)
  | none =>
    match info.type.contained? with
    | some path => (Walk.start struct path finished).run schema
    | none => .ok finished

def checkStruct (schema : Schema) (finished : List String) (struct : StructDef) :
    Except CompileError (List String) :=
  struct.infos.foldlM (schema.checkInfo struct) finished

/-- The schema of the declarations, or the first thing that is wrong with them. -/
def ofDeclarations (declarations : List Declaration) : Except CompileError Schema := do
  let schema : Schema := ⟨declarations⟩
  schema.checkDeclarationNames
  schema.structs.forM checkMemberNames
  let _ ← schema.structs.foldlM schema.checkStruct []
  return schema

end RecordLayout.Schema
