import RecordLayout.Declaration

/-!
A schema: the declarations of a layout description in source order, to be looked up by name.
-/

namespace RecordLayout

structure Schema where
  declarations : List Declaration

namespace Schema

def structs (schema : Schema) : List StructDef :=
  schema.declarations.filterMap Declaration.struct?

def bitfields (schema : Schema) : List BitfieldDef :=
  schema.declarations.filterMap Declaration.bitfield?

def findStruct? (schema : Schema) (name : String) : Option StructDef :=
  schema.structs.find? (·.name.text == name)

def findBitfield? (schema : Schema) (name : String) : Option BitfieldDef :=
  schema.bitfields.find? (·.name.text == name)

/-- Whether a struct or a bitfield has the name. -/
def declares (schema : Schema) (name : String) : Bool :=
  (schema.findStruct? name).isSome || (schema.findBitfield? name).isSome

theorem mem_structs_of_findStruct? {schema : Schema} {name : String} {struct : StructDef}
    (found : schema.findStruct? name = some struct) : struct ∈ schema.structs :=
  List.mem_of_find?_eq_some found

theorem name_of_findStruct? {schema : Schema} {name : String} {struct : StructDef}
    (found : schema.findStruct? name = some struct) : struct.name.text = name := by
  simpa using List.find?_some found

end Schema

end RecordLayout
