import RecordLayout.Declaration

/-!
Which declarations a struct refers to. A choice mentions the types of both alternatives, but only a
type that is always there makes a struct contain another.
-/

namespace RecordLayout

namespace TypeRef

def path? : TypeRef → Option Path
  | data _ => none
  | named path => some path

end TypeRef

namespace MemberType

/-- Every declared type that is mentioned. -/
def mentioned : MemberType → List Path
  | plain type => type.path?.toList
  | chosen choice => choice.ifTrue.path?.toList ++ choice.ifFalse.path?.toList

/-- The declared type that every value contains. -/
def contained? : MemberType → Option Path
  | plain type => type.path?
  | chosen _ => none

end MemberType

/-- The members of an item and the cases that stand for one, in source order. -/
def StructItem.infos : StructItem → List MemberInfo
  | .member plain => [plain.info]
  | .selection cases =>
    match cases.selected with
    | .single _ types => types.map Case.body
    | .groups groups => groups.flatMap fun group => group.body.map Member.info

namespace StructDef

def infos (struct : StructDef) : List MemberInfo :=
  struct.items.flatMap StructItem.infos

/-- The references to structs and bitfields that the struct contains, in source order. -/
def contained (struct : StructDef) : List Path :=
  struct.infos.filterMap (·.type.contained?)

end StructDef

end RecordLayout
