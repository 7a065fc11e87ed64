import RecordLayout.Schema
import RecordLayout.Writer

/-!
The outline of a schema: a line for every declaration, member, selection and case, each deeper than
what it belongs to. Sizes of bitfields and their members are shown as values where they have one.
-/

namespace RecordLayout

open Writer (Op)

def Member.outline (member : Member) : Op :=
  .line (member.name.text ++ ": " ++ member.info.text)

def Selection.outline (selection : Selection) : List Op :=
  let head := "match " ++ selection.condition.text
  match selection.selected with
  | .single name cases =>
    [.line (head ++ " -> " ++ name.text),
     .indented (cases.map fun type => .line (type.value.text ++ " => " ++ type.body.text))]
  | .groups cases =>
    [.line head,
     .indented (cases.flatMap fun group =>
       [.line (group.value.text ++ " =>"), .indented (group.body.map Member.outline)])]

def StructItem.outline : StructItem → List Op
  | .member plain => [plain.outline]
  | .selection cases => cases.outline

def StructDef.outline (struct : StructDef) : List Op :=
  [.line ("struct " ++ struct.name.text ++ " " ++ struct.order.text),
   .indented (struct.items.flatMap StructItem.outline)]

def BitfieldMember.outline (member : BitfieldMember) : Op :=
  .line (member.name.text ++ ": " ++ member.size.foldedText)

def BitfieldDef.outline (bitfield : BitfieldDef) : List Op :=
  [.line ("bitfield " ++ bitfield.name.text ++ " (" ++ bitfield.size.text ++ ")"),
   .indented (bitfield.members.map BitfieldMember.outline)]

def Declaration.outline : Declaration → List Op
  | .struct declared => declared.outline
  | .bitfield declared => declared.outline

namespace Schema

/-- The operations that write the outline. -/
def outline (schema : Schema) : List Op :=
  schema.declarations.flatMap Declaration.outline

def outlineText (schema : Schema) : String :=
  (Writer.runAll schema.outline .new).writer.text

end Schema

end RecordLayout
