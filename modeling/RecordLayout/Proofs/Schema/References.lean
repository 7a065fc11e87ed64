import Mathlib.Data.List.Nodup
import Mathlib.Logic.Relation
import RecordLayout.Schema
import RecordLayout.Schema.References

/-! What the checks of a schema are about, said of declarations and not of the lists that the checks
walk over: the parts of a struct that have a type, the declared types that those mention, and the
structs that every value of a struct contains. -/

namespace RecordLayout

/-- The parts of a struct that have a type: plain members, cases that are types of one member, and
the members of groups. -/
inductive StructDef.Uses (struct : StructDef) : MemberInfo → Prop where
  | plain {member} (present : .member member ∈ struct.items) : Uses struct member.info
  | single {selection name cases case} (present : .selection selection ∈ struct.items)
      (shape : selection.selected = .single name cases) (chosen : case ∈ cases) :
      Uses struct case.body
  | group {selection cases case member} (present : .selection selection ∈ struct.items)
      (shape : selection.selected = .groups cases) (chosen : case ∈ cases)
      (inside : member ∈ case.body) : Uses struct member.info

/-- The declared types that stand anywhere in a type. -/
inductive MemberType.Mentions : MemberType → Path → Prop where
  | plain {path} : Mentions (.plain (.named path)) path
  | ifTrue {choice path} (arm : choice.ifTrue = .named path) : Mentions (.chosen choice) path
  | ifFalse {choice path} (arm : choice.ifFalse = .named path) : Mentions (.chosen choice) path

namespace StructDef

def Mentions (struct : StructDef) (path : Path) : Prop :=
  ∃ info, struct.Uses info ∧ info.type.Mentions path

/-- The references of a struct outside choices: what they name is part of every value. -/
def Contains (struct : StructDef) (path : Path) : Prop :=
  ∃ info, struct.Uses info ∧ info.type = .plain (.named path)

end StructDef

namespace Schema

/-- A struct or a bitfield has the name. -/
def Declares (schema : Schema) (name : String) : Prop :=
  ∃ declared ∈ schema.declarations, declared.name.text = name

/-- One declared struct contains another. -/
def Encloses (schema : Schema) (outer inner : StructDef) : Prop :=
  .struct outer ∈ schema.declarations ∧ .struct inner ∈ schema.declarations ∧
    ∃ path, outer.Contains path ∧ path.name = inner.name.text

end Schema

/-! The lists of the checks hold just these. -/

theorem StructItem.mem_infos {item : StructItem} {info : MemberInfo} :
    info ∈ item.infos ↔
      (∃ member, item = .member member ∧ member.info = info) ∨
      (∃ selection name cases case, item = .selection selection ∧
        selection.selected = .single name cases ∧ case ∈ cases ∧ case.body = info) ∨
      ∃ selection cases case member, item = .selection selection ∧
        selection.selected = .groups cases ∧ case ∈ cases ∧ member ∈ case.body ∧
        member.info = info := by
  cases item with
  | member member => simp [infos, eq_comm]
  | selection selection =>
    cases shape : selection.selected with
    | single name cases => simp [infos, shape, and_assoc]
    | groups cases => simp [infos, shape]

theorem StructDef.mem_infos {struct : StructDef} {info : MemberInfo} :
    info ∈ struct.infos ↔ struct.Uses info := by
  simp only [infos, List.mem_flatMap, StructItem.mem_infos]
  constructor
  · intro ⟨item, present, part⟩
    rcases part with ⟨member, rfl, rfl⟩ | ⟨selection, name, cases, case, rfl, shape, chosen, rfl⟩ |
      ⟨selection, cases, case, member, rfl, shape, chosen, inside, rfl⟩
    · exact .plain present
    · exact .single present shape chosen
    · exact .group present shape chosen inside
  · intro used
    cases used with
    | plain present => exact ⟨_, present, .inl ⟨_, rfl, rfl⟩⟩
    | single present shape chosen =>
      exact ⟨_, present, .inr (.inl ⟨_, _, _, _, rfl, shape, chosen, rfl⟩)⟩
    | group present shape chosen inside =>
      exact ⟨_, present, .inr (.inr ⟨_, _, _, _, rfl, shape, chosen, inside, rfl⟩)⟩

theorem TypeRef.path?_eq_some {type : TypeRef} {path : Path} :
    type.path? = some path ↔ type = .named path := by
  cases type <;> simp [TypeRef.path?]

theorem MemberType.mem_mentioned {type : MemberType} {path : Path} :
    path ∈ type.mentioned ↔ type.Mentions path := by
  cases type with
  | plain type =>
    simp only [mentioned, Option.mem_toList, TypeRef.path?_eq_some]
    constructor
    · intro same
      subst same
      exact .plain
    · intro mentions
      cases mentions
      rfl
  | chosen choice =>
    simp only [mentioned, List.mem_append, Option.mem_toList, TypeRef.path?_eq_some]
    constructor
    · intro arms
      rcases arms with arm | arm
      · exact .ifTrue arm
      · exact .ifFalse arm
    · intro mentions
      cases mentions with
      | ifTrue arm => exact .inl arm
      | ifFalse arm => exact .inr arm

theorem MemberType.contained?_eq_some {type : MemberType} {path : Path} :
    type.contained? = some path ↔ type = .plain (.named path) := by
  cases type <;> simp [contained?, TypeRef.path?_eq_some]

theorem StructDef.mem_contained {struct : StructDef} {path : Path} :
    path ∈ struct.contained ↔ struct.Contains path := by
  simp only [contained, List.mem_filterMap, StructDef.mem_infos, MemberType.contained?_eq_some, Contains]

namespace Schema

variable {schema : Schema}

theorem mem_structs {struct : StructDef} :
    struct ∈ schema.structs ↔ .struct struct ∈ schema.declarations := by
  simp only [structs, List.mem_filterMap]
  constructor
  · intro ⟨declared, present, same⟩
    cases declared with
    | struct other => cases same; exact present
    | bitfield _ => cases same
  · exact fun present => ⟨_, present, rfl⟩

theorem mem_bitfields {bitfield : BitfieldDef} :
    bitfield ∈ schema.bitfields ↔ .bitfield bitfield ∈ schema.declarations := by
  simp only [bitfields, List.mem_filterMap]
  constructor
  · intro ⟨declared, present, same⟩
    cases declared with
    | struct _ => cases same
    | bitfield other => cases same; exact present
  · exact fun present => ⟨_, present, rfl⟩

theorem declares_eq_true {name : String} : schema.declares name = true ↔ schema.Declares name := by
  simp only [declares, findStruct?, findBitfield?, Bool.or_eq_true, List.find?_isSome, beq_iff_eq,
    mem_structs, mem_bitfields]
  constructor
  · intro found
    rcases found with ⟨struct, present, same⟩ | ⟨bitfield, present, same⟩
    · exact ⟨_, present, same⟩
    · exact ⟨_, present, same⟩
  · intro ⟨declared, present, same⟩
    cases declared with
    | struct struct => exact .inl ⟨struct, present, same⟩
    | bitfield bitfield => exact .inr ⟨bitfield, present, same⟩

/-- Where names are distinct, a struct is found by its name. -/
theorem findStruct?_of_mem (distinct : (schema.declarations.map (·.name.text)).Nodup)
    {struct : StructDef} (present : .struct struct ∈ schema.declarations) :
    schema.findStruct? struct.name.text = some struct := by
  cases found : schema.findStruct? struct.name.text with
  | none =>
    have absent := List.find?_eq_none.mp found struct (mem_structs.mpr present)
    simp at absent
  | some other =>
    have named := name_of_findStruct? found
    have same := List.inj_on_of_nodup_map distinct
      (mem_structs.mp (mem_structs_of_findStruct? found)) present named
    cases same
    rfl

end Schema

end RecordLayout
