import RecordLayout.Declaration
import RecordLayout.Proofs.Schema.References

/-! Where expressions and conditions stand in declarations. Those that stand in others count as well. -/

namespace RecordLayout

namespace MemberInfo

/-- The conditions of a member: those that choose its type or byte order, and that of its repetition. -/
inductive Tests (info : MemberInfo) : Condition → Prop where
  | type {choice} (shape : info.type = .chosen choice) : Tests info choice.condition
  | order {choice} (shape : info.order = .chosen choice) : Tests info choice.condition
  | repetition {condition} (shape : info.repetition = some (.whileTrue condition)) :
      Tests info condition

end MemberInfo

namespace StructDef

inductive Tests (struct : StructDef) : Condition → Prop where
  | order {choice} (shape : struct.order = .chosen choice) : Tests struct choice.condition
  | info {info condition} (used : struct.Uses info) (tests : info.Tests condition) :
      Tests struct condition

inductive Computes (struct : StructDef) : Expr → Prop where
  | count {info amount} (used : struct.Uses info) (shape : info.repetition = some (.count amount)) :
      Computes struct amount
  | selection {selection} (present : .selection selection ∈ struct.items) :
      Computes struct selection.condition
  | single {selection name cases case} (present : .selection selection ∈ struct.items)
      (shape : selection.selected = .single name cases) (chosen : case ∈ cases) :
      Computes struct case.value
  | group {selection cases case} (present : .selection selection ∈ struct.items)
      (shape : selection.selected = .groups cases) (chosen : case ∈ cases) :
      Computes struct case.value

end StructDef

inductive BitfieldDef.Computes (bitfield : BitfieldDef) : Expr → Prop where
  | byteSize {amount} (shape : bitfield.byteSize = some amount) : Computes bitfield amount
  | member {member} (present : member ∈ bitfield.members) : Computes bitfield member.size

/-- The condition stands somewhere in the declarations. -/
inductive Condition.Occurs (declared : List Declaration) : Condition → Prop where
  | struct {struct condition} (present : .struct struct ∈ declared) (tests : struct.Tests condition) :
      Occurs declared condition
  | left {left op right} (around : Occurs declared (.junction left op right)) : Occurs declared left
  | right {left op right} (around : Occurs declared (.junction left op right)) : Occurs declared right

/-- The expression stands somewhere in the declarations. -/
inductive Expr.Occurs (declared : List Declaration) : Expr → Prop where
  | struct {struct amount} (present : .struct struct ∈ declared) (computes : struct.Computes amount) :
      Occurs declared amount
  | bitfield {bitfield amount} (present : .bitfield bitfield ∈ declared)
      (computes : bitfield.Computes amount) : Occurs declared amount
  | operand {op operand span} (around : Occurs declared (.unary op operand span)) :
      Occurs declared operand
  | left {left op right} (around : Occurs declared (.binary left op right)) : Occurs declared left
  | right {left op right} (around : Occurs declared (.binary left op right)) : Occurs declared right
  | leftSide {left op right} (around : Condition.Occurs declared (.relation left op right)) :
      Occurs declared left
  | rightSide {left op right} (around : Condition.Occurs declared (.relation left op right)) :
      Occurs declared right

end RecordLayout
