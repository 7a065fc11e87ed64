import RecordLayout.Proofs.Expr.Occurrence

/-! What may be asked of the names, references, expressions, conditions and primitive types in declarations, wherever
they stand. Whether declarations meet the demands follows their structure, and that lists which must not be empty are
not is a part of it. Demands that go over to operands are met by every expression and condition that occurs. -/

namespace RecordLayout

/-- What is asked of each part of declarations. -/
structure Demands where
  name : Name → Prop
  path : Path → Prop
  expr : Expr → Prop
  condition : Condition → Prop
  type : DataType → Prop

/-- What is asked of an expression or a condition is asked of its operands. -/
structure Demands.Hereditary (demands : Demands) : Prop where
  operand : ∀ {op operand span}, demands.expr (.unary op operand span) → demands.expr operand
  binary : ∀ {left op right}, demands.expr (.binary left op right) → demands.expr left ∧ demands.expr right
  junction : ∀ {left op right}, demands.condition (.junction left op right) →
    demands.condition left ∧ demands.condition right
  relation : ∀ {left op right}, demands.condition (.relation left op right) → demands.expr left ∧ demands.expr right

section

variable (demands : Demands)

/-- A choice meets the demands if its condition does, and its alternatives what is asked of them. -/
structure Choice.Meets (arm : α → Prop) (choice : Choice α) : Prop where
  condition : demands.condition choice.condition
  ifTrue : arm choice.ifTrue
  ifFalse : arm choice.ifFalse

def OrderRule.Meets : OrderRule → Prop
  | fixed _ => True
  | chosen choice => choice.Meets demands fun _ => True

def TypeRef.Meets : TypeRef → Prop
  | data type => demands.type type
  | named path => demands.path path

def MemberType.Meets : MemberType → Prop
  | plain type => type.Meets demands
  | chosen choice => choice.Meets demands (TypeRef.Meets demands)

def Repetition.Meets : Repetition → Prop
  | untilEnd => True
  | count amount => demands.expr amount
  | whileTrue condition => demands.condition condition

structure MemberInfo.Meets (info : MemberInfo) : Prop where
  type : info.type.Meets demands
  order : info.order.Meets demands
  repetition : ∀ repetition ∈ info.repetition, repetition.Meets demands

structure Member.Meets (member : Member) : Prop where
  name : demands.name member.name
  info : member.info.Meets demands

structure Case.Meets (body : α → Prop) (line : Case α) : Prop where
  value : demands.expr line.value
  body : body line.body

/-- At least one, and each meets the demands. -/
structure Filled (item : α → Prop) (values : List α) : Prop where
  some : values ≠ []
  all : ∀ value ∈ values, item value

def Selected.Meets : Selected → Prop
  | single name cases => demands.name name ∧ Filled (Case.Meets demands (MemberInfo.Meets demands)) cases
  | groups cases => Filled (Case.Meets demands (Filled (Member.Meets demands))) cases

structure Selection.Meets (selection : Selection) : Prop where
  condition : demands.expr selection.condition
  selected : selection.selected.Meets demands

def StructItem.Meets : StructItem → Prop
  | member plain => plain.Meets demands
  | selection cases => cases.Meets demands

structure StructDef.Meets (struct : StructDef) : Prop where
  name : demands.name struct.name
  order : struct.order.Meets demands
  items : ∀ item ∈ struct.items, item.Meets demands

structure BitfieldMember.Meets (member : BitfieldMember) : Prop where
  name : demands.name member.name
  size : demands.expr member.size

structure BitfieldDef.Meets (bitfield : BitfieldDef) : Prop where
  name : demands.name bitfield.name
  byteSize : ∀ amount ∈ bitfield.byteSize, demands.expr amount
  members : ∀ member ∈ bitfield.members, member.Meets demands

def Declaration.Meets : Declaration → Prop
  | struct declared => declared.Meets demands
  | bitfield declared => declared.Meets demands

end

/-! What occurs in declarations that meet the demands. -/

variable {demands : Demands} {declared : List Declaration}

theorem StructDef.Uses.meets {struct : StructDef} {info : MemberInfo} (used : struct.Uses info)
    (meets : struct.Meets demands) : info.Meets demands := by
  cases used with
  | plain present => exact (meets.items _ present).info
  | single present shape chosen =>
    have selected := (meets.items _ present).selected
    rw [shape] at selected
    exact (selected.2.all _ chosen).body
  | group present shape chosen inside =>
    have selected := (meets.items _ present).selected
    rw [shape] at selected
    exact ((selected.all _ chosen).body.all _ inside).info

theorem MemberInfo.Tests.meets {info : MemberInfo} {condition : Condition} (tests : info.Tests condition)
    (meets : info.Meets demands) : demands.condition condition := by
  cases tests with
  | type shape =>
    have type := meets.type
    rw [shape] at type
    exact type.condition
  | order shape =>
    have order := meets.order
    rw [shape] at order
    exact order.condition
  | repetition shape => exact meets.repetition _ shape

theorem StructDef.Tests.meets {struct : StructDef} {condition : Condition} (tests : struct.Tests condition)
    (meets : struct.Meets demands) : demands.condition condition := by
  cases tests with
  | order shape =>
    have order := meets.order
    rw [shape] at order
    exact order.condition
  | info used tests => exact tests.meets (used.meets meets)

theorem StructDef.Computes.meets {struct : StructDef} {amount : Expr} (computes : struct.Computes amount)
    (meets : struct.Meets demands) : demands.expr amount := by
  cases computes with
  | count used shape => exact (used.meets meets).repetition _ shape
  | selection present => exact (meets.items _ present).condition
  | single present shape chosen =>
    have selected := (meets.items _ present).selected
    rw [shape] at selected
    exact (selected.2.all _ chosen).value
  | group present shape chosen =>
    have selected := (meets.items _ present).selected
    rw [shape] at selected
    exact (selected.all _ chosen).value

theorem BitfieldDef.Computes.meets {bitfield : BitfieldDef} {amount : Expr} (computes : bitfield.Computes amount)
    (meets : bitfield.Meets demands) : demands.expr amount := by
  cases computes with
  | byteSize shape => exact meets.byteSize _ shape
  | member present => exact (meets.members _ present).size

theorem Condition.Occurs.meets {condition : Condition} (occurs : condition.Occurs declared)
    (hereditary : demands.Hereditary) (all : ∀ declaration ∈ declared, declaration.Meets demands) :
    demands.condition condition := by
  induction occurs with
  | struct present tests => exact tests.meets (all _ present)
  | left _ ih => exact (hereditary.junction ih).1
  | right _ ih => exact (hereditary.junction ih).2

theorem Expr.Occurs.meets {expr : Expr} (occurs : expr.Occurs declared) (hereditary : demands.Hereditary)
    (all : ∀ declaration ∈ declared, declaration.Meets demands) : demands.expr expr := by
  induction occurs with
  | struct present computes => exact computes.meets (all _ present)
  | bitfield present computes => exact computes.meets (all _ present)
  | operand _ ih => exact hereditary.operand ih
  | left _ ih => exact (hereditary.binary ih).1
  | right _ ih => exact (hereditary.binary ih).2
  | leftSide around => exact (hereditary.relation (around.meets hereditary all)).1
  | rightSide around => exact (hereditary.relation (around.meets hereditary all)).2

end RecordLayout
