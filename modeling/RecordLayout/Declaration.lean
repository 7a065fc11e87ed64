import RecordLayout.Expr.Constant
import RecordLayout.Member

/-!
Declarations: structs, which list members and selections, and bitfields, which divide bits among
names. A bitfield without a size of its own is as large as its members together.
-/

namespace RecordLayout

inductive StructItem where
  | member (member : Member)
  | selection (selection : Selection)

structure StructDef where
  name : Name
  order : OrderRule
  items : List StructItem

/-- The members that stand outside selections. -/
def StructDef.plainMembers (struct : StructDef) : List Member :=
  struct.items.filterMap fun
    | .member member => some member
    | .selection _ => none

structure BitfieldMember where
  name : Name
  size : Expr

structure BitfieldDef where
  name : Name
  /-- The size in bytes that is written after the name. -/
  byteSize : Option Expr
  members : List BitfieldMember

inductive BitfieldSize where
  | bytes (amount : Expr)
  | bits (amount : Expr)

def BitfieldSize.text : BitfieldSize → String
  | bytes amount => amount.foldedText ++ " bytes"
  | bits amount => amount.foldedText ++ " bits"

/-- The sum of expressions, nested to the right; no summands give the other expression. -/
def Expr.sumOr (none : Expr) : List Expr → Expr
  | [] => none
  | [summand] => summand
  | summand :: rest => .binary summand .add (sumOr none rest)

namespace BitfieldDef

/-- The sizes of the members together, in bits. -/
def derivedBits (bitfield : BitfieldDef) : Expr :=
  .sumOr (.int 0 bitfield.name.span) (bitfield.members.map BitfieldMember.size)

def size (bitfield : BitfieldDef) : BitfieldSize :=
  match bitfield.byteSize with
  | some amount => .bytes amount
  | none => .bits bitfield.derivedBits

end BitfieldDef

inductive Declaration where
  | struct (declared : StructDef)
  | bitfield (declared : BitfieldDef)

namespace Declaration

def name : Declaration → Name
  | .struct declared => declared.name
  | .bitfield declared => declared.name

def struct? : Declaration → Option StructDef
  | .struct declared => some declared
  | .bitfield _ => none

def bitfield? : Declaration → Option BitfieldDef
  | .struct _ => none
  | .bitfield declared => some declared

end Declaration

end RecordLayout
