/-!
The primitive types of members: integers of eight widths with and without sign, two floating-point
types, and two types whose values end at a delimiter.
-/

namespace RecordLayout

inductive Width where
  | w8 | w16 | w24 | w32 | w40 | w48 | w64 | w128
deriving DecidableEq

def Width.bytes : Width → Nat
  | w8 => 1
  | w16 => 2
  | w24 => 3
  | w32 => 4
  | w40 => 5
  | w48 => 6
  | w64 => 8
  | w128 => 16

def Width.all : List Width :=
  [w8, w16, w24, w32, w40, w48, w64, w128]

inductive Primitive where
  | unsigned (width : Width)
  | signed (width : Width)
  | float
  | double
  | string
  | bytes
deriving DecidableEq

namespace Primitive

def all : List Primitive :=
  Width.all.map unsigned ++ Width.all.map signed ++ [float, double, string, bytes]

def name : Primitive → String
  | unsigned .w8 => "uint8"
  | unsigned .w16 => "uint16"
  | unsigned .w24 => "uint24"
  | unsigned .w32 => "uint32"
  | unsigned .w40 => "uint40"
  | unsigned .w48 => "uint48"
  | unsigned .w64 => "uint64"
  | unsigned .w128 => "uint128"
  | signed .w8 => "int8"
  | signed .w16 => "int16"
  | signed .w24 => "int24"
  | signed .w32 => "int32"
  | signed .w40 => "int40"
  | signed .w48 => "int48"
  | signed .w64 => "int64"
  | signed .w128 => "int128"
  | float => "float"
  | double => "double"
  | string => "string"
  | bytes => "bytes"

/-- The size of a value, unless values differ in size. -/
def byteSize : Primitive → Option Nat
  | unsigned width | signed width => some width.bytes
  | float => some 4
  | double => some 8
  | string | bytes => none

def isSigned : Primitive → Bool
  | signed _ | float | double => true
  | unsigned _ | string | bytes => false

/-- Values without a fixed size end at a delimiter. -/
def takesDelimiter (primitive : Primitive) : Bool :=
  primitive.byteSize.isNone

def ofName? (name : String) : Option Primitive :=
  all.find? (·.name == name)

theorem mem_all (primitive : Primitive) : primitive ∈ all := by
  cases primitive with
  | unsigned width | signed width => cases width <;> decide
  | _ => decide

theorem ofName?_name (primitive : Primitive) : ofName? primitive.name = some primitive := by
  cases primitive with
  | unsigned width | signed width => cases width <;> rfl
  | _ => rfl

theorem name_of_ofName? {name : String} {primitive : Primitive}
    (found : ofName? name = some primitive) : primitive.name = name := by
  simpa using List.find?_some found

end Primitive

end RecordLayout
