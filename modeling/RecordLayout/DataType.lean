import RecordLayout.Expr
import RecordLayout.Primitive
import RecordLayout.Text.Escape

/-!
Primitive types as members use them. A type whose values differ in size comes with a delimiter:
the bytes that end a value, or where to find its length.
-/

namespace RecordLayout

inductive Delimiter where
  /-- The text between double quotes, its escapes as written. -/
  | string (text : String) (span : Span)
  /-- The text between single quotes, its escapes as written. -/
  | char (text : String) (span : Span)
  | int (value : Int64) (span : Span)
  /-- The value of another member. -/
  | member (path : Path)

namespace Delimiter

def span : Delimiter → Span
  | string _ span | char _ span | int _ span => span
  | member path => path.span

/-- The bytes to look for, if they are known from the description. A number has to fit a byte. -/
def literalBytes? : Delimiter → Option (List UInt8)
  | string text _ | char text _ => some (Text.unescape text.toList)
  | int value _ =>
    if 0 ≤ value.toInt ∧ value.toInt < 256 then some [value.toInt.toNat.toUInt8] else none
  | member _ => none

/-- A word in base sixteen with at least two digits; the sign bit is its highest bit. -/
def hexText (value : Int64) : String :=
  let digits := Nat.toDigits 16 value.toUInt64.toNat
  "0x" ++ String.ofList (List.replicate (2 - digits.length) '0' ++ digits)

def text : Delimiter → String
  | string text _ => "\"" ++ text ++ "\""
  | char text _ => "'" ++ text ++ "'"
  | int value _ => hexText value
  | member path => path.name

end Delimiter

structure DataType where
  primitive : Primitive
  delimiter : Option Delimiter
  span : Span

end RecordLayout
