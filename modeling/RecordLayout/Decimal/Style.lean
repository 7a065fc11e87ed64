import RecordLayout.Decimal.Shortest

/-!
How a floating-point number is written out: the digits are the shortest that read back, and a
style decides where positional writing ends and which marks and words are used.
-/

namespace RecordLayout.Decimal

structure Style where
  /-- The least power of ten of a leading digit that is written positionally. -/
  plainFrom : Int
  /-- The least power of ten of a leading digit that is too large for positional writing. -/
  plainBelow : Int
  /-- What follows the digits of a whole number in positional writing. -/
  wholeTail : String
  exponentMark : String
  infinity : String
  notANumber : String

namespace Style

/-- The digits of a positive decimal with a point inside, before or after them. -/
def positional (style : Style) (digits : List Char) (exponent : Int) : String :=
  let whole := digits.length + exponent
  if 0 ≤ exponent then
    String.ofList (digits ++ List.replicate exponent.toNat '0') ++ style.wholeTail
  else if 0 < whole then
    String.ofList (digits.take whole.toNat ++ '.' :: digits.drop whole.toNat)
  else
    "0." ++ String.ofList (List.replicate (-whole).toNat '0' ++ digits)

/-- One digit, the others after a point if there are any, and the power of ten of the first. -/
def scientific (style : Style) (digits : List Char) (lead : Int) : String :=
  let fraction := digits.drop 1
  String.ofList (digits.take 1 ++ if fraction.isEmpty then [] else '.' :: fraction) ++
    style.exponentMark ++ toString lead

def magnitude (style : Style) (value : Decimal) : String :=
  let digits := Nat.toDigits 10 value.digits
  let lead := value.exponent + digits.length - 1
  if style.plainFrom ≤ lead ∧ lead < style.plainBelow then
    style.positional digits value.exponent
  else
    style.scientific digits lead

/-- The text of any double. Zero keeps its sign, and a number that is none has no sign. -/
def write (style : Style) (value : Float) : String :=
  let bits := value.toBits.toNat
  let size := bits % 0x8000000000000000
  let sign := if bits < 0x8000000000000000 then "" else "-"
  if 0x7FF0000000000000 < size then style.notANumber
  else if size = 0x7FF0000000000000 then sign ++ style.infinity
  else if size = 0 then sign ++ "0" ++ style.wholeTail
  else sign ++ style.magnitude (shortest (Binary.ofMagnitude size))

end Style

end RecordLayout.Decimal
