import RecordLayout.Text.Escape

/-!
Numbers read from their written form: whole numbers of 64 bits in base ten or sixteen, and
floating-point numbers. Each reader takes the whole text or nothing.
-/

namespace RecordLayout.Decimal

/-- Whether a sign in front is a minus, and what follows the sign. -/
def splitSign : List Char → Bool × List Char
  | '-' :: rest => (true, rest)
  | '+' :: rest => (false, rest)
  | chars => (false, chars)

/-- A whole number of at least one digit in base ten. -/
def natural? (chars : List Char) : Option Nat :=
  if chars ≠ [] ∧ chars.all Char.isDigit then some (Nat.ofDigitChars 10 chars 0) else none

/-- A whole number of at least one digit in base sixteen. -/
def hexadecimal? (chars : List Char) : Option Nat :=
  if chars = [] then none
  else chars.foldlM (fun value c => (Text.hexDigit? c).map (16 * value + ·)) 0

/-- The word of a whole number that fits in 64 bits with a sign. -/
def word? (value : Int) : Option Int64 :=
  if Int64.minValue.toInt ≤ value ∧ value ≤ Int64.maxValue.toInt then some (Int64.ofInt value)
  else none

/-- A number with an optional sign, its digits read by the given reader. -/
def signed? (digits? : List Char → Option Nat) (chars : List Char) : Option Int64 := do
  let (negative, rest) := splitSign chars
  let size ← digits? rest
  word? (if negative then -(size : Int) else size)

def int64? (chars : List Char) : Option Int64 :=
  signed? natural? chars

def hexInt64? (chars : List Char) : Option Int64 :=
  signed? hexadecimal? chars

/-- The double nearest to `mantissa · 10 ^ exponent`. Powers far outside the range of doubles are
not computed. -/
def nearest (mantissa : Nat) (exponent : Int) : Float :=
  let magnitude := (Nat.toDigits 10 mantissa).length + exponent
  if mantissa = 0 ∨ magnitude < -330 then 0
  else if 310 < magnitude then 1 / 0
  else Float.ofScientific mantissa (decide (exponent < 0)) exponent.natAbs

/-- The power of ten after an exponent mark; nothing at all stands for 0. -/
def exponent? : List Char → Option Int
  | [] => some 0
  | mark :: rest =>
    if mark = 'e' ∨ mark = 'E' then
      let (negative, digits) := splitSign rest
      (natural? digits).map fun size => if negative then -(size : Int) else size
    else
      none

/-- A number without sign: digits with at most one point among or around them, then an exponent. -/
def magnitude? (chars : List Char) : Option Float := do
  let whole := chars.takeWhile Char.isDigit
  let afterWhole := chars.drop whole.length
  let (fraction, tail) := match afterWhole with
    | '.' :: rest => (rest.takeWhile Char.isDigit, rest.dropWhile Char.isDigit)
    | rest => ([], rest)
  let mantissa ← natural? (whole ++ fraction)
  let power ← exponent? tail
  return nearest mantissa (power - fraction.length)

/-- A floating-point number, also one that is infinite or none. -/
def float? (chars : List Char) : Option Float :=
  let (negative, rest) := splitSign chars
  let lower := rest.map Char.toLower
  let size? :=
    if lower = ['i', 'n', 'f'] ∨ lower = ['i', 'n', 'f', 'i', 'n', 'i', 't', 'y'] then some (1 / 0)
    else if lower = ['n', 'a', 'n'] then some (0 / 0)
    else magnitude? rest
  size?.map fun size => if negative then -size else size

end RecordLayout.Decimal
