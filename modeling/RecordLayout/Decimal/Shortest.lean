/-!
The shortest decimal that reads back as a given binary floating-point number. A decimal reads back
when it lies between the midpoints to the two neighbours of the number; a midpoint itself counts
when the mantissa is even. Grids of powers of ten are tried from the coarsest that shows a digit,
and of a grid only the two points around the number can be needed. All arithmetic is exact.
-/

namespace RecordLayout

/-- The number `digits · 10 ^ exponent`. -/
structure Decimal where
  digits : Nat
  exponent : Int
deriving DecidableEq

namespace Decimal

/-- The positive number `mantissa · 2 ^ exponent`. Its neighbour below is half as far away as the
one above when `closeBelow` is set. -/
structure Binary where
  mantissa : Nat
  exponent : Int
  closeBelow : Bool

namespace Binary

/-- The number behind the magnitude bits of a finite double: 52 bits of fraction, and above them the
exponent. -/
def ofMagnitude (bits : Nat) : Binary :=
  let fraction : Nat := bits % 0x10000000000000
  let biased : Nat := bits / 0x10000000000000 % 0x800
  if biased = 0 then
    ⟨fraction, -1074, false⟩
  else
    ⟨0x10000000000000 + fraction, (biased : Int) - 1075, fraction == 0 && biased != 1⟩

/-- What four times a count of mantissa units and a grid of step `10 ^ power` are multiplied by to
be compared as natural numbers. -/
def scales (value : Binary) (power : Int) : Nat × Nat :=
  (Nat.pow 2 (value.exponent - 2).toNat * Nat.pow 10 (-power).toNat,
   Nat.pow 2 (2 - value.exponent).toNat * Nat.pow 10 power.toNat)

/-- Whether `digits · 10 ^ power` rounds to the number. -/
def readsBack (value : Binary) (digits : Nat) (power : Int) : Bool :=
  let (unit, step) := value.scales power
  let low := (4 * value.mantissa - if value.closeBelow then 1 else 2) * unit
  let high := (4 * value.mantissa + 2) * unit
  let tried := digits * step
  if value.mantissa % 2 = 0 then
    decide (low ≤ tried ∧ tried ≤ high)
  else
    decide (low < tried ∧ tried < high)

/-- The two points of a grid around the number, the nearer one first; midway it is the upper. -/
def around (value : Binary) (power : Int) : Nat × Nat :=
  let (unit, step) := value.scales power
  let exact := 4 * value.mantissa * unit
  let below := exact / step
  if 2 * (exact % step) < step then (below, below + 1) else (below + 1, below)

/-- The point of a grid that stands for the number, if one does. -/
def onGrid? (value : Binary) (power : Int) : Option Decimal :=
  let (near, far) := value.around power
  if value.readsBack near power then some ⟨near, power⟩
  else if value.readsBack far power then some ⟨far, power⟩
  else none

/-- The power of ten of the leading digit. -/
def leadingPower (value : Binary) : Int :=
  let shift : Nat := (2 - value.exponent).toNat
  let (unit, step) := value.scales (-(shift : Int))
  let shifted := 4 * value.mantissa * unit / step
  ((Nat.toDigits 10 shifted).length : Int) - 1 - shift

end Binary

/-- The same number without zeros at the end of its digits. -/
def trimZeros (digits : Nat) (exponent : Int) : Decimal :=
  if _ : 0 < digits ∧ digits % 10 = 0 then
    trimZeros (digits / 10) (exponent + 1)
  else
    ⟨digits, exponent⟩
termination_by digits

/-- The decimal of the fewest digits that reads back, and of those the nearest. Seventeen digits
always suffice for a double. -/
def shortest (value : Binary) : Decimal :=
  let lead := value.leadingPower
  let found := (List.range 17).findSome? fun (count : Nat) => value.onGrid? (lead - count)
  let chosen := found.getD ⟨(value.around (lead - 16)).1, lead - 16⟩
  trimZeros chosen.digits chosen.exponent

end Decimal

end RecordLayout
