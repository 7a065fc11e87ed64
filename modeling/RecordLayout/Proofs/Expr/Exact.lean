import Mathlib.Data.Int.Bitwise
import Mathlib.Data.Int.ModEq
import RecordLayout.Proofs.Expr.Signs

/-! Exact values of expressions, as whole numbers of any size, and what words keep of them. A word keeps a number up to
a multiple of 2 ^ 64. Sums, differences, products and operations on bits ask no more of their operands, so with these
alone it comes to the same to wrap around at each of them and to do so once, at the end. -/

namespace RecordLayout

/-! Words that are kept of numbers. -/

theorem eq_ofInt_iff {word : Int64} {number : Int} : word = .ofInt number ↔ word.toInt ≡ number [ZMOD 2 ^ 64] := by
  constructor
  · rintro rfl
    rw [Int64.toInt_ofInt]
    exact Int.bmod_emod
  · intro same
    rw [← Int64.toInt_inj, Int64.toInt_ofInt, ← Int64.toInt_bmod_size word, ← Int.emod_bmod number,
      ← Int.emod_bmod word.toInt]
    exact congrArg (Int.bmod · Int64.size) same

/-- The bits of a word are those of the number, which go on forever. -/
theorem getLsbD_ofInt (number : Int) {place : Nat} (inside : place < 64) :
    (BitVec.ofInt 64 number).getLsbD place = number.testBit place := by
  cases number with
  | ofNat size =>
    rw [Int.ofNat_eq_natCast, BitVec.ofInt_natCast, BitVec.getLsbD_ofNat, decide_eq_true inside, Bool.true_and]
    rfl
  | negSucc size =>
    rw [BitVec.ofInt_negSucc_eq_not_ofNat, BitVec.getLsbD_not, BitVec.getLsbD_ofNat, decide_eq_true inside,
      Bool.true_and, Bool.true_and]
    rfl

theorem ofInt_eq_of_bits {number : Int} {word : Int64}
    (same : ∀ place < 64, number.testBit place = word.toBitVec.getLsbD place) : .ofInt number = word := by
  apply Int64.toBitVec.inj
  apply BitVec.eq_of_getLsbD_eq
  intro place inside
  rw [Int64.toBitVec_ofInt, getLsbD_ofInt number inside, same place inside]

theorem ofInt_lnot (number : Int) : Int64.ofInt number.lnot = ~~~Int64.ofInt number :=
  ofInt_eq_of_bits fun place inside => by
    rw [Int.testBit_lnot, Int64.toBitVec_not, BitVec.getLsbD_not, Int64.toBitVec_ofInt, getLsbD_ofInt number inside,
      decide_eq_true inside, Bool.true_and]

/-- An operation on words that works bit by bit does so on the numbers. -/
theorem ofInt_bitwise {gate : Bool → Bool → Bool} {both : Int64 → Int64 → Int64}
    (bits : ∀ first second place, (both first second).toBitVec.getLsbD place =
      gate (first.toBitVec.getLsbD place) (second.toBitVec.getLsbD place)) (left right : Int) :
    .ofInt (Int.bitwise gate left right) = both (.ofInt left) (.ofInt right) :=
  ofInt_eq_of_bits fun place inside => by
    rw [Int.testBit_bitwise, bits, Int64.toBitVec_ofInt, Int64.toBitVec_ofInt, getLsbD_ofInt left inside,
      getLsbD_ofInt right inside]

theorem ofInt_land (left right : Int) : Int64.ofInt (left.land right) = Int64.ofInt left &&& Int64.ofInt right := by
  rw [← Int.bitwise_and]
  exact ofInt_bitwise (fun _ _ _ => BitVec.getLsbD_and) left right

theorem ofInt_lor (left right : Int) : Int64.ofInt (left.lor right) = Int64.ofInt left ||| Int64.ofInt right := by
  rw [← Int.bitwise_or]
  exact ofInt_bitwise (fun _ _ _ => BitVec.getLsbD_or) left right

theorem ofInt_xor (left right : Int) : Int64.ofInt (left.xor right) = Int64.ofInt left ^^^ Int64.ofInt right := by
  rw [← Int.bitwise_xor]
  exact ofInt_bitwise (fun _ _ _ => BitVec.getLsbD_xor) left right

namespace Operator

/-- The exact result of an operation on one number. -/
def onInteger? : Operator → Int → Option Int
  | add, number => some number
  | sub, number => some (-number)
  | complement, number => some number.lnot
  | _, _ => none

/-- The exact result of an operation on two numbers. A quotient is cut off toward zero; the bits of a negative number
are those of its two's complement. -/
def onIntegers? (op : Operator) (left right : Int) : Option Int :=
  match op with
  | add => some (left + right)
  | sub => some (left - right)
  | mul => some (left * right)
  | div => if right = 0 then none else some (left.tdiv right)
  | bitAnd => some (left.land right)
  | bitOr => some (left.lor right)
  | bitXor => some (left.xor right)
  | shiftLeft => if 0 ≤ right ∧ right ≤ 63 then some (left <<< right.toNat) else none
  | shiftRight => if 0 ≤ right ∧ right ≤ 63 then some (left >>> right.toNat) else none
  | complement => none

/-- The operators that have a meaning before an operand. -/
def signs : List Operator :=
  [add, sub, complement]

/-- The operators between operands that need no more of them than words keep. -/
def modular : List Operator :=
  [add, sub, mul, bitAnd, bitOr, bitXor]

theorem onInteger?_eq_none {op : Operator} {number : Int} : op.onInteger? number = none ↔ op ∉ signs := by
  cases op <;> simp [onInteger?, signs]

theorem onConstant?_ofInt (op : Operator) (number : Int) :
    op.onConstant? (.int (.ofInt number)) = (op.onInteger? number).map fun exact => .int (.ofInt exact) := by
  cases op with
  | sub => simp [onConstant?, onInteger?, Int64.ofInt_neg]
  | complement => simp [onConstant?, onInteger?, ofInt_lnot]
  | _ => rfl

theorem onWords?_ofInt {op : Operator} (known : op ∈ modular) (left right : Int) :
    ∃ exact, op.onIntegers? left right = some exact ∧
      op.onWords? (.ofInt left) (.ofInt right) = some (.ofInt exact) := by
  cases op with
  | add => exact ⟨_, rfl, by rw [onWords?, Int64.ofInt_add]⟩
  | sub => exact ⟨_, rfl, by rw [onWords?, Int64.ofInt_sub]⟩
  | mul => exact ⟨_, rfl, by rw [onWords?, Int64.ofInt_mul]⟩
  | bitAnd => exact ⟨_, rfl, by rw [onWords?, ofInt_land]⟩
  | bitOr => exact ⟨_, rfl, by rw [onWords?, ofInt_lor]⟩
  | bitXor => exact ⟨_, rfl, by rw [onWords?, ofInt_xor]⟩
  | div | shiftLeft | shiftRight | complement => simp [modular] at known

end Operator

namespace Expr

/-- The value without any wrapping around. -/
def integer? : Expr → Option Int
  | int value _ => some value.toInt
  | float _ _ | ref _ => none
  | unary op operand _ => operand.integer?.bind op.onInteger?
  | binary left op right => do op.onIntegers? (← left.integer?) (← right.integer?)

/-- Whole literals, and only operators that need no more of their operands than words keep. -/
def Modular : Expr → Prop
  | int _ _ => True
  | float _ _ | ref _ => False
  | unary op operand _ => op ∈ Operator.signs ∧ operand.Modular
  | binary left op right => op ∈ Operator.modular ∧ left.Modular ∧ right.Modular

/-- Wrapping around at each operator leaves the word that is kept of the exact value. -/
theorem Modular.exists_exact {expr : Expr} (modular : expr.Modular) :
    ∃ exact, expr.integer? = some exact ∧ expr.constant? = some (.int (.ofInt exact)) := by
  induction expr with
  | int value span => exact ⟨value.toInt, rfl, by rw [constant?, Int64.ofInt_toInt]⟩
  | float | ref => exact absurd modular id
  | unary op operand span ih =>
    obtain ⟨number, whole, folded⟩ := ih modular.2
    obtain ⟨result, applied⟩ : ∃ result, op.onInteger? number = some result :=
      Option.ne_none_iff_exists'.mp fun none => Operator.onInteger?_eq_none.mp none modular.1
    refine ⟨result, by rw [integer?, whole, Option.bind_some, applied], ?_⟩
    rw [constant?, folded, Option.bind_some, Operator.onConstant?_ofInt, applied, Option.map_some]
  | binary left op right leftIH rightIH =>
    obtain ⟨known, leftModular, rightModular⟩ := modular
    obtain ⟨first, leftWhole, leftFolded⟩ := leftIH leftModular
    obtain ⟨second, rightWhole, rightFolded⟩ := rightIH rightModular
    obtain ⟨result, applied, onWords⟩ := Operator.onWords?_ofInt known first second
    refine ⟨result, by simp [integer?, leftWhole, rightWhole, applied], ?_⟩
    simp [constant?, leftFolded, rightFolded, Operator.onConstants?, onWords]

/-- The value of such an expression is the one word that equals the exact value up to a multiple of 2 ^ 64. -/
theorem constant?_of_modular {expr : Expr} (modular : expr.Modular) :
    ∃ exact word, expr.integer? = some exact ∧ expr.constant? = some (.int word) ∧
      ∀ other : Int64, other.toInt ≡ exact [ZMOD 2 ^ 64] ↔ other = word := by
  obtain ⟨exact, whole, folded⟩ := modular.exists_exact
  exact ⟨exact, .ofInt exact, whole, folded, fun _ => eq_ofInt_iff.symm⟩

/-- The lowest word has no opposite among words, and three times the opposite is further out still. -/
def wrappedExpr : Expr :=
  .binary (.binary (.unary .sub (.int .minValue .nowhere) .nowhere) .mul (.int 3 .nowhere)) .bitXor
    (.binary (.unary .complement (.int 5 .nowhere) .nowhere) .sub (.int 1 .nowhere))

theorem constant?_wrappedExpr :
    wrappedExpr.Modular ∧ wrappedExpr.integer? = some (-27670116110564327431) ∧
      wrappedExpr.constant? = some (.int 9223372036854775801) := by
  have modular : wrappedExpr.Modular := by simp [wrappedExpr, Modular, Operator.signs, Operator.modular]
  have value : wrappedExpr.integer? = some (-27670116110564327431) := by decide
  obtain ⟨exact, word, whole, folded, only⟩ := constant?_of_modular modular
  obtain rfl : -27670116110564327431 = exact := Option.some.inj (value.symm.trans whole)
  have kept : (9223372036854775801 : Int64) = word := (only _).mp (by decide)
  exact ⟨modular, value, kept ▸ folded⟩

end Expr

end RecordLayout
