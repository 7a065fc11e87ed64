import RecordLayout.Proofs.Expr.Exact

/-! Values of expressions of whole literals: exact results, each wrapped around to a word. An expression has no value
where an operation in it has no result: a division by zero, a shift by less than nothing or by a whole word, a
complement between operands, or an operator before an operand that means nothing there. There is none in one more case,
where wrapping around would give one: the quotient of the lowest word and minus one. -/

namespace RecordLayout

/-! Division and shifts of words. -/

theorem ofInt_toInt_tdiv (left right : Int64) : Int64.ofInt (left.toInt.tdiv right.toInt) = left / right := by
  rw [Int64.ofInt_eq_iff_bmod_eq_toInt, Int64.toInt_div]

/-- A shift in a word is as long as it says. -/
theorem toNat_smod_of_inWord {amount : Int64} (inWord : Operator.InWord amount) :
    (amount.toBitVec.smod 64).toNat = amount.toInt.toNat := by
  have same : (amount.toBitVec.smod 64).toInt = amount.toInt := by
    rw [BitVec.toInt_smod]
    exact Int.fmod_eq_of_lt inWord.1 inWord.2
  have positive : (amount.toBitVec.smod 64).msb = false := by
    rw [BitVec.msb_eq_toInt, same]
    exact decide_eq_false (Int.not_lt.mpr inWord.1)
  rw [← same, BitVec.toNat_toInt_of_msb _ positive]

theorem ofInt_two_pow (places : Nat) : BitVec.ofInt 64 (2 ^ places) = BitVec.twoPow 64 places := by
  rw [← BitVec.toNat_inj, BitVec.toNat_twoPow, ← BitVec.toNat_ofNat, ← BitVec.ofInt_natCast]
  push_cast
  rfl

theorem ofInt_shiftLeft {word amount : Int64} (inWord : Operator.InWord amount) :
    Int64.ofInt (word.toInt <<< amount.toInt.toNat) = word <<< amount := by
  apply Int64.toBitVec.inj
  rw [Int64.toBitVec_ofInt, Int64.toBitVec_shiftLeft, BitVec.shiftLeft_eq', toNat_smod_of_inWord inWord,
    Int.shiftLeft_eq, BitVec.ofInt_mul, ofInt_two_pow, BitVec.shiftLeft_eq_mul_twoPow, ← Int64.toInt_toBitVec,
    BitVec.ofInt_toInt]

theorem ofInt_shiftRight {word amount : Int64} (inWord : Operator.InWord amount) :
    Int64.ofInt (word.toInt >>> amount.toInt.toNat) = word >>> amount := by
  apply Int64.toBitVec.inj
  rw [Int64.toBitVec_ofInt, Int64.toBitVec_shiftRight, BitVec.sshiftRight', toNat_smod_of_inWord inWord,
    ← Int64.toInt_toBitVec, ← BitVec.toInt_sshiftRight, BitVec.ofInt_toInt]

namespace Operator

variable {op : Operator} {left right : Int64}

/-- The one quotient of words that is none. -/
def IsLowestQuotient (op : Operator) (left right : Int64) : Prop :=
  op = .div ∧ left = .minValue ∧ right = -1

instance : Decidable (IsLowestQuotient op left right) :=
  inferInstanceAs (Decidable (_ ∧ _ ∧ _))

theorem onIntegers?_eq_none {first second : Int} : op.onIntegers? first second = none ↔
    op = .complement ∨ (op = .div ∧ second = 0) ∨
      (op = .shiftLeft ∨ op = .shiftRight) ∧ ¬ (0 ≤ second ∧ second ≤ 63) := by
  cases op <;> simp [onIntegers?]

theorem inWord_iff {amount : Int64} : InWord amount ↔ 0 ≤ amount.toInt ∧ amount.toInt ≤ 63 := by
  rw [InWord]
  omega

/-- Apart from that quotient, an operation on words is the exact one, wrapped around. -/
theorem onWords?_eq (stays : ¬ op.IsLowestQuotient left right) :
    op.onWords? left right = (op.onIntegers? left.toInt right.toInt).map .ofInt := by
  have modular (known : op ∈ Operator.modular) :
      op.onWords? left right = (op.onIntegers? left.toInt right.toInt).map .ofInt := by
    obtain ⟨exact, whole, kept⟩ := onWords?_ofInt known left.toInt right.toInt
    rwa [Int64.ofInt_toInt, Int64.ofInt_toInt, ← Option.map_some (f := Int64.ofInt), ← whole] at kept
  cases op with
  | add | sub | mul | bitAnd | bitOr | bitXor => exact modular (by simp [Operator.modular])
  | div =>
    have zero : right.toInt = 0 ↔ right = 0 := by rw [← Int64.toInt_zero, Int64.toInt_inj]
    simp only [IsLowestQuotient, true_and] at stays
    simp only [onWords?, onIntegers?, zero, stays, or_false, apply_ite (Option.map Int64.ofInt), Option.map_none,
      Option.map_some, ofInt_toInt_tdiv]
  | shiftLeft =>
    simp only [onWords?, onIntegers?, ← inWord_iff]
    split
    next inWord => rw [Option.map_some, ofInt_shiftLeft inWord]
    next => rfl
  | shiftRight =>
    simp only [onWords?, onIntegers?, ← inWord_iff]
    split
    next inWord => rw [Option.map_some, ofInt_shiftRight inWord]
    next => rfl
  | complement => rfl

end Operator

namespace Expr

/-- The literals are whole, and nothing is referred to. -/
def Whole : Expr → Prop
  | int _ _ => True
  | float _ _ | ref _ => False
  | unary _ operand _ => operand.Whole
  | binary left _ right => left.Whole ∧ right.Whole

/-- What an expression comes to when each exact result is wrapped around to a word. -/
inductive Evaluates : Expr → Int64 → Prop where
  | int {value span} : Evaluates (.int value span) value
  | unary {op operand span word exact} (inside : Evaluates operand word)
      (result : op.onInteger? word.toInt = some exact) : Evaluates (.unary op operand span) (.ofInt exact)
  | binary {left op right first second exact} (leftSide : Evaluates left first) (rightSide : Evaluates right second)
      (result : op.onIntegers? first.toInt second.toInt = some exact) :
      Evaluates (.binary left op right) (.ofInt exact)

/-- The operation at the top of the expression has no result. -/
inductive Fault : Expr → Prop where
  | sign {op operand span} (other : op ∉ Operator.signs) : Fault (.unary op operand span)
  | complement {left right} : Fault (.binary left .complement right)
  | division {left right} (zero : Evaluates right 0) : Fault (.binary left .div right)
  | shift {left op right amount} (shifts : op = .shiftLeft ∨ op = .shiftRight) (length : Evaluates right amount)
      (outside : ¬ (0 ≤ amount.toInt ∧ amount.toInt ≤ 63)) : Fault (.binary left op right)

/-- The operation at the top of the expression is the quotient of the lowest word and minus one. -/
inductive Overflow : Expr → Prop where
  | quotient {left right} (lowest : Evaluates left .minValue) (minusOne : Evaluates right (-1)) :
      Overflow (.binary left .div right)

/-- It is so at the top of the expression or further inside. -/
inductive Meets (what : Expr → Prop) : Expr → Prop where
  | here {expr} (top : what expr) : Meets what expr
  | operand {op operand span} (inside : Meets what operand) : Meets what (.unary op operand span)
  | left {left op right} (inside : Meets what left) : Meets what (.binary left op right)
  | right {left op right} (inside : Meets what right) : Meets what (.binary left op right)

theorem Evaluates.unique {expr : Expr} {first second : Int64} (one : expr.Evaluates first)
    (other : expr.Evaluates second) : first = second := by
  induction one generalizing second with
  | int =>
    cases other
    rfl
  | unary _ result ih =>
    cases other with
    | unary inside again =>
      rw [ih inside, again, Option.some.injEq] at result
      rw [result]
  | binary _ _ result leftIH rightIH =>
    cases other with
    | binary leftSide rightSide again =>
      rw [leftIH leftSide, rightIH rightSide, again, Option.some.injEq] at result
      rw [result]

variable {what : Expr → Prop} {expr operand left right : Expr} {op : Operator} {span : Span} {value : Int64}
  {first second word : Int64} {exact : Int}

theorem meets_int_iff : (Expr.int value span).Meets what ↔ what (.int value span) := by
  constructor
  · rintro ⟨top⟩
    exact top
  · exact .here

theorem meets_unary_iff :
    (Expr.unary op operand span).Meets what ↔ what (.unary op operand span) ∨ operand.Meets what := by
  constructor
  · rintro (top | inside)
    · exact .inl top
    · exact .inr inside
  · rintro (top | inside)
    · exact .here top
    · exact .operand inside

theorem meets_binary_iff : (Expr.binary left op right).Meets what ↔
    what (.binary left op right) ∨ left.Meets what ∨ right.Meets what := by
  constructor
  · rintro (top | _ | inside | inside)
    · exact .inl top
    · exact .inr (.inl inside)
    · exact .inr (.inr inside)
  · rintro (top | inside | inside)
    · exact .here top
    · exact .left inside
    · exact .right inside

/-- An operator means something before every number or before none. -/
theorem fault_unary_iff (number : Int) : Fault (.unary op operand span) ↔ op.onInteger? number = none := by
  rw [Operator.onInteger?_eq_none]
  constructor
  · rintro ⟨other⟩
    exact other
  · exact .sign

/-- Whether there is an exact result depends on the right operand alone. -/
theorem fault_binary_iff (number : Int) (rightSide : right.Evaluates second) :
    Fault (.binary left op right) ↔ op.onIntegers? number second.toInt = none := by
  rw [Operator.onIntegers?_eq_none]
  constructor
  · intro fault
    cases fault with
    | complement => exact .inl rfl
    | division zero => exact .inr (.inl ⟨rfl, by rw [rightSide.unique zero, Int64.toInt_zero]⟩)
    | shift shifts length outside => exact .inr (.inr ⟨shifts, rightSide.unique length ▸ outside⟩)
  · rintro (rfl | ⟨rfl, zero⟩ | ⟨shifts, outside⟩)
    · exact .complement
    · rw [← Int64.toInt_zero, Int64.toInt_inj] at zero
      exact .division (zero ▸ rightSide)
    · exact .shift shifts rightSide outside

theorem overflow_iff (leftSide : left.Evaluates first) (rightSide : right.Evaluates second) :
    Overflow (.binary left op right) ↔ op.IsLowestQuotient first second := by
  constructor
  · rintro ⟨lowest, minusOne⟩
    exact ⟨rfl, leftSide.unique lowest, rightSide.unique minusOne⟩
  · rintro ⟨rfl, rfl, rfl⟩
    exact .quotient leftSide rightSide

/-- All that is so of an expression with a value. -/
structure Folds (expr : Expr) (word : Int64) : Prop where
  constant : expr.constant? = some (.int word)
  evaluates : expr.Evaluates word
  faultless : ¬ expr.Meets Fault
  within : ¬ expr.Meets Overflow

/-- All that is so of an expression without one. -/
structure Stuck (expr : Expr) : Prop where
  constant : expr.constant? = none
  cause : expr.Meets Fault ∨ expr.Meets Overflow

theorem folds_int : (Expr.int value span).Folds value where
  constant := rfl
  evaluates := .int
  faultless := by
    rw [meets_int_iff]
    rintro ⟨⟩
  within := by
    rw [meets_int_iff]
    rintro ⟨⟩

theorem constant?_unary (folds : operand.Folds word) :
    (Expr.unary op operand span).constant? = (op.onInteger? word.toInt).map fun exact => .int (.ofInt exact) := by
  rw [constant?, folds.constant, Option.bind_some, ← Operator.onConstant?_ofInt, Int64.ofInt_toInt]

theorem Folds.unary (folds : operand.Folds word) (result : op.onInteger? word.toInt = some exact) :
    (Expr.unary op operand span).Folds (.ofInt exact) where
  constant := by rw [constant?_unary folds, result, Option.map_some]
  evaluates := .unary folds.evaluates result
  faultless := by
    rw [meets_unary_iff, fault_unary_iff word.toInt, result]
    simpa using folds.faultless
  within := by
    rw [meets_unary_iff]
    rintro (top | inside)
    · cases top
    · exact folds.within inside

theorem Stuck.unary (stuck : operand.Stuck) : (Expr.unary op operand span).Stuck where
  constant := by rw [constant?, stuck.constant, Option.bind_none]
  cause := stuck.cause.imp .operand .operand

theorem stuck_unary (folds : operand.Folds word) (fails : op.onInteger? word.toInt = none) :
    (Expr.unary op operand span).Stuck where
  constant := by rw [constant?_unary folds, fails, Option.map_none]
  cause := .inl (.here ((fault_unary_iff word.toInt).mpr fails))

theorem constant?_binary (leftFolds : left.Folds first) (rightFolds : right.Folds second) :
    (Expr.binary left op right).constant? = (op.onWords? first second).map .int := by
  rw [constant?, leftFolds.constant, rightFolds.constant]
  rfl

theorem Folds.binary (leftFolds : left.Folds first) (rightFolds : right.Folds second)
    (stays : ¬ op.IsLowestQuotient first second) (result : op.onIntegers? first.toInt second.toInt = some exact) :
    (Expr.binary left op right).Folds (.ofInt exact) where
  constant := by rw [constant?_binary leftFolds rightFolds, Operator.onWords?_eq stays, result, Option.map_some,
    Option.map_some]
  evaluates := .binary leftFolds.evaluates rightFolds.evaluates result
  faultless := by
    rw [meets_binary_iff, fault_binary_iff first.toInt rightFolds.evaluates, result]
    simpa using ⟨leftFolds.faultless, rightFolds.faultless⟩
  within := by
    rw [meets_binary_iff, overflow_iff leftFolds.evaluates rightFolds.evaluates]
    rintro (leaves | inside | inside)
    · exact stays leaves
    · exact leftFolds.within inside
    · exact rightFolds.within inside

theorem Stuck.of_left (stuck : left.Stuck) : (Expr.binary left op right).Stuck where
  constant := by
    rw [constant?, stuck.constant]
    rfl
  cause := stuck.cause.imp .left .left

theorem Stuck.of_right (leftFolds : left.Folds first) (stuck : right.Stuck) : (Expr.binary left op right).Stuck where
  constant := by
    rw [constant?, leftFolds.constant, stuck.constant]
    rfl
  cause := stuck.cause.imp .right .right

theorem stuck_lowestQuotient (leftFolds : left.Folds first) (rightFolds : right.Folds second)
    (lowest : op.IsLowestQuotient first second) : (Expr.binary left op right).Stuck where
  constant := by
    rw [constant?_binary leftFolds rightFolds, lowest.1, lowest.2.1, lowest.2.2]
    rfl
  cause := .inr (.here ((overflow_iff leftFolds.evaluates rightFolds.evaluates).mpr lowest))

theorem stuck_binary (leftFolds : left.Folds first) (rightFolds : right.Folds second)
    (stays : ¬ op.IsLowestQuotient first second) (fails : op.onIntegers? first.toInt second.toInt = none) :
    (Expr.binary left op right).Stuck where
  constant := by rw [constant?_binary leftFolds rightFolds, Operator.onWords?_eq stays, fails, Option.map_none,
    Option.map_none]
  cause := .inl (.here ((fault_binary_iff first.toInt rightFolds.evaluates).mpr fails))

/-- The two ways to end, by induction on the expression; the left operand is asked for first. -/
theorem Whole.folds_or_stuck (whole : expr.Whole) : (∃ word, expr.Folds word) ∨ expr.Stuck := by
  induction expr with
  | int value span => exact .inl ⟨value, folds_int⟩
  | float | ref => exact absurd whole id
  | unary op operand span ih =>
    rcases ih whole with ⟨word, folds⟩ | stuck
    · cases result : op.onInteger? word.toInt with
      | some exact => exact .inl ⟨_, folds.unary result⟩
      | none => exact .inr (stuck_unary folds result)
    · exact .inr stuck.unary
  | binary left op right leftIH rightIH =>
    rcases leftIH whole.1 with ⟨first, leftFolds⟩ | stuck
    · rcases rightIH whole.2 with ⟨second, rightFolds⟩ | stuck
      · by_cases lowest : op.IsLowestQuotient first second
        · exact .inr (stuck_lowestQuotient leftFolds rightFolds lowest)
        · cases result : op.onIntegers? first.toInt second.toInt with
          | some exact => exact .inl ⟨_, leftFolds.binary rightFolds lowest result⟩
          | none => exact .inr (stuck_binary leftFolds rightFolds lowest result)
      · exact .inr (.of_right leftFolds stuck)
    · exact .inr stuck.of_left

/-- An expression of whole literals has no value just where its evaluation meets a fault or the one overflow; else its
value is what it evaluates to. -/
theorem constant?_of_whole {expr : Expr} (whole : expr.Whole) :
    (expr.constant? = none ↔ expr.Meets Fault ∨ expr.Meets Overflow) ∧
      (¬ expr.Meets Fault → ¬ expr.Meets Overflow →
        ∃ word, expr.constant? = some (.int word) ∧ ∀ other, expr.Evaluates other ↔ other = word) := by
  rcases whole.folds_or_stuck with ⟨word, folds⟩ | stuck
  · have only (other : Int64) : expr.Evaluates other ↔ other = word :=
      ⟨fun evaluates => evaluates.unique folds.evaluates, fun same => same ▸ folds.evaluates⟩
    exact ⟨by simp [folds.constant, folds.faultless, folds.within], fun _ _ => ⟨word, folds.constant, only⟩⟩
  · exact ⟨iff_of_true stuck.constant stuck.cause,
      fun faultless within => absurd stuck.cause (not_or.mpr ⟨faultless, within⟩)⟩

/-- A negative quotient, shifted by a difference that is one when wrapped around. -/
def shiftedExpr : Expr :=
  .binary (.binary (.int 7 .nowhere) .div (.int (-2) .nowhere)) .shiftLeft
    (.binary (.int .minValue .nowhere) .sub (.int .maxValue .nowhere))

theorem constant?_shiftedExpr :
    shiftedExpr.Whole ∧ ¬ shiftedExpr.Meets Fault ∧ ¬ shiftedExpr.Meets Overflow ∧ shiftedExpr.Evaluates (-6) := by
  have whole : shiftedExpr.Whole := ⟨⟨trivial, trivial⟩, trivial, trivial⟩
  have folded : shiftedExpr.constant? = some (.int (-6)) := rfl
  obtain ⟨none, value⟩ := constant?_of_whole whole
  obtain ⟨faultless, within⟩ := not_or.mp (none.not.mp (by simp [folded]))
  obtain ⟨word, same, only⟩ := value faultless within
  rw [folded, Option.some.injEq, Constant.int.injEq] at same
  exact ⟨whole, faultless, within, (only _).mpr same⟩

/-- The quotient that wraps around to the lowest word. -/
def lowestQuotient : Expr :=
  .binary (.int .minValue .nowhere) .div (.int (-1) .nowhere)

/-- Without any fault an expression may have no value. -/
theorem constant?_lowestQuotient :
    lowestQuotient.Whole ∧ lowestQuotient.constant? = none ∧ ¬ lowestQuotient.Meets Fault ∧
      lowestQuotient.Evaluates .minValue := by
  have opposite : Operator.onIntegers? .div Int64.minValue.toInt (-1 : Int64).toInt = some 9223372036854775808 := by
    decide
  have wraps : Int64.ofInt 9223372036854775808 = .minValue := by decide
  refine ⟨⟨trivial, trivial⟩, rfl, ?_, wraps ▸ .binary .int .int opposite⟩
  rw [lowestQuotient, meets_binary_iff, meets_int_iff, meets_int_iff, fault_binary_iff 0 .int]
  rintro (fails | fault | fault)
  · cases fails
  · cases fault
  · cases fault

end Expr

end RecordLayout
