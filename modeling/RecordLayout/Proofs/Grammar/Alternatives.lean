import RecordLayout.Proofs.Grammar.Member

/-! The order of alternatives. In two places the parser goes back to try something else: behind an operand that no
relation follows it tries a condition in parentheses, and in brackets without a count it tries a condition. Both could
begin with any number of parentheses, but never do both succeed on the same tokens, whatever room there is for either
one. So a parser that tries them the other way around reads the same. -/

namespace RecordLayout

open Grammar

namespace Parser

variable {tokens rest : List Token}

/-- The second parser where the first one fails. -/
def firstOf (first second : Parser α) : Parser α :=
  tryCatch first fun _ => second

/-- Never do both parsers succeed on the same tokens. -/
def Exclusive (first : Parser α) (second : Parser β) : Prop :=
  ∀ tokens found other, first tokens = .ok found → second tokens ≠ .ok other

/-- Both parsers succeed on the same tokens, with the same results. What they report of other tokens may differ. -/
def Agree (first second : Parser α) : Prop :=
  ∀ tokens value rest, first tokens = .ok (value, rest) ↔ second tokens = .ok (value, rest)

theorem firstOf_eq_ok {first second : Parser α} {value : α} :
    firstOf first second tokens = .ok (value, rest) ↔
      first tokens = .ok (value, rest) ∨
        (∀ found, first tokens ≠ .ok found) ∧ second tokens = .ok (value, rest) := by
  refine tryCatch_eq_ok.trans (or_congr_right ?_)
  cases first tokens <;> simp

/-- Of alternatives that exclude each other the one that succeeds is read, wherever it stands. -/
theorem Exclusive.firstOf_eq_ok {first second : Parser α} (apart : Exclusive first second) {value : α} :
    firstOf first second tokens = .ok (value, rest) ↔
      first tokens = .ok (value, rest) ∨ second tokens = .ok (value, rest) := by
  rw [Parser.firstOf_eq_ok]
  refine or_congr_right (and_iff_right_of_imp fun read found taken => ?_)
  exact apart _ _ _ taken read

namespace Exclusive

theorem symm {first : Parser α} {second : Parser β} (apart : Exclusive first second) : Exclusive second first :=
  fun tokens found other taken also => apart tokens other found also taken

theorem firstOf_comm {first second : Parser α} (apart : Exclusive first second) :
    Agree (firstOf first second) (firstOf second first) := by
  intro tokens value rest
  rw [apart.firstOf_eq_ok, apart.symm.firstOf_eq_ok, or_comm]

end Exclusive

/-! What is built from parsers that agree agrees. -/

namespace Agree

theorem refl (parser : Parser α) : Agree parser parser :=
  fun _ _ _ => .rfl

theorem trans {first second third : Parser α} (same : Agree first second) (also : Agree second third) :
    Agree first third :=
  fun tokens value rest => (same tokens value rest).trans (also tokens value rest)

theorem firstOf {first second left right : Parser α} (same : Agree first second) (also : Agree left right) :
    Agree (firstOf first left) (firstOf second right) := by
  intro tokens value rest
  have fails : (∀ found, first tokens ≠ .ok found) ↔ ∀ found, second tokens ≠ .ok found :=
    forall_congr' fun found => not_congr (same tokens found.1 found.2)
  rw [firstOf_eq_ok, firstOf_eq_ok, same, also, fails]

theorem bind {first second : Parser α} {next other : α → Parser β} (same : Agree first second)
    (also : ∀ value, Agree (next value) (other value)) : Agree (first >>= next) (second >>= other) := by
  intro tokens value rest
  rw [bind_eq_ok, bind_eq_ok]
  exact exists_congr fun middle => exists_congr fun after => and_congr (same ..) (also ..)

theorem manyFrom {first second : Parser (Option α)} (same : Agree first second) (bound : List Token)
    (found : List α) : Agree (manyFrom first bound found) (manyFrom second bound found) := by
  induction bound generalizing found with
  | nil => exact refl _
  | cons token bound ih =>
    intro tokens values rest
    rw [Parser.manyFrom, Parser.manyFrom]
    have items := same tokens
    cases read : first tokens with
    | ok result =>
      obtain ⟨value, after⟩ := result
      rw [(items value after).mp read]
      cases value with
      | none => rfl
      | some value => exact ih (value :: found) after values rest
    | error failure =>
      cases also : second tokens with
      | ok result => cases read.symm.trans ((items result.1 result.2).mpr also)
      | error reason => simp

theorem many {first second : Parser (Option α)} (same : Agree first second) : Agree (many first) (many second) :=
  fun tokens => same.manyFrom tokens [] tokens

theorem inParens {first second : Parser α} (same : Agree first second) : Agree (inParens first) (inParens second) :=
  (refl _).bind fun _ => same.bind fun _ => refl _

theorem junction {first second : Parser Condition} {op : Connective} {kind : Token.Kind} (same : Agree first second) :
    Agree (junction op kind first) (junction op kind second) := by
  refine same.bind fun start => Agree.bind (many ?_) fun others => refl _
  refine (refl _).bind fun found => ?_
  cases found with
  | true => exact same.bind fun _ => refl _
  | false => exact refl _

end Agree

/-! The alternatives. -/

theorem comparison_apart (room other : Nat) : Exclusive (comparison (expr room)) (inParens (condition other)) := by
  intro tokens ⟨value, rest⟩ ⟨inner, after⟩ compared grouped
  obtain ⟨left, token, behind, op, right, first, related, _⟩ := comparison_eq_ok.mp compared
  obtain ⟨front, same, leftSide⟩ := (expr_reads room).sound first
  have group := inParens_reads (condition_reads other) fun _ closes => not_extendsCondition (.inl closes)
  obtain ⟨inside, split, there⟩ := group.sound grouped
  exact grouped_apart there leftSide (by simp [related]) (split.symm.trans same)

theorem counted_apart (room other : Nat) : Exclusive (counted room) (conditional other) := by
  intro tokens ⟨value, rest⟩ ⟨inner, after⟩ read taken
  obtain ⟨amount, closing, first, closes, _⟩ := counted_eq_ok.mp read
  obtain ⟨front, same, count⟩ := (expr_reads room).sound first
  obtain ⟨condition, ending, second, _⟩ := conditional_eq_ok.mp taken
  obtain ⟨inside, split, there⟩ := (condition_reads other).sound second
  exact condition_apart there count closes (split.symm.trans same)

/-- Only a parenthesis begins a condition in parentheses, so the look at the next token decides nothing. -/
theorem relationOrGroup_agrees (operand : Parser Expr) (inner : Parser Condition) :
    Agree (relationOrGroup operand inner) (firstOf (comparison operand) (inParens inner)) := by
  intro tokens value rest
  rw [relationOrGroup, firstOf, tryCatch_eq_ok, tryCatch_eq_ok]
  refine or_congr_right (exists_congr fun failure => and_congr_right fun _ => ?_)
  rw [bind_of_ok nextIsKind_apply]
  split
  next => rfl
  next other =>
    refine iff_of_false nofun fun grouped => ?_
    obtain ⟨opening, after, closing, rfl, opens, _⟩ := inParens_eq_ok.mp grouped
    simp [opens] at other

/-! The other order. -/

/-- Conditions, where parentheses are tried before comparisons. -/
def conditionGroupFirst (room : Nat) : Parser Condition :=
  fun tokens =>
    match room with
    | 0 => fail .nestingTooDeep tokens
    | room + 1 =>
      junction .or .or (junction .and .and
        (firstOf (inParens (conditionGroupFirst room)) (comparison (expr room)))) tokens

/-- Repetitions, where conditions are tried before counts, and parentheses in them before comparisons. -/
def repetitionConditionFirst (room : Nat) : Parser Repetition := do
  if ← eat .rightBracket then
    return .untilEnd
  else
    firstOf
      (do
        let condition ← conditionGroupFirst room
        let _ ← token .rightBracket
        return .whileTrue condition)
      (counted room)

theorem condition_agrees (room : Nat) : Agree (condition room) (conditionGroupFirst room) := by
  induction room with
  | zero => exact .refl _
  | succ room ih =>
    apply Agree.junction
    apply Agree.junction
    have swapped := (comparison_apart room room).firstOf_comm
    exact (relationOrGroup_agrees _ _).trans (swapped.trans (Agree.firstOf ih.inParens (.refl _)))

theorem repetition_agrees (room : Nat) : Agree (repetition room) (repetitionConditionFirst room) := by
  refine (Agree.refl _).bind fun closed => ?_
  cases closed with
  | true => exact .refl _
  | false =>
    have swapped := (counted_apart room room).firstOf_comm
    exact swapped.trans (Agree.firstOf ((condition_agrees room).bind fun _ => .refl _) (.refl _))

/-- The alternatives exclude each other, so each pair of them may be tried in either order, and so may all of them. -/
theorem alternatives_interchange (room other : Nat) :
    Exclusive (comparison (expr room)) (inParens (condition other)) ∧
    Exclusive (counted room) (conditional other) ∧
    Agree (relationOrGroup (expr room) (condition other))
      (firstOf (inParens (condition other)) (comparison (expr room))) ∧
    Agree (firstOf (counted room) (conditional other)) (firstOf (conditional other) (counted room)) ∧
    Agree (condition room) (conditionGroupFirst room) ∧
    Agree (repetition room) (repetitionConditionFirst room) := by
  have relations := comparison_apart room other
  have repetitions := counted_apart room other
  refine ⟨relations, repetitions, ?_, repetitions.firstOf_comm, condition_agrees room, repetition_agrees room⟩
  exact (relationOrGroup_agrees _ _).trans relations.firstOf_comm

end Parser

end RecordLayout
