import RecordLayout.Proofs.Expr.Text

/-! The text of a condition is scanned to tokens that make up the condition again. A parenthesis at its
start belongs to a condition or to an operand; which of them is decided by where it closes. -/

namespace RecordLayout

open Grammar Phrase RecordLayout.Parser Token

namespace Relation

theorem symbol?_kind (op : Relation) : op.kind.symbol? = some op.symbol := by
  cases op <;> rfl

theorem kind_plain (op : Relation) :
    op.kind ≠ .comment ∧ op.kind ≠ .endOfInput ∧ op.kind.endsOperand = false := by
  cases op <;> decide

end Relation

namespace Connective

def kind : Connective → Token.Kind
  | and => .and
  | or => .or

theorem symbol?_kind (op : Connective) : op.kind.symbol? = some op.symbol := by
  cases op <;> rfl

theorem kind_plain (op : Connective) :
    op.kind ≠ .comment ∧ op.kind ≠ .endOfInput ∧ op.kind.endsOperand = false := by
  cases op <;> decide

end Connective

namespace Condition

/-- The condition that a condition is the wanted one up to places. -/
def UpToSpans (wanted found : Condition) : Prop :=
  found.forgetSpans = wanted.forgetSpans

/-- What stands between connectives. -/
def Item (depth : Nat) : Phrase Condition :=
  RelationOf (Arithmetic depth) (Logic depth)

theorem arithmetic_rises : Rises Arithmetic :=
  fun _ _ _ _ deeper there => within_arithmetic (.inl deeper) _ _ (Nat.le_refl _) there

theorem item_rises : Rises Item := by
  intro depth other tokens value deeper there
  have operands : Within tokens.length (Arithmetic depth) (Arithmetic other) := within_arithmetic (.inl deeper)
  have conditions : Within tokens.length (Logic depth) (Logic other) := within_logic (.inl deeper)
  exact within_relationOf operands conditions _ _ (Nat.le_succ _) there

theorem logic_of_item {depth : Nat} {tokens : List Token} {condition : Condition}
    (there : Item depth tokens condition) : Logic (depth + 1) tokens condition :=
  .single (.single there)

theorem logic_of_junction {depth : Nat} {front back : List Token} {token : Token} {op : Connective}
    {left right : Condition} (leftSide : Item depth front left) (same : token.kind = op.kind)
    (rightSide : Item depth back right) :
    Logic (depth + 1) (front ++ token :: back) (.junction left op right) := by
  cases op with
  | and =>
    have next : After .and (Item depth) (token :: back) right := .mk same rightSide
    have joined : Junction .and .and (Item depth) (front ++ token :: back) (.junction left .and right) :=
      Chain.more (.single leftSide) next
    exact .single joined
  | or =>
    have first : Junction .and .and (Item depth) front left := .single leftSide
    have second : Junction .and .and (Item depth) back right := .single rightSide
    have next : After .or (Junction .and .and (Item depth)) (token :: back) right := .mk same second
    exact Chain.more (.single first) next

theorem finds_relation {left right : Expr} {op : Relation} {rest : List Char}
    (readable : (relation left op right).Readable) (floatFree : (relation left op right).FloatFree)
    (stops : Stops rest) :
    Finds (left.text.toList ++ ' ' :: (op.symbol.toList ++ ' ' :: right.text.toList)) rest
      (Spells Logic (UpToSpans (relation left op right).foldSigns)) := by
  have afterLeft : Stops (' ' :: (op.symbol.toList ++ ' ' :: right.text.toList) ++ rest) := by
    simp [Stops]
  have leftSide := (finds_expr readable.1 floatFree.1 afterLeft).mono fun tokens => spells_arithmetic
  have rightSide := (finds_expr readable.2 floatFree.2 stops).mono fun tokens => spells_arithmetic
  apply (finds_between arithmetic_rises op.symbol?_kind op.kind_plain leftSide rightSide).mono
  intro tokens between
  obtain ⟨solid, depth, front, token, back, first, second, same, kind, leftThere, rightThere, leftSame,
    rightSame⟩ := between
  subst same
  have compared : Item depth (front ++ token :: back) (.relation first op second) :=
    .compared leftThere kind rightThere
  refine ⟨solid, depth + 1, _, logic_of_item compared, ?_⟩
  rw [Expr.UpToSpans] at leftSame rightSame
  rw [UpToSpans, foldSigns, forgetSpans, forgetSpans, leftSame, rightSame]

theorem finds_junction {left right : Condition} {op : Connective} {rest : List Char}
    (leftSide : Finds left.text.toList (' ' :: (op.symbol.toList ++ ' ' :: right.text.toList) ++ rest)
      (Spells Item (UpToSpans left.foldSigns)))
    (rightSide : Finds right.text.toList rest (Spells Item (UpToSpans right.foldSigns))) :
    Finds (left.text.toList ++ ' ' :: (op.symbol.toList ++ ' ' :: right.text.toList)) rest
      (Spells Logic (UpToSpans (junction left op right).foldSigns)) := by
  apply (finds_between item_rises op.symbol?_kind op.kind_plain leftSide rightSide).mono
  intro tokens between
  obtain ⟨solid, depth, front, token, back, first, second, same, kind, leftThere, rightThere, leftSame,
    rightSame⟩ := between
  subst same
  refine ⟨solid, depth + 1, _, logic_of_junction leftThere kind rightThere, ?_⟩
  rw [UpToSpans] at leftSame rightSame
  rw [UpToSpans, foldSigns, forgetSpans, forgetSpans, leftSame, rightSame]

theorem finds_item {wanted : Condition → Prop} {chars rest : List Char} (stops : Stops rest)
    (inside : Finds chars (')' :: rest) (Spells Logic wanted)) :
    Finds ('(' :: (chars ++ [')'])) rest (Spells Item wanted) := by
  apply (finds_inParens stops inside).mono
  intro tokens ⟨solid, depth, value, there, wanted⟩
  exact ⟨solid, depth, value, .grouped there, wanted⟩

theorem finds_condition {condition : Condition} (readable : condition.Readable)
    (floatFree : condition.FloatFree) {rest : List Char} (stops : Stops rest) :
    Finds condition.text.toList rest (Spells Item (UpToSpans condition.foldSigns)) := by
  induction condition generalizing rest with
  | relation left op right =>
    have spelled : (relation left op right).text.toList =
        '(' :: (left.text.toList ++ ' ' :: (op.symbol.toList ++ ' ' :: right.text.toList) ++ [')']) := by
      simp [text]
    rw [spelled]
    apply finds_item stops
    exact finds_relation readable floatFree (by simp [Stops])
  | junction left op right leftIh rightIh =>
    have afterLeft : Stops (' ' :: (op.symbol.toList ++ ' ' :: right.text.toList) ++ ')' :: rest) := by
      simp [Stops]
    have afterRight : Stops (')' :: rest) := by simp [Stops]
    have spelled : (junction left op right).text.toList =
        '(' :: (left.text.toList ++ ' ' :: (op.symbol.toList ++ ' ' :: right.text.toList) ++ [')']) := by
      simp [text]
    rw [spelled]
    apply finds_item stops
    exact finds_junction (leftIh readable.1 floatFree.1 afterLeft) (rightIh readable.2 floatFree.2 afterRight)

end Condition

end RecordLayout
