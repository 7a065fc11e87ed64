import RecordLayout.Proofs.Grammar.Expr

/-! The parser of conditions reads the phrases of conditions. It tries a comparison before a condition
in parentheses, and a count before a condition in brackets. That is no restriction: what one of the
two alternatives takes, the other one never takes. Up to the first relation in a condition at least as
many parentheses are opened as closed, while in an expression, which has no relation, they are even. -/

namespace RecordLayout

open Grammar

namespace Parser

/-- Neither is in an expression. -/
def marks (token : Token) : Bool :=
  (relation? token).isSome || token.kind == .rightBracket

def opened (tokens : List Token) : Nat :=
  tokens.countP (·.kind == .leftParen)

def closed (tokens : List Token) : Nat :=
  tokens.countP (·.kind == .rightParen)

/-- Tokens as they are in expressions. -/
structure Even (tokens : List Token) : Prop where
  unmarked : ∀ token ∈ tokens, marks token = false
  balanced : opened tokens = closed tokens

/-- Tokens as they are in conditions. -/
structure Marked (tokens : List Token) : Prop where
  split : ∃ front token back, tokens = front ++ token :: back ∧ (relation? token).isSome = true ∧
    (∀ before ∈ front, marks before = false) ∧ closed front ≤ opened front

namespace Even

theorem nil : Even [] :=
  ⟨by simp, rfl⟩

theorem append {front back : List Token} (first : Even front) (second : Even back) :
    Even (front ++ back) := by
  have evenFront := first.balanced
  have evenBack := second.balanced
  refine ⟨fun token member => ?_, ?_⟩
  · rcases List.mem_append.mp member with member | member
    · exact first.unmarked token member
    · exact second.unmarked token member
  · unfold opened closed at *
    rw [List.countP_append, List.countP_append]
    omega

theorem cons {token : Token} {tokens : List Token} (unmarked : marks token = false)
    (other : token.kind ≠ .leftParen ∧ token.kind ≠ .rightParen) (others : Even tokens) :
    Even (token :: tokens) := by
  have balanced := others.balanced
  refine ⟨?_, ?_⟩
  · simpa [unmarked] using others.unmarked
  · simpa [opened, closed, other] using balanced

theorem inParens {opening closing : Token} {tokens : List Token} (opens : opening.kind = .leftParen)
    (inside : Even tokens) (closes : closing.kind = .rightParen) :
    Even (opening :: (tokens ++ [closing])) := by
  have balanced := inside.balanced
  refine ⟨fun token member => ?_, ?_⟩
  · simp only [List.mem_cons, List.mem_append, List.not_mem_nil, or_false] at member
    rcases member with rfl | member | rfl
    · simp [marks, relation?, opens]
    · exact inside.unmarked token member
    · simp [marks, relation?, closes]
  · simp only [opened, closed, List.countP_cons, List.countP_append, List.countP_nil, opens, closes] at *
    simp only [BEq.rfl, if_true, reduceCtorEq, beq_iff_eq, if_false]
    omega

end Even

/-! What is in expressions and in conditions. -/

section

variable {signed grouped : Phrase Expr}

theorem even_of_dotted {tokens : List Token} {path : Path} (dotted : Dotted tokens path) : Even tokens := by
  cases dotted with
  | mk start more =>
    have rest : ∀ {tokens : List Token} {segments : List Token},
        Phrase.Many (Phrase.After .dot fun tokens segment => tokens = [segment] ∧ segment.kind = .identifier)
          tokens segments → Even tokens := by
      intro tokens segments many
      induction many with
      | nil => exact .nil
      | cons first _ ih =>
        apply Even.append _ ih
        cases first with
        | mk mark there =>
          obtain ⟨rfl, identifier⟩ := there
          apply Even.cons (by simp [marks, relation?, mark]) (by simp [mark])
          exact Even.cons (by simp [marks, relation?, identifier]) (by simp [identifier]) .nil
    exact (rest more).cons (by simp [marks, relation?, start]) (by simp [start])

theorem even_of_factorOf (evenSigned : ∀ tokens value, signed tokens value → Even tokens)
    (evenGrouped : ∀ tokens value, grouped tokens value → Even tokens) {tokens : List Token}
    {value : Expr} (there : FactorOf signed grouped tokens value) : Even tokens := by
  cases there with
  | int literal _ => exact Even.nil.cons (by simp [marks, relation?, literal]) (by simp [literal])
  | float literal _ => exact Even.nil.cons (by simp [marks, relation?, literal]) (by simp [literal])
  | ref dotted => exact even_of_dotted dotted
  | signed there => exact evenSigned _ _ there
  | grouped there => exact evenGrouped _ _ there

theorem plain_of_operator {token : Token} {op : Operator} (sign : token.kind = op.kind) :
    marks token = false ∧ token.kind ≠ .leftParen ∧ token.kind ≠ .rightParen := by
  cases op <;> simp [marks, relation?, sign, Operator.kind]

theorem even_of_operations {among : Operator → Prop} {operand : Phrase Expr}
    (evenOperand : ∀ tokens value, operand tokens value → Even tokens) {tokens : List Token} {value : Expr}
    (there : Operations among operand tokens value) : Even tokens := by
  induction there with
  | single only => exact evenOperand _ _ only
  | more _ next ih =>
    apply ih.append
    cases next with
    | mk _ sign right =>
      have plain := plain_of_operator sign
      exact (evenOperand _ _ right).cons plain.1 plain.2

theorem even_of_sum {factor : Phrase Expr} (evenFactor : ∀ tokens value, factor tokens value → Even tokens)
    {tokens : List Token} {value : Expr} (there : Sum factor tokens value) : Even tokens :=
  even_of_operations (fun _ _ term => even_of_operations evenFactor term) there

theorem even_of_factor (depth : Nat) (tokens : List Token) (value : Expr)
    (there : Factor depth tokens value) : Even tokens := by
  induction depth generalizing tokens value with
  | zero => exact even_of_factorOf (fun _ _ none => none.elim) (fun _ _ none => none.elim) there
  | succ depth ih =>
    apply even_of_factorOf _ _ there
    · intro tokens value there
      cases there with
      | mk _ sign before =>
        have plain := plain_of_operator sign
        exact (ih _ _ before).cons plain.1 plain.2
    · intro tokens value there
      cases there with
      | mk opens inside closes => exact (even_of_sum ih inside).inParens opens closes

theorem even_of_arithmetic {depth : Nat} {tokens : List Token} {value : Expr}
    (there : Arithmetic depth tokens value) : Even tokens :=
  even_of_sum (even_of_factor depth) there

end

theorem Marked.append {front : List Token} (marked : Marked front) (back : List Token) :
    Marked (front ++ back) := by
  obtain ⟨before, token, after, rfl, related, unmarked, more⟩ := marked.split
  exact ⟨before, token, after ++ back, by simp, related, unmarked, more⟩

theorem marked_of_junction {op : Connective} {kind : Token.Kind} {item : Phrase Condition}
    (markedItem : ∀ tokens value, item tokens value → Marked tokens) {tokens : List Token}
    {value : Condition} (there : Junction op kind item tokens value) : Marked tokens := by
  induction there with
  | single only => exact markedItem _ _ only
  | more _ _ ih => exact ih.append _

theorem marked_of_logic {depth : Nat} {tokens : List Token} {value : Condition}
    (there : Logic depth tokens value) : Marked tokens := by
  induction depth generalizing tokens value with
  | zero => exact there.elim
  | succ depth ih =>
    apply marked_of_junction _ there
    intro tokens value there
    apply marked_of_junction _ there
    intro tokens value there
    cases there with
    | @compared front token _ _ _ _ leftSide related _ =>
      have even := even_of_arithmetic leftSide
      exact ⟨front, token, _, rfl, by simp [relation?_eq_some.mpr related], even.unmarked,
        Nat.le_of_eq even.balanced.symm⟩
    | grouped inside =>
      cases inside with
      | @mk opening _ _ closing opens inside closes =>
        obtain ⟨before, token, after, rfl, related, unmarked, more⟩ := (ih inside).split
        refine ⟨opening :: before, token, after ++ [closing], by simp, related, ?_, ?_⟩
        · intro other member
          rcases List.mem_cons.mp member with rfl | member
          · simp [marks, relation?, opens]
          · exact unmarked other member
        · simp only [opened, closed, List.countP_cons, opens] at *
          simp only [BEq.rfl, if_true, reduceCtorEq, beq_iff_eq, if_false]
          omega

/-! Neither alternative takes what the other one takes. -/

private theorem first_marked {front back before after : List Token} {token other : Token}
    (unmarkedFront : ∀ token ∈ front, marks token = false) (marked : marks token = true)
    (unmarkedBefore : ∀ token ∈ before, marks token = false) (otherMarked : marks other = true)
    (same : front ++ token :: back = before ++ other :: after) : front = before ∧ token = other := by
  induction front generalizing before with
  | nil =>
    cases before with
    | nil => exact ⟨rfl, (List.cons.inj same).1⟩
    | cons next others =>
      have unmarked := unmarkedBefore next (by simp)
      rw [← (List.cons.inj same).1, marked] at unmarked
      exact absurd unmarked (by simp)
  | cons first front ih =>
    cases before with
    | nil =>
      have unmarked := unmarkedFront first (by simp)
      rw [(List.cons.inj same).1, otherMarked] at unmarked
      exact absurd unmarked (by simp)
    | cons next others =>
      obtain ⟨sameHead, sameTail⟩ := List.cons.inj same
      subst sameHead
      have both := ih (fun token member => unmarkedFront token (by simp [member]))
        (fun token member => unmarkedBefore token (by simp [member])) sameTail
      exact ⟨congrArg _ both.1, both.2⟩

/-- No comparison is where a condition in parentheses is. -/
theorem grouped_apart {depth other : Nat} {group left rest after : List Token} {token : Token}
    {value : Condition} {operand : Expr} (grouped : Phrase.InParens (Logic depth) group value)
    (leftSide : Arithmetic other left operand) (related : (relation? token).isSome = true) :
    group ++ rest ≠ left ++ token :: after := by
  intro same
  cases grouped with
  | @mk opening tokens _ closing opens inside closes =>
    obtain ⟨before, mark, others, rfl, markRelated, unmarked, more⟩ := (marked_of_logic inside).split
    have even := even_of_arithmetic leftSide
    have unmarkedBefore : ∀ token ∈ opening :: before, marks token = false := by
      simpa [marks, relation?, opens] using unmarked
    have position := first_marked even.unmarked (by simp [marks, related]) unmarkedBefore
      (show marks mark = true by simp [marks, markRelated])
      (same.symm.trans (by simp : _ = (opening :: before) ++ mark :: (others ++ closing :: rest)))
    have balanced := even.balanced
    rw [position.1] at balanced
    simp only [opened, closed, List.countP_cons, opens] at balanced more
    simp only [BEq.rfl, if_true, reduceCtorEq, beq_iff_eq, if_false] at balanced
    omega

/-- No count is where a condition in brackets is. -/
theorem condition_apart {depth other : Nat} {front left rest after : List Token} {token : Token}
    {value : Condition} {amount : Expr} (condition : Logic depth front value)
    (count : Arithmetic other left amount) (closes : token.kind = .rightBracket) :
    front ++ rest ≠ left ++ token :: after := by
  intro same
  obtain ⟨before, mark, others, rfl, related, unmarked, _⟩ := (marked_of_logic condition).split
  have even := even_of_arithmetic count
  have position := first_marked even.unmarked (by simp [marks, closes]) unmarked
    (show marks mark = true by simp [marks, related])
    (same.symm.trans (by simp : _ = before ++ mark :: (others ++ rest)))
  rw [← position.2] at related
  simp [relation?, closes] at related

/-! The parsers. -/

theorem relation?_plain {token : Token} (related : (relation? token).isSome = true) :
    extendsSum token = false :=
  not_extendsSum (by simp [related])

theorem comparison_eq_ok {operand : Parser Expr} {tokens rest : List Token} {value : Condition} :
    comparison operand tokens = .ok (value, rest) ↔
      ∃ left token after op right, operand tokens = .ok (left, token :: after) ∧
        relation? token = some op ∧ operand after = .ok (right, rest) ∧
        value = .relation left op right := by
  simp only [comparison, bind_eq_ok, expect_eq_ok, pure_eq_ok]
  constructor
  · intro ⟨left, _, first, op, after, ⟨token, following, related⟩, right, _, second, same, ended⟩
    subst following ended
    exact ⟨left, token, after, op, right, first, related, second, same.symm⟩
  · intro ⟨left, token, after, op, right, first, related, second, same⟩
    exact ⟨left, _, first, op, after, ⟨token, rfl, related⟩, right, rest, second, same.symm, rfl⟩

theorem relationOrGroup_reads {room : Nat} {inner : Parser Condition} {blocks : Token → Bool}
    (reads : Reads inner (Logic room) blocks)
    (apart : ∀ token : Token, token.kind = .rightParen → blocks token = false) :
    Reads (relationOrGroup (expr room) inner) (RelationOf (Arithmetic room) (Logic room)) extendsSum := by
  have group := inParens_reads reads apart
  refine ⟨?_, ?_⟩
  · intro tokens value rest read
    rcases tryCatch_eq_ok.mp read with compared | ⟨failure, _, handled⟩
    · obtain ⟨left, token, after, op, right, first, related, second, rfl⟩ := comparison_eq_ok.mp compared
      obtain ⟨front, same, leftSide⟩ := (expr_reads room).sound first
      obtain ⟨back, rfl, rightSide⟩ := (expr_reads room).sound second
      exact ⟨front ++ token :: back, by simpa using same, .compared leftSide (relation?_eq_some.mp related) rightSide⟩
    · obtain ⟨next, after, looked, continued⟩ := bind_eq_ok.mp handled
      cases looked
      split at continued
      next =>
        obtain ⟨front, same, inside⟩ := group.sound continued
        exact ⟨front, same, .grouped inside⟩
      next => cases continued
  · intro front value rest there clear
    cases there with
    | @compared first token op second left right leftSide related rightSide =>
      have related := relation?_eq_some.mpr related
      apply tryCatch_eq_ok.mpr
      refine .inl (comparison_eq_ok.mpr ⟨left, token, second ++ rest, op, right, ?_, related, ?_, rfl⟩)
      · rw [List.append_assoc]
        exact (expr_reads room).complete leftSide (by simp [relation?_plain, related])
      · exact (expr_reads room).complete rightSide clear
    | grouped inside =>
      apply tryCatch_eq_ok_of_fails
      · intro found after compared
        obtain ⟨left, token, _, op, right, first, related, _⟩ := comparison_eq_ok.mp compared
        obtain ⟨front, same, leftSide⟩ := (expr_reads room).sound first
        exact grouped_apart inside leftSide (by simp [related]) same
      · intro failure
        have taken := group.complete inside (clear_never rest)
        obtain ⟨opening, others, rfl, opens⟩ := Phrase.begins_inParens _ _ inside
        refine bind_eq_ok.mpr ⟨true, _, ?_, by simpa using taken⟩
        simp [nextIsKind_apply, opens]

theorem junction_reads {op : Connective} {kind : Token.Kind} {item : Parser Condition}
    {phrase : Phrase Condition} {blocks : Token → Bool} (reads : Reads item phrase blocks)
    (apart : ∀ token : Token, token.kind = kind → blocks token = false) :
    Reads (junction op kind item) (Junction op kind phrase)
      (fun token => token.kind == kind || blocks token) := by
  apply chain_reads _ reads (after_reads reads) _ _ after_absent
  · exact Phrase.begins_after.mono (by simp)
  · simpa using apart

/-- The token goes on with a condition that it follows. -/
def extendsCondition (token : Token) : Bool :=
  token.kind == .or || (token.kind == .and || extendsSum token)

theorem not_extendsCondition {token : Token} (kind : token.kind = .rightParen ∨
    token.kind = .rightBracket ∨ token.kind = .question) : extendsCondition token = false := by
  rcases kind with kind | kind | kind <;> simp [extendsCondition, extendsSum, additive?, multiplicative?, kind]

theorem relation_reads {room : Nat} {inner : Parser Condition} (reads : Reads inner (Logic room) extendsCondition) :
    Reads (relationOrGroup (expr room) inner) (RelationOf (Arithmetic room) (Logic room)) extendsSum :=
  relationOrGroup_reads reads fun _ closes => not_extendsCondition (.inl closes)

theorem conjunction_reads {room : Nat} {inner : Parser Condition} (reads : Reads inner (Logic room) extendsCondition) :
    Reads (junction .and .and (relationOrGroup (expr room) inner))
      (Junction .and .and (RelationOf (Arithmetic room) (Logic room)))
      (fun token => token.kind == .and || extendsSum token) :=
  junction_reads (relation_reads reads) fun _ kind => not_extendsSum (by simp [kind])

theorem condition_reads (room : Nat) : Reads (condition room) (Logic room) extendsCondition := by
  induction room with
  | zero => exact fail_reads
  | succ room ih =>
    apply junction_reads (conjunction_reads ih)
    intro token kind
    simp [kind, not_extendsSum]

end Parser

end RecordLayout
