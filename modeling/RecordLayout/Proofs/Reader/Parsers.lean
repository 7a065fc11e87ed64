import RecordLayout.Proofs.Reader.Performs

/-! Every routine performs the parser that has its name. What is read takes a token, unless it is said that it need not:
so a loop over it ends. Factors and conditions call for others a level deeper, and there are no more levels than the
limit allows. -/

namespace RecordLayout

variable {room : Nat}

namespace Parser

variable {σ : Type} [TokenSource σ]

/-! Whatever the room, a parser that calls itself does so one level deeper. -/

theorem factor_eq : (factor room : ParserOn σ Expr) =
    factorWith (nested room fun less => signed (factor less))
      (nested room fun less => inParens (sum (factor less))) := by
  cases room <;> rfl

theorem condition_eq : (condition room : ParserOn σ Condition) =
    nested room fun less => junction .or .or (junction .and .and
      (relationOrGroup (expr less) (condition less))) := by
  funext source
  cases room <;> rfl

end Parser

namespace Routine

variable {taken : α → Prop}

/-! ### Expressions -/

/-- Items behind tokens of a kind. -/
theorem manyAfter_performs {item : Routine α} {other : ParserOn Cursor α} {kind : Token.Kind}
    (items : Performs room Still item other) :
    Performs room Still (many do if ← eat kind then return some (← item) else return none)
      (Parser.many do if ← Parser.eat kind then return some (← other) else return none) :=
  many_performs (eat_performs (items.still_bind fun _ => .pure id) (.pure Bool.false_ne_true))

theorem path_performs {taken : Path → Prop} : Performs room taken path Parser.path :=
  token_performs.moving_bind fun _ => (manyAfter_performs expect_performs).still_bind fun _ => .pure id

theorem integer_performs {taken : Int64 × Span → Prop} : Performs room taken integer Parser.integer := by
  refine token_performs.moving_bind fun token => ?_
  cases Decimal.int64? token.content.toList with
  | some value => exact .pure id
  | none => exact failAt_performs

theorem float_performs {taken : Float × Span → Prop} : Performs room taken float Parser.float := by
  refine token_performs.moving_bind fun token => ?_
  cases Decimal.float? token.content.toList with
  | some value => exact .pure id
  | none => exact failAt_performs

section

variable {operand : Routine Expr} {other : ParserOn Cursor Expr} {taken : Expr → Prop}

theorem chain_performs {operator? : Token → Option Operator} (operands : Performs room Moving operand other) :
    Performs room taken (chain operator? operand) (Parser.chain operator? other) := by
  refine operands.moving_bind fun _ => Performs.still_bind (many_performs ?_) fun _ => .pure id
  exact accept?_performs.present_bind (.pure Bool.false_ne_true) fun _ => operands.moving_bind fun _ => .pure id

theorem signed_performs (operands : Performs room Still operand other) :
    Performs room taken (signed operand) (Parser.signed other) :=
  expect_performs.moving_bind fun _ => operands.still_bind fun _ => .pure id

theorem factorWith_performs {signed grouped : Routine Expr} {signed' grouped' : ParserOn Cursor Expr}
    (signs : Performs room taken signed signed') (groups : Performs room taken grouped grouped') :
    Performs room taken (factorWith signed grouped) (Parser.factorWith signed' grouped') := by
  refine peek?_performs.still_bind fun next => ?_
  cases next with
  | none => exact unexpected_performs
  | some next =>
    obtain ⟨kind, text, span⟩ := next
    cases kind
    case integer => exact integer_performs.moving_bind fun _ => .pure id
    case float => exact float_performs.moving_bind fun _ => .pure id
    case leftParen => exact groups
    case identifier => exact path_performs.moving_bind fun _ => .pure id
    all_goals first | exact signs | exact unexpected_performs

/-- There is one call at most for each level, and one more that finds no room. -/
theorem factorWithin_performs {calls : Nat} (enough : room < calls) :
    Performs room taken (factorWithin calls) (Parser.factor room) := by
  induction calls generalizing room taken with
  | zero => exact absurd enough (Nat.not_lt_zero _)
  | succ calls ih =>
    rw [Parser.factor_eq]
    apply factorWith_performs <;> refine nested_performs fun less same => ?_
    · exact signed_performs (ih (by omega))
    · exact inParens_performs (chain_performs (chain_performs (ih (by omega))))

theorem factor_performs : Performs room taken factor (Parser.factor room) := by
  intro reader sound left
  exact factorWithin_performs (by omega) reader sound left

theorem term_performs : Performs room taken term (Parser.chain Parser.multiplicative? (Parser.factor room)) :=
  chain_performs factor_performs

theorem expr_performs : Performs room taken expr (Parser.expr room) :=
  chain_performs term_performs

end

/-! ### Conditions -/

section

variable {taken : Condition → Prop} {item : Routine Condition} {other : ParserOn Cursor Condition}

theorem comparison_performs : Performs room taken comparison (Parser.comparison (Parser.expr room)) :=
  expr_performs.moving_bind fun _ => expect_performs.still_bind fun _ => expr_performs.still_bind fun _ => .pure id

/-- Where no comparison can be read, the routine goes back to the parenthesis with which it began. -/
theorem relationOrGroup_performs (inside : Performs room Still item other) :
    Performs room taken (relationOrGroup item) (Parser.relationOrGroup (Parser.expr room) other) := by
  refine comparison_performs.attempt fun reader after failure sound left reaches => ?_
  have asks : kindAt reader.place .leftParen after =
      .some (.ok ((TokenSource.next? reader.cursor).any (·.kind == .leftParen)), after) := by
    rw [kindAt, reaches.tokens, sound.any_next?_cursor (by decide)]
  have asked : Parser.nextIsKind .leftParen reader.cursor =
      .ok ((TokenSource.next? reader.cursor).any (·.kind == .leftParen), reader.cursor) := rfl
  rw [bind_of_ok asks, Parser.bind_of_ok asked]
  cases (TokenSource.next? reader.cursor).any (·.kind == .leftParen) with
  | false => exact .error reaches
  | true =>
    change reader.Gives taken ((do rollback reader.place; inParens item) after) (Parser.inParens other reader.cursor)
    rw [rollback_bind reaches]
    exact inParens_performs inside reader sound left

theorem junction_performs {op : Connective} {kind : Token.Kind} (items : Performs room Moving item other) :
    Performs room taken (junction op kind item) (Parser.junction op kind other) :=
  items.moving_bind fun _ => (manyAfter_performs (items.mono fun _ _ => trivial)).still_bind fun _ => .pure id

theorem conditionWithin_performs {calls : Nat} (enough : room < calls) :
    Performs room taken (conditionWithin calls) (Parser.condition room) := by
  induction calls generalizing room taken with
  | zero => exact absurd enough (Nat.not_lt_zero _)
  | succ calls ih =>
    rw [Parser.condition_eq]
    refine nested_performs fun less same => ?_
    exact junction_performs (junction_performs (relationOrGroup_performs (ih (by omega))))

theorem condition_performs : Performs room taken condition (Parser.condition room) := by
  intro reader sound left
  exact conditionWithin_performs (by omega) reader sound left

theorem relation_performs :
    Performs room taken relation (Parser.relationOrGroup (Parser.expr room) (Parser.condition room)) :=
  relationOrGroup_performs condition_performs

theorem conjunction_performs : Performs room taken conjunction
    (Parser.junction .and .and (Parser.relationOrGroup (Parser.expr room) (Parser.condition room))) :=
  junction_performs relation_performs

end

/-! ### Choices -/

theorem byteOrder?_performs : Performs room Present byteOrder? Parser.byteOrder? :=
  accept?_performs

theorem choiceHead_performs {taken : Token × Condition → Prop} :
    Performs room taken choiceHead (Parser.choiceHead room) :=
  token_performs.moving_bind fun _ => condition_performs.still_bind fun _ => token_performs.still_bind fun _ => .pure id

/-- Back at the opening parenthesis, with nothing read. -/
theorem rollback_gives {origin after : Reader} (sound : origin.Sound) (reaches : origin.Reaches after) :
    origin.Gives Present ((do rollback origin.place; return (none : Option α)) after)
      ((do set origin.cursor; return none : ParserOn Cursor (Option α)) after.cursor) := by
  rw [rollback_bind reaches]
  exact .ok (.refl sound) fun present => absurd present Bool.false_ne_true

/-- Where an alternative is no byte order, all that has been read is given back. -/
theorem orderChoice?_performs : Performs room Present orderChoice? (Parser.orderChoice? room) := by
  intro reader sound left
  rw [orderChoice?, place_bind]
  refine nested_gives sound left fun less same => ?_
  have sound := sound.deeper
  have inside {after : Reader} (reaches : reader.deeper.Reaches after) : after.limit - after.depth = less := by
    rw [reaches.limit, reaches.depth]
    change reader.limit - (reader.depth + 1) = less
    omega
  have head : reader.deeper.Gives Moving (choiceHead reader.deeper) (Parser.choiceHead less reader.deeper.cursor) :=
    choiceHead_performs reader.deeper sound (inside (.refl sound))
  refine head.bind (.refl sound) fun (opening, condition) atTrue reached passed => ?_
  have order {after : Reader} (reaches : reader.deeper.Reaches after) :=
    byteOrder?_performs after reaches.sound (inside reaches)
  refine (order reached).bind reached fun ifTrue atColon toColon _ => ?_
  have reachedColon := reached.trans toColon
  cases ifTrue with
  | none => exact rollback_gives sound reachedColon
  | some ifTrue =>
    have colon : atColon.Gives Still (token .colon atColon) (Parser.token .colon atColon.cursor) :=
      token_performs atColon toColon.sound (inside reachedColon)
    refine colon.bind reachedColon fun _ atFalse toFalse _ => ?_
    have reachedFalse := reachedColon.trans toFalse
    refine (order reachedFalse).bind reachedFalse fun ifFalse atClosing toClosing _ => ?_
    have reachedClosing := reachedFalse.trans toClosing
    cases ifFalse with
    | none => exact rollback_gives sound reachedClosing
    | some ifFalse =>
      have closes : Performs less Still
          (do let closing ← token .rightParen
              return some (Choice.mk condition ifTrue ifFalse (opening.span.through closing.span)))
          (do let closing ← Parser.token .rightParen
              return some ⟨condition, ifTrue, ifFalse, opening.span.through closing.span⟩) :=
        token_performs.still_bind fun _ => .pure id
      have onward := (toColon.trans toFalse).trans toClosing
      have passed := Nat.lt_of_lt_of_le (passed trivial) onward.forward
      exact (closes atClosing toClosing.sound (inside reachedClosing)).since reachedClosing fun _ _ => .inr passed

/-! ### Types -/

theorem hexEscape_performs {taken : Delimiter → Prop} : Performs room taken hexEscape Parser.hexEscape := by
  refine token_performs.moving_bind fun backslash => token_performs.still_bind fun digits => ?_
  dsimp only
  cases Parser.hexEscape? digits.content.toList with
  | some value => exact .pure id
  | none => exact failAt_performs

theorem delimiter_performs {taken : Delimiter → Prop} : Performs room taken delimiter Parser.delimiter := by
  refine inParens_performs (peek?_performs.still_bind fun next => ?_)
  cases next with
  | none => exact unexpected_performs
  | some next =>
    obtain ⟨kind, text, span⟩ := next
    cases kind
    case string => exact advance_performs.still_bind fun _ => .pure id
    case char => exact advance_performs.still_bind fun _ => .pure id
    case integer => exact integer_performs.still_bind fun _ => .pure id
    case backslash => exact hexEscape_performs
    case identifier => exact path_performs.still_bind fun _ => .pure id
    all_goals exact unexpected_performs

theorem dataType_performs {taken : DataType → Prop} : Performs room taken dataType Parser.dataType := by
  refine token_performs.moving_bind fun token => ?_
  cases Primitive.ofName? token.content with
  | none => exact failAt_performs
  | some primitive =>
    refine nextIsKind_performs.still_bind fun follows => ?_
    cases primitive.takesDelimiter && follows with
    | true => exact delimiter_performs.still_bind fun _ => .pure id
    | false => exact .pure id

theorem withDefaultDelimiter_performs {type : DataType} :
    Performs room Still (withDefaultDelimiter type) (Parser.withDefaultDelimiter type) := by
  obtain ⟨primitive, delimiter, span⟩ := type
  cases primitive <;> cases delimiter
  all_goals first | exact .pure id | exact failAt_performs

theorem typeRef_performs {taken : TypeRef → Prop} : Performs room taken typeRef Parser.typeRef := by
  refine nextIsKind_performs.either ?_ (nextIsKind_performs.either ?_ unexpected_performs)
  · exact dataType_performs.moving_bind fun _ => withDefaultDelimiter_performs.still_bind fun _ => .pure id
  · exact path_performs.moving_bind fun _ => .pure id

theorem typeChoice_performs {taken : Choice TypeRef → Prop} :
    Performs room taken typeChoice (Parser.typeChoice room) :=
  nested_performs fun _ _ => choiceHead_performs.moving_bind fun _ => typeRef_performs.still_bind fun _ =>
    token_performs.still_bind fun _ => typeRef_performs.still_bind fun _ => token_performs.still_bind fun _ => .pure id

theorem memberType_performs {taken : MemberType → Prop} :
    Performs room taken memberType (Parser.memberType room) := by
  refine nextIsKind_performs.either (typeChoice_performs.moving_bind fun _ => .pure id) ?_
  refine nextIsKind_performs.either (dataType_performs.moving_bind fun _ => .pure id) ?_
  exact nextIsKind_performs.either (path_performs.moving_bind fun _ => .pure id) unexpected_performs

/-! ### Members -/

theorem orderAndType_performs {taken : Option OrderRule × MemberType → Prop} :
    Performs room taken orderAndType (Parser.orderAndType room) := by
  have typed (order : Option OrderRule) {taken : Option OrderRule × MemberType → Prop} :
      Performs room taken (do return (order, ← memberType)) (do return (order, ← Parser.memberType room)) :=
    memberType_performs.moving_bind fun _ => .pure id
  refine byteOrder?_performs.present_bind ?_ fun order => typed _
  refine nextIsKind_performs.either (orderChoice?_performs.present_bind ?_ fun choice => typed _) (typed none)
  exact typeChoice_performs.moving_bind fun _ => .pure id

/-- What is no count is read as a condition, from behind the same bracket. -/
theorem repetition_performs {taken : Repetition → Prop} :
    Performs room taken repetition (Parser.repetition room) := by
  have counts : Performs room taken count
      (do let amount ← Parser.expr room; let _ ← Parser.token .rightBracket; return .count amount) :=
    expr_performs.moving_bind fun _ => token_performs.still_bind fun _ => .pure id
  have tests : Performs room taken
      (do let condition ← condition; let _ ← token .rightBracket; return Repetition.whileTrue condition)
      (do let condition ← Parser.condition room; let _ ← Parser.token .rightBracket; return .whileTrue condition) :=
    condition_performs.moving_bind fun _ => token_performs.still_bind fun _ => .pure id
  refine eat_performs (.pure id) (counts.attempt fun reader after failure sound left reaches => ?_)
  rw [rollback_bind reaches]
  exact tests reader sound left

theorem withLateDelimiter_performs {type : MemberType} :
    Performs room Still (withLateDelimiter type) (Parser.withLateDelimiter type) := by
  cases type with
  | chosen choice => exact .pure id
  | plain type =>
    cases type with
    | named path => exact .pure id
    | data type =>
      refine nextIsKind_performs.still_bind fun follows => ?_
      split
      · split
        · exact fail_performs
        · exact delimiter_performs.still_bind fun _ => .pure id
      · exact withDefaultDelimiter_performs.still_bind fun _ => .pure id

section

variable {inherited : OrderRule}

theorem memberInfo_performs {taken : MemberInfo → Prop} :
    Performs room taken (memberInfo inherited) (Parser.memberInfo room inherited) := by
  refine orderAndType_performs.moving_bind fun typed => ?_
  have behind (repetition : Option Repetition) : Performs room Still
      (do return MemberInfo.mk (← withLateDelimiter typed.2) (typed.1.getD inherited) repetition)
      (do return MemberInfo.mk (← Parser.withLateDelimiter typed.2) (typed.1.getD inherited) repetition) :=
    withLateDelimiter_performs.still_bind fun _ => .pure id
  apply eat_performs
  · exact repetition_performs.map.still_bind fun _ => behind _
  · exact Performs.still_bind (.pure id) fun _ => behind _

theorem member_performs {taken : Member → Prop} :
    Performs room taken (member inherited) (Parser.member room inherited) :=
  memberInfo_performs.moving_bind fun _ => name_performs.still_bind fun _ => token_performs.still_bind fun _ => .pure id

theorem memberGroup_performs {taken : List Member → Prop} :
    Performs room taken (memberGroup inherited) (Parser.memberGroup room inherited) := by
  refine token_performs.moving_bind fun opening => (manyInBraces_performs member_performs).still_bind fun found =>
    token_performs.still_bind fun closing => ?_
  split
  · exact failAt_performs
  · exact .pure id

/-! ### Selections -/

theorem caseValue_performs {taken : Expr → Prop} : Performs room taken caseValue (Parser.caseValue room) :=
  expr_performs.moving_bind fun _ => token_performs.still_bind fun _ => .pure id

theorem caseBody_performs {body : Routine α} {other : ParserOn Cursor α} (bodies : Performs room Still body other) :
    Performs room Still (caseBody body) (Parser.caseBody other) :=
  bodies.still_bind fun _ => token_performs.still_bind fun _ => .pure id

theorem singleCase_performs {taken : Case MemberInfo → Prop} :
    Performs room taken (singleCase inherited) (Parser.singleCase room inherited) :=
  caseValue_performs.moving_bind fun _ => nextIsKind_performs.either failAt_performs
    ((caseBody_performs memberInfo_performs).still_bind fun _ => .pure id)

theorem groupCase_performs {taken : Case (List Member) → Prop} :
    Performs room taken (groupCase inherited) (Parser.groupCase room inherited) :=
  caseValue_performs.moving_bind fun _ => nextIsKind_performs.either
    ((caseBody_performs memberGroup_performs).still_bind fun _ => .pure id) failAt_performs

theorem selected_performs {taken : Selected → Prop} :
    Performs room taken (selected inherited) (Parser.selected room inherited) := by
  refine token_performs.moving_bind fun _ => nextIsKind_performs.either fail_performs ?_
  refine isAtEnd_performs.either unexpected_performs (caseValue_performs.still_bind fun value => ?_)
  apply nextIsKind_performs.either
  · refine (caseBody_performs memberGroup_performs).still_bind fun body => ?_
    refine (manyInBraces_performs groupCase_performs).still_bind fun others => ?_
    exact token_performs.still_bind fun _ => nextIsKind_performs.either fail_performs (.pure id)
  · refine (caseBody_performs memberInfo_performs).still_bind fun body => ?_
    refine (manyInBraces_performs singleCase_performs).still_bind fun others => ?_
    exact token_performs.still_bind fun _ => name_performs.still_bind fun _ => .pure id

theorem selection_performs {taken : Selection → Prop} :
    Performs room taken (selection inherited) (Parser.selection room inherited) :=
  keyword_performs.moving_bind fun _ => (inParens_performs expr_performs).still_bind fun _ =>
    selected_performs.still_bind fun _ => token_performs.still_bind fun _ => .pure id

/-! ### Declarations -/

theorem structItem_performs {taken : StructItem → Prop} :
    Performs room taken (structItem inherited) (Parser.structItem room inherited) :=
  nextIs_performs.either (selection_performs.moving_bind fun _ => .pure id)
    (member_performs.moving_bind fun _ => .pure id)

end

theorem structOrder_performs : Performs room Still structOrder (Parser.structOrder room) := by
  refine byteOrder?_performs.present_bind ?_ fun order => .pure id
  refine nextIsKind_performs.either (orderChoice?_performs.present_bind ?_ fun choice => .pure id) (.pure id)
  exact fail_performs

theorem struct_performs {taken : StructDef → Prop} : Performs room taken struct (Parser.struct room) :=
  structOrder_performs.still_bind fun _ => keyword_performs.moving_bind fun _ => name_performs.still_bind fun _ =>
    token_performs.still_bind fun _ => (manyInBraces_performs structItem_performs).still_bind fun _ =>
      token_performs.still_bind fun _ => .pure id

theorem size?_performs : Performs room Present size? (Parser.size? room) :=
  nextIsKind_performs.either ((inParens_performs expr_performs).moving_bind fun _ => .pure id)
    (.pure Bool.false_ne_true)

theorem bitfieldMember_performs {taken : BitfieldMember → Prop} :
    Performs room taken bitfieldMember (Parser.bitfieldMember room) :=
  name_performs.moving_bind fun _ => (size?_performs.mono fun _ => False.elim).still_bind fun _ =>
    token_performs.still_bind fun _ => .pure id

theorem bitfield_performs {taken : BitfieldDef → Prop} : Performs room taken bitfield (Parser.bitfield room) :=
  keyword_performs.moving_bind fun _ => name_performs.still_bind fun _ =>
    (size?_performs.mono fun _ => False.elim).still_bind fun _ => token_performs.still_bind fun _ =>
      (manyInBraces_performs bitfieldMember_performs).still_bind fun _ => token_performs.still_bind fun _ => .pure id

theorem declaration_performs {taken : Declaration → Prop} :
    Performs room taken declaration (Parser.declaration room) :=
  nextIs_performs.either (bitfield_performs.moving_bind fun _ => .pure id)
    (nextIs_performs.either (struct_performs.moving_bind fun _ => .pure id) unexpected_performs)

theorem declarations_performs : Performs room Still declarations (Parser.declarations room) :=
  many_performs (isAtEnd_performs.either (.pure Bool.false_ne_true)
    (declaration_performs.moving_bind fun _ => .pure id))

end Routine

end RecordLayout
