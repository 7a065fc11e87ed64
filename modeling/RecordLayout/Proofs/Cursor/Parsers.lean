import RecordLayout.Proofs.Cursor.Mirrors
import RecordLayout.Proofs.Grammar.Declaration

/-! Every parser of descriptions does over a cursor what it does on the tokens ahead of it. This follows from how they
are built. Of a loop it also needs to be known that each of its items takes a token. -/

namespace RecordLayout.Parser

open Grammar

variable {room : Nat}

/-! Expressions. -/

/-- Items behind tokens of a kind. -/
theorem manyAfter_mirrors {first : ParserOn Cursor α} {second : Parser α} {phrase : Phrase α}
    {blocks : Token → Bool} {kind : Token.Kind} (reads : Reads second phrase blocks)
    (mirrors : Mirrors first second) :
    Mirrors (many do if ← eat kind then return some (← first) else return none)
      (many do if ← eat kind then return some (← second) else return none) := by
  apply many_mirrors (advances_of_reads (after_reads reads) Phrase.begins_after.nonempty rfl)
  exact either_mirrors eat_mirrors (mirrors.bind fun _ => .pure) .pure

theorem path_mirrors : Mirrors path path :=
  token_mirrors.bind fun _ => (manyAfter_mirrors segment_reads expect_mirrors).bind fun _ => .pure

theorem integer_mirrors : Mirrors integer integer := by
  refine token_mirrors.bind fun token => ?_
  cases Decimal.int64? token.content.toList with
  | some value => exact .pure
  | none => exact failAt_mirrors

theorem float_mirrors : Mirrors float float := by
  refine token_mirrors.bind fun token => ?_
  cases Decimal.float? token.content.toList with
  | some value => exact .pure
  | none => exact failAt_mirrors

section

variable {first : ParserOn Cursor Expr} {second : Parser Expr} {phrase : Phrase Expr} {blocks : Token → Bool}

theorem chain_mirrors {operator? : Token → Option Operator} {among : Operator → Prop} (picks : Picks operator? among)
    (reads : Reads second phrase blocks) (mirrors : Mirrors first second) :
    Mirrors (chain operator? first) (chain operator? second) := by
  refine mirrors.bind fun left => Mirrors.bind (many_mirrors ?_ ?_) fun _ => .pure
  · exact advances_of_reads (operation_reads picks reads) Phrase.begins_operation.nonempty rfl
  refine accept?_mirrors.bind fun found => ?_
  cases found with
  | some op => exact mirrors.bind fun _ => .pure
  | none => exact .pure

theorem sum_mirrors (reads : Reads second phrase (·.kind == .dot)) (mirrors : Mirrors first second) :
    Mirrors (sum first) (sum second) :=
  chain_mirrors additive?_eq_some (term_reads reads) (chain_mirrors multiplicative?_eq_some reads mirrors)

theorem signed_mirrors (mirrors : Mirrors first second) : Mirrors (signed first) (signed second) :=
  expect_mirrors.bind fun _ => mirrors.bind fun _ => .pure

theorem factorWith_mirrors {signed grouped : ParserOn Cursor Expr} {signed' grouped' : Parser Expr}
    (signs : Mirrors signed signed') (groups : Mirrors grouped grouped') :
    Mirrors (factorWith signed grouped) (factorWith signed' grouped') := by
  refine peek?_mirrors.bind fun next => ?_
  cases next with
  | none => exact unexpected_mirrors
  | some next =>
    obtain ⟨kind, text, span⟩ := next
    cases kind
    case integer => exact integer_mirrors.bind fun _ => .pure
    case float => exact float_mirrors.bind fun _ => .pure
    case leftParen => exact groups
    case identifier => exact path_mirrors.bind fun _ => .pure
    all_goals first | exact signs | exact unexpected_mirrors

theorem factor_mirrors : Mirrors (factor room) (factor room) := by
  induction room with
  | zero => exact factorWith_mirrors fail_mirrors fail_mirrors
  | succ room ih =>
    exact factorWith_mirrors (signed_mirrors ih) (inParens_mirrors (sum_mirrors (factor_reads room) ih))

theorem expr_mirrors : Mirrors (expr room) (expr room) :=
  sum_mirrors (factor_reads room) factor_mirrors

end

/-! Conditions. -/

section

variable {first : ParserOn Cursor Condition} {second : Parser Condition}

theorem comparison_mirrors {operand : ParserOn Cursor Expr} {other : Parser Expr} (mirrors : Mirrors operand other) :
    Mirrors (comparison operand) (comparison other) :=
  mirrors.bind fun _ => expect_mirrors.bind fun _ => mirrors.bind fun _ => .pure

/-- Where no comparison can be read, both are back at the same parenthesis. -/
theorem relationOrGroup_mirrors {operand : ParserOn Cursor Expr} {other : Parser Expr}
    (operands : Mirrors operand other) (inside : Mirrors first second) :
    Mirrors (relationOrGroup operand first) (relationOrGroup other second) :=
  (comparison_mirrors operands).tryCatch fun _ =>
    either_mirrors nextIsKind_mirrors (inParens_mirrors inside) .throw

theorem junction_mirrors {op : Connective} {kind : Token.Kind} {phrase : Phrase Condition} {blocks : Token → Bool}
    (reads : Reads second phrase blocks) (mirrors : Mirrors first second) :
    Mirrors (junction op kind first) (junction op kind second) :=
  mirrors.bind fun _ => (manyAfter_mirrors reads mirrors).bind fun _ => .pure

theorem condition_mirrors : Mirrors (condition room) (condition room) := by
  induction room with
  | zero => exact fail_mirrors
  | succ room ih =>
    have items := relationOrGroup_mirrors (@expr_mirrors room) ih
    exact junction_mirrors (conjunction_reads (condition_reads room))
      (junction_mirrors (relation_reads (condition_reads room)) items)

end

/-! Choices. -/

theorem byteOrder?_mirrors : Mirrors byteOrder? byteOrder? :=
  accept?_mirrors

theorem choiceHead_mirrors : Mirrors (choiceHead room) (choiceHead room) :=
  token_mirrors.bind fun _ => condition_mirrors.bind fun _ => token_mirrors.bind fun _ => .pure

/-- Where the alternatives are no byte orders, both go back to before the choice. -/
theorem orderChoice?_mirrors : Mirrors (orderChoice? room) (orderChoice? room) := by
  refine .get_bind fun start => nested_mirrors fun room => choiceHead_mirrors.bind fun head => ?_
  refine byteOrder?_mirrors.bind fun first => ?_
  cases first with
  | none => exact .set_bind .pure
  | some ifTrue =>
    refine token_mirrors.bind fun _ => byteOrder?_mirrors.bind fun second => ?_
    cases second with
    | none => exact .set_bind .pure
    | some ifFalse => exact token_mirrors.bind fun _ => .pure

/-! Types. -/

theorem hexEscape_mirrors : Mirrors hexEscape hexEscape := by
  refine token_mirrors.bind fun backslash => token_mirrors.bind fun digits => ?_
  dsimp only
  cases hexEscape? digits.content.toList with
  | some value => exact .pure
  | none => exact failAt_mirrors

theorem delimiter_mirrors : Mirrors delimiter delimiter := by
  refine inParens_mirrors (peek?_mirrors.bind fun next => ?_)
  cases next with
  | none => exact unexpected_mirrors
  | some next =>
    obtain ⟨kind, text, span⟩ := next
    cases kind
    case string => exact skip_mirrors.bind fun _ => .pure
    case char => exact skip_mirrors.bind fun _ => .pure
    case integer => exact integer_mirrors.bind fun _ => .pure
    case backslash => exact hexEscape_mirrors
    case identifier => exact path_mirrors.bind fun _ => .pure
    all_goals exact unexpected_mirrors

theorem dataType_mirrors : Mirrors dataType dataType := by
  refine token_mirrors.bind fun token => ?_
  cases Primitive.ofName? token.content with
  | none => exact failAt_mirrors
  | some primitive =>
    refine nextIsKind_mirrors.bind fun follows => ?_
    cases primitive.takesDelimiter && follows with
    | true => exact delimiter_mirrors.bind fun _ => .pure
    | false => exact .pure

theorem withDefaultDelimiter_mirrors {type : DataType} :
    Mirrors (withDefaultDelimiter type) (withDefaultDelimiter type) := by
  unfold withDefaultDelimiter
  split
  · exact .pure
  · exact failAt_mirrors
  · exact .pure

theorem typeRef_mirrors : Mirrors typeRef typeRef := by
  refine either_mirrors nextIsKind_mirrors ?_ (either_mirrors nextIsKind_mirrors ?_ unexpected_mirrors)
  · exact dataType_mirrors.bind fun _ => withDefaultDelimiter_mirrors.bind fun _ => .pure
  · exact path_mirrors.bind fun _ => .pure

theorem typeChoice_mirrors : Mirrors (typeChoice room) (typeChoice room) :=
  nested_mirrors fun _ => choiceHead_mirrors.bind fun _ => typeRef_mirrors.bind fun _ =>
    token_mirrors.bind fun _ => typeRef_mirrors.bind fun _ => token_mirrors.bind fun _ => .pure

theorem memberType_mirrors : Mirrors (memberType room) (memberType room) := by
  refine either_mirrors nextIsKind_mirrors (typeChoice_mirrors.bind fun _ => .pure) ?_
  refine either_mirrors nextIsKind_mirrors (dataType_mirrors.bind fun _ => .pure) ?_
  exact either_mirrors nextIsKind_mirrors (path_mirrors.bind fun _ => .pure) unexpected_mirrors

/-! Members. -/

theorem orderAndType_mirrors : Mirrors (orderAndType room) (orderAndType room) := by
  have typed (order : Option OrderRule) : Mirrors (do return (order, ← memberType room))
      (do return (order, ← memberType room)) :=
    memberType_mirrors.bind fun _ => .pure
  refine byteOrder?_mirrors.bind fun found => ?_
  cases found with
  | some order => exact typed _
  | none =>
    refine either_mirrors nextIsKind_mirrors (orderChoice?_mirrors.bind fun choice => ?_) (typed none)
    cases choice with
    | some choice => exact typed _
    | none => exact typeChoice_mirrors.bind fun _ => .pure

/-- What is no count is read as a condition, from behind the same bracket. -/
theorem repetition_mirrors : Mirrors (repetition room) (repetition room) := by
  have count : Mirrors (do let amount ← expr room; let _ ← token .rightBracket; return Repetition.count amount)
      (do let amount ← expr room; let _ ← token .rightBracket; return Repetition.count amount) :=
    expr_mirrors.bind fun _ => token_mirrors.bind fun _ => .pure
  refine either_mirrors eat_mirrors .pure (count.tryCatch fun _ => ?_)
  exact condition_mirrors.bind fun _ => token_mirrors.bind fun _ => .pure

theorem withLateDelimiter_mirrors {type : MemberType} :
    Mirrors (withLateDelimiter type) (withLateDelimiter type) := by
  unfold withLateDelimiter
  split
  · refine nextIsKind_mirrors.bind fun follows => ?_
    split
    · split
      · exact fail_mirrors
      · exact delimiter_mirrors.bind fun _ => .pure
    · exact withDefaultDelimiter_mirrors.bind fun _ => .pure
  · exact .pure

theorem memberInfo_mirrors {inherited : OrderRule} :
    Mirrors (memberInfo room inherited) (memberInfo room inherited) := by
  refine orderAndType_mirrors.bind fun typed => ?_
  have behind (repetition : Option Repetition) :
      Mirrors (do return MemberInfo.mk (← withLateDelimiter typed.2) (typed.1.getD inherited) repetition)
        (do return MemberInfo.mk (← withLateDelimiter typed.2) (typed.1.getD inherited) repetition) :=
    withLateDelimiter_mirrors.bind fun _ => .pure
  apply either_mirrors eat_mirrors
  · exact repetition_mirrors.map.bind fun _ => behind _
  · exact Mirrors.pure.bind fun _ => behind _

theorem member_mirrors {inherited : OrderRule} : Mirrors (member room inherited) (member room inherited) :=
  memberInfo_mirrors.bind fun _ => name_mirrors.bind fun _ => token_mirrors.bind fun _ => .pure

/-! Selections. -/

theorem memberGroup_mirrors {inherited : OrderRule} :
    Mirrors (memberGroup room inherited) (memberGroup room inherited) := by
  have members := manyInBraces_mirrors (takes_of_reads (member_reads room inherited) begins_memberLine) member_mirrors
  refine token_mirrors.bind fun opening => members.bind fun found => token_mirrors.bind fun closing => ?_
  split
  · exact failAt_mirrors
  · exact .pure

theorem caseValue_mirrors : Mirrors (caseValue room) (caseValue room) :=
  expr_mirrors.bind fun _ => token_mirrors.bind fun _ => .pure

theorem caseBody_mirrors {body : ParserOn Cursor α} {other : Parser α} (mirrors : Mirrors body other) :
    Mirrors (caseBody body) (caseBody other) :=
  mirrors.bind fun _ => token_mirrors.bind fun _ => .pure

theorem singleCase_mirrors {inherited : OrderRule} : Mirrors (singleCase room inherited) (singleCase room inherited) :=
  caseValue_mirrors.bind fun _ => either_mirrors nextIsKind_mirrors failAt_mirrors
    ((caseBody_mirrors memberInfo_mirrors).bind fun _ => .pure)

theorem groupCase_mirrors {inherited : OrderRule} : Mirrors (groupCase room inherited) (groupCase room inherited) :=
  caseValue_mirrors.bind fun _ => either_mirrors nextIsKind_mirrors
    ((caseBody_mirrors memberGroup_mirrors).bind fun _ => .pure) failAt_mirrors

theorem selected_mirrors {inherited : OrderRule} : Mirrors (selected room inherited) (selected room inherited) := by
  have singles :=
    manyInBraces_mirrors (takes_of_reads (singleCase_reads room inherited) begins_caseLine) singleCase_mirrors
  have groups :=
    manyInBraces_mirrors (takes_of_reads (groupCase_reads room inherited) begins_caseLine) groupCase_mirrors
  refine token_mirrors.bind fun _ => either_mirrors nextIsKind_mirrors fail_mirrors ?_
  refine either_mirrors isAtEnd_mirrors unexpected_mirrors (caseValue_mirrors.bind fun value => ?_)
  apply either_mirrors nextIsKind_mirrors
  · refine (caseBody_mirrors memberGroup_mirrors).bind fun body => groups.bind fun others => ?_
    exact token_mirrors.bind fun _ => either_mirrors nextIsKind_mirrors fail_mirrors .pure
  · refine (caseBody_mirrors memberInfo_mirrors).bind fun body => singles.bind fun others => ?_
    exact token_mirrors.bind fun _ => name_mirrors.bind fun _ => .pure

theorem selection_mirrors {inherited : OrderRule} : Mirrors (selection room inherited) (selection room inherited) :=
  keyword_mirrors.bind fun _ => (inParens_mirrors expr_mirrors).bind fun _ => selected_mirrors.bind fun _ =>
    token_mirrors.bind fun _ => .pure

/-! Structs and bitfields. -/

theorem structItem_mirrors {inherited : OrderRule} : Mirrors (structItem room inherited) (structItem room inherited) :=
  either_mirrors nextIs_mirrors (selection_mirrors.bind fun _ => .pure) (member_mirrors.bind fun _ => .pure)

theorem structOrder_mirrors : Mirrors (structOrder room) (structOrder room) := by
  refine byteOrder?_mirrors.bind fun found => ?_
  cases found with
  | some order => exact .pure
  | none =>
    refine either_mirrors nextIsKind_mirrors (orderChoice?_mirrors.bind fun choice => ?_) .pure
    cases choice with
    | some choice => exact .pure
    | none => exact fail_mirrors

theorem struct_mirrors : Mirrors (struct room) (struct room) := by
  have items (order : OrderRule) :=
    manyInBraces_mirrors (takes_of_reads (structItem_reads room order) begins_item) structItem_mirrors
  refine structOrder_mirrors.bind fun order => keyword_mirrors.bind fun _ => name_mirrors.bind fun _ => ?_
  exact token_mirrors.bind fun _ => (items order).bind fun _ => token_mirrors.bind fun _ => .pure

theorem size?_mirrors : Mirrors (size? room) (size? room) :=
  either_mirrors nextIsKind_mirrors ((inParens_mirrors expr_mirrors).bind fun _ => .pure) .pure

theorem bitfieldMember_mirrors : Mirrors (bitfieldMember room) (bitfieldMember room) :=
  name_mirrors.bind fun _ => size?_mirrors.bind fun _ => token_mirrors.bind fun _ => .pure

theorem bitfield_mirrors : Mirrors (bitfield room) (bitfield room) := by
  have members :=
    manyInBraces_mirrors (takes_of_reads (bitfieldMember_reads room) begins_bitfieldLine) bitfieldMember_mirrors
  refine keyword_mirrors.bind fun _ => name_mirrors.bind fun _ => size?_mirrors.bind fun _ => ?_
  exact token_mirrors.bind fun _ => members.bind fun _ => token_mirrors.bind fun _ => .pure

/-! All declarations. -/

theorem declaration_mirrors : Mirrors (declaration room) (declaration room) :=
  either_mirrors nextIs_mirrors (bitfield_mirrors.bind fun _ => .pure)
    (either_mirrors nextIs_mirrors (struct_mirrors.bind fun _ => .pure) unexpected_mirrors)

theorem declarations_mirrors : Mirrors (declarations room) (declarations room) := by
  apply many_mirrors (advances_unless untilEnd_eq rfl (takes_of_reads (declaration_reads room) begins_declared))
  exact either_mirrors isAtEnd_mirrors .pure (declaration_mirrors.bind fun _ => .pure)

end RecordLayout.Parser
