import RecordLayout.Proofs.Cursor.Comments
import RecordLayout.Proofs.Reader.Parsers

/-! What every rule of the grammar keeps. Whichever is called, from whatever place that is not before a comment, it
returns: at such a place again, not behind the first end of input, as deep as before, and with a token taken if it has
read something. It returns what its parser finds ahead, and reading from the start returns the declarations. -/

namespace RecordLayout

/-- The rules by which tokens are read, each with what is read by it. -/
inductive Rule : Type → Type where
  | declarations : Rule (List Declaration)
  | declaration : Rule Declaration
  | struct : Rule StructDef
  | structOrder : Rule OrderRule
  | byteOrder? : Rule (Option ByteOrder)
  | bitfield : Rule BitfieldDef
  | bitfieldMember : Rule BitfieldMember
  | member (inherited : OrderRule) : Rule Member
  | memberInfo (inherited : OrderRule) : Rule MemberInfo
  | memberType : Rule MemberType
  | typeRef : Rule TypeRef
  | dataType : Rule DataType
  | delimiter : Rule Delimiter
  | hexEscape : Rule Delimiter
  | repetition : Rule Repetition
  | orderChoice? : Rule (Option (Choice ByteOrder))
  | typeChoice : Rule (Choice TypeRef)
  | selection (inherited : OrderRule) : Rule Selection
  | memberGroup (inherited : OrderRule) : Rule (List Member)
  | condition : Rule Condition
  | conjunction : Rule Condition
  | relation : Rule Condition
  | comparison : Rule Condition
  | expr : Rule Expr
  | term : Rule Expr
  | factor : Rule Expr
  | path : Rule Path
  | name (wanted : Expectation) : Rule Name
  | token (kind : Token.Kind) : Rule Token
  | keyword (word : String) : Rule Token

namespace Rule

def routine : Rule α → Routine α
  | declarations => Routine.declarations
  | declaration => Routine.declaration
  | struct => Routine.struct
  | structOrder => Routine.structOrder
  | byteOrder? => Routine.byteOrder?
  | bitfield => Routine.bitfield
  | bitfieldMember => Routine.bitfieldMember
  | member inherited => Routine.member inherited
  | memberInfo inherited => Routine.memberInfo inherited
  | memberType => Routine.memberType
  | typeRef => Routine.typeRef
  | dataType => Routine.dataType
  | delimiter => Routine.delimiter
  | hexEscape => Routine.hexEscape
  | repetition => Routine.repetition
  | orderChoice? => Routine.orderChoice?
  | typeChoice => Routine.typeChoice
  | selection inherited => Routine.selection inherited
  | memberGroup inherited => Routine.memberGroup inherited
  | condition => Routine.condition
  | conjunction => Routine.conjunction
  | relation => Routine.relation
  | comparison => Routine.comparison
  | expr => Routine.expr
  | term => Routine.term
  | factor => Routine.factor
  | path => Routine.path
  | name wanted => Routine.name wanted
  | token kind => Routine.token kind
  | keyword word => Routine.keyword word

def parser (room : Nat) : Rule α → ParserOn Cursor α
  | declarations => Parser.declarations room
  | declaration => Parser.declaration room
  | struct => Parser.struct room
  | structOrder => Parser.structOrder room
  | byteOrder? => Parser.byteOrder?
  | bitfield => Parser.bitfield room
  | bitfieldMember => Parser.bitfieldMember room
  | member inherited => Parser.member room inherited
  | memberInfo inherited => Parser.memberInfo room inherited
  | memberType => Parser.memberType room
  | typeRef => Parser.typeRef
  | dataType => Parser.dataType
  | delimiter => Parser.delimiter
  | hexEscape => Parser.hexEscape
  | repetition => Parser.repetition room
  | orderChoice? => Parser.orderChoice? room
  | typeChoice => Parser.typeChoice room
  | selection inherited => Parser.selection room inherited
  | memberGroup inherited => Parser.memberGroup room inherited
  | condition => Parser.condition room
  | conjunction => Parser.junction .and .and (Parser.relationOrGroup (Parser.expr room) (Parser.condition room))
  | relation => Parser.relationOrGroup (Parser.expr room) (Parser.condition room)
  | comparison => Parser.comparison (Parser.expr room)
  | expr => Parser.expr room
  | term => Parser.chain Parser.multiplicative? (Parser.factor room)
  | factor => Parser.factor room
  | path => Parser.path
  | name wanted => Parser.name wanted
  | token kind => Parser.token kind
  | keyword word => Parser.keyword word

/-- Whether a result stands for something that was read. There may be no declarations, and no byte order before a
struct. -/
def Takes : Rule α → α → Prop
  | declarations, _ => False
  | structOrder, _ => False
  | byteOrder?, found => found.isSome = true
  | orderChoice?, found => found.isSome = true
  | _, _ => True

open Routine in
theorem performs (rule : Rule α) (room : Nat) : Performs room rule.Takes rule.routine (rule.parser room) := by
  cases rule with
  | declarations => exact declarations_performs
  | declaration => exact declaration_performs
  | struct => exact struct_performs
  | structOrder => exact structOrder_performs
  | byteOrder? => exact byteOrder?_performs
  | bitfield => exact bitfield_performs
  | bitfieldMember => exact bitfieldMember_performs
  | member inherited => exact member_performs
  | memberInfo inherited => exact memberInfo_performs
  | memberType => exact memberType_performs
  | typeRef => exact typeRef_performs
  | dataType => exact dataType_performs
  | delimiter => exact delimiter_performs
  | hexEscape => exact hexEscape_performs
  | repetition => exact repetition_performs
  | orderChoice? => exact orderChoice?_performs
  | typeChoice => exact typeChoice_performs
  | selection inherited => exact selection_performs
  | memberGroup inherited => exact memberGroup_performs
  | condition => exact condition_performs
  | conjunction => exact conjunction_performs
  | relation => exact relation_performs
  | comparison => exact comparison_performs
  | expr => exact expr_performs
  | term => exact term_performs
  | factor => exact factor_performs
  | path => exact path_performs
  | name wanted => exact name_performs
  | token kind => exact token_performs
  | keyword word => exact keyword_performs

end Rule

/-- Where a choice is not one of byte orders, nothing has been read. -/
theorem Parser.eq_of_orderChoice?_none {σ : Type} [TokenSource σ] {room : Nat} {source rest : σ}
    (read : Parser.orderChoice? room source = .ok (none, rest)) : rest = source := by
  obtain ⟨start, _, kept, read⟩ := Parser.bind_eq_ok.mp read
  cases kept
  cases room with
  | zero => cases read
  | succ room =>
    rw [Parser.nested] at read
    obtain ⟨_, _, _, read⟩ := Parser.bind_eq_ok.mp read
    obtain ⟨ifTrue, _, _, read⟩ := Parser.bind_eq_ok.mp read
    cases ifTrue with
    | none =>
      cases read
      rfl
    | some _ =>
      obtain ⟨_, _, _, read⟩ := Parser.bind_eq_ok.mp read
      obtain ⟨ifFalse, _, _, read⟩ := Parser.bind_eq_ok.mp read
      cases ifFalse with
      | none =>
        cases read
        rfl
      | some _ =>
        obtain ⟨_, _, _, read⟩ := Parser.bind_eq_ok.mp read
        cases read

namespace Reader

variable {nesting : Nat} {tokens : List Token}

theorem meaningful_closed (tokens : List Token) : Token.meaningful (closed tokens) = Token.meaningful tokens := by
  have behind (position : Position) :
      Token.meaningful (tokens ++ [⟨.endOfInput, none, .empty position⟩]) = Token.meaningful tokens := by
    induction tokens with
    | nil => rfl
    | cons token rest ih =>
      rw [List.cons_append]
      by_cases ends : token.kind = .endOfInput
      · rw [Token.meaningful_end ends, Token.meaningful_end ends]
      by_cases comment : token.kind = .comment
      · rw [Token.meaningful_comment comment, Token.meaningful_comment comment, ih]
      · rw [Token.meaningful_cons comment ends, Token.meaningful_cons comment ends, ih]
  unfold closed
  split
  next nothing => rw [List.getLast?_eq_none_iff.mp nothing, Token.meaningful_end rfl]; rfl
  next last there =>
    split
    next => rfl
    next => exact behind _

theorem tokens_cursor_start : (start nesting tokens).cursor.tokens = Token.meaningful tokens := by
  change (Cursor.start ((closed tokens).drop (solidFrom (closed tokens) 0))).tokens = _
  rw [start_drop_solidFrom, List.drop_zero, Cursor.tokens_start, meaningful_closed]

/-- Reading from the start is reading all tokens. -/
theorem declarations_start (nesting : Nat) (tokens : List Token) :
    ∃ result after, Routine.declarations (start nesting tokens) = .some (result, after) ∧
      result.mapError (·.toError (Token.endSpan tokens)) = Declaration.ofTokens nesting tokens := by
  have gives := Routine.declarations_performs (start nesting tokens) (start_sound nesting tokens) rfl
  obtain ⟨result, after, returned, _, _, read⟩ := gives.exists_outcome
  refine ⟨result, after, returned, ?_⟩
  have same : Cursor.landed (Parser.declarations nesting (start nesting tokens).cursor) = _ :=
    Parser.declarations_mirrors _
  rw [tokens_cursor_start] at same
  change Parser.declarations nesting _ = _ at read
  rw [Declaration.ofTokens_eq, ← same, read]
  cases result <;> rfl

/-- A rule that is called at a sound place returns, whether it succeeds or fails, at a sound place that it may reach, as
deep as before and not past an end of input. What it has read took a token. A choice that is not one of byte orders
leaves everything as it was. The start is such a place, and reading from there ends with the declarations. -/
theorem returns_of_sound (nesting : Nat) (tokens : List Token) :
    (start nesting tokens).Sound ∧
    (∃ result after, Routine.declarations (start nesting tokens) = .some (result, after) ∧
      result.mapError (·.toError (Token.endSpan tokens)) = Declaration.ofTokens nesting tokens) ∧
    ∀ reader : Reader, reader.Sound →
      (∀ {α : Type} (rule : Rule α), ∃ result after, rule.routine reader = .some (result, after) ∧
        reader.Reaches after ∧
        (∀ value, result = .ok value → rule.Takes value → reader.place < after.place) ∧
        rule.parser (reader.limit - reader.depth) reader.cursor = result.map (·, after.cursor)) ∧
      ∀ after, Routine.orderChoice? reader = .some (.ok none, after) → after = reader := by
  refine ⟨start_sound nesting tokens, declarations_start nesting tokens, fun reader sound => ?_⟩
  have returns {α : Type} (rule : Rule α) :=
    (rule.performs (reader.limit - reader.depth) reader sound rfl).exists_outcome
  refine ⟨returns, fun after declined => ?_⟩
  obtain ⟨result, last, returned, reaches, _, read⟩ := returns .orderChoice?
  obtain ⟨rfl, rfl⟩ : result = .ok none ∧ last = after := by
    simpa [Rule.routine, declined, eq_comm] using returned
  exact reaches.eq_of_cursor sound (Parser.eq_of_orderChoice?_none read)

/-- A choice of types behind a comment. -/
def choiceTokens : List Token :=
  [Declaration.strewnToken 0 .comment "either", Declaration.strewnToken 1 .leftParen none,
   Declaration.strewnToken 2 .integer "1", Declaration.strewnToken 3 .less none,
   Declaration.strewnToken 4 .integer "2", Declaration.strewnToken 5 .question none,
   Declaration.strewnToken 6 .dataType "uint8", Declaration.strewnToken 7 .colon none,
   Declaration.strewnToken 8 .dataType "uint16", Declaration.strewnToken 9 .rightParen none]

/-- It is no choice of byte orders, and with room for one level its condition is too deep. -/
theorem returns_of_choiceTokens :
    let reader := start 2 choiceTokens
    reader.Sound ∧ reader.place = 1 ∧ Routine.orderChoice? reader = .some (.ok none, reader) ∧
      (∃ choice after, Routine.typeChoice reader = .some (.ok choice, after) ∧ 1 < after.place) ∧
      ∃ failure after, Routine.typeChoice (start 1 choiceTokens) = .some (.error failure, after) ∧ after.depth = 0 := by
  intro reader
  obtain ⟨sound, _, called⟩ := returns_of_sound 2 choiceTokens
  obtain ⟨returns, declines⟩ := called reader sound
  have shallow := (returns_of_sound 1 choiceTokens).2.2 _ (start_sound 1 choiceTokens)
  have declined : (Parser.orderChoice? 2 reader.cursor).map Prod.fst = .ok none := rfl
  have read : (Parser.typeChoice 2 reader.cursor).isOk = true := rfl
  have refused : (Parser.typeChoice 1 (start 1 choiceTokens).cursor).isOk = false := rfl
  refine ⟨sound, rfl, ?_, ?_, ?_⟩
  · obtain ⟨result, after, returned, _, _, same⟩ := returns .orderChoice?
    rw [show Parser.orderChoice? 2 reader.cursor = _ from same] at declined
    cases result with
    | error => cases declined
    | ok choice =>
      cases declined
      exact declines after returned ▸ returned
  · obtain ⟨result, after, returned, _, forward, same⟩ := returns .typeChoice
    rw [show Parser.typeChoice 2 reader.cursor = _ from same] at read
    cases result with
    | error => cases read
    | ok choice => exact ⟨choice, after, returned, forward choice rfl trivial⟩
  · obtain ⟨result, after, returned, reaches, _, same⟩ := shallow.1 .typeChoice
    rw [show Parser.typeChoice 1 (start 1 choiceTokens).cursor = _ from same] at refused
    cases result with
    | error failure => exact ⟨failure, after, returned, reaches.depth⟩
    | ok choice => cases refused

end Reader

end RecordLayout
