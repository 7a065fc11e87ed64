import RecordLayout.Proofs.Pairing.Declaration
import RecordLayout.Proofs.Span.Tracks

/-! What the parsers of descriptions do with places, one after another. Most of it follows from how they are built.
Three of them speak of what has been read before: of a type that needs a delimiter, of the value of a case, and of
the braces of a group. -/

namespace RecordLayout.Parser

open Grammar Located

variable {place : Position → Position} {seen : List Token} {room : Nat}

/-! Expressions. -/

theorem additive?_move (token : Token) : additive? (move place token) = move place (additive? token) := by
  change additive? token = (additive? token).map id
  simp

theorem multiplicative?_move (token : Token) :
    multiplicative? (move place token) = move place (multiplicative? token) := by
  change multiplicative? token = (multiplicative? token).map id
  simp

theorem relation?_move (token : Token) : relation? (move place token) = move place (relation? token) := by
  change relation? token = (relation? token).map id
  simp

theorem path_tracks : Tracks place seen path path := by
  refine token_tracks.bind fun first => Tracks.bind (many_tracks ?_) fun others => .pure_of_eq ?_
  · refine eat_tracks.bind fun found => ?_
    cases found with
    | true => exact (expect_tracks ofKind?_move).bind fun _ => .pure
    | false => exact .pure
  · have last : (others.map (move place)).getLastD (move place first) = move place (others.getLastD first) := by
      rw [List.getLastD_eq_getLast?, List.getLast?_map, List.getLastD_eq_getLast?]
      cases others.getLast? <;> rfl
    have contents : (others.map (move place)).map Token.content = others.map Token.content := by
      rw [List.map_map]
      rfl
    change Path.mk (first.content :: (others.map (move place)).map Token.content) _ = _
    rw [contents]
    change Path.mk _ (Span.through _ ((others.map (move place)).getLastD (move place first)).span) = _
    rw [last]
    rfl

theorem integer_tracks : Tracks place seen integer integer := by
  refine token_seen fun token literal => ?_
  have content : (move place token).content = token.content := rfl
  rw [content]
  cases read : Decimal.int64? token.content.toList with
  | some value => exact .pure
  | none => exact failAt_tracks (spanned_token (by simp)) rfl (.integer (by simp) literal read)

theorem float_tracks : Tracks place seen float float := by
  refine token_seen fun token literal => ?_
  have content : (move place token).content = token.content := rfl
  rw [content]
  cases read : Decimal.float? token.content.toList with
  | some value => exact .pure
  | none => exact failAt_tracks (spanned_token (by simp)) rfl (.float (by simp) literal read)

section

variable {first second : Parser Expr}

theorem move_foldl_binary (others : List (Operator × Expr)) (left : Expr) :
    (move place others).foldl (fun left (op, right) => .binary left op right) (move place left) =
      move place (others.foldl (fun left (op, right) => .binary left op right) left) := by
  induction others generalizing left with
  | nil => rfl
  | cons next others ih => exact ih (.binary left next.1 next.2)

theorem chain_tracks {operator? : Token → Option Operator}
    (operators : ∀ token, operator? (move place token) = move place (operator? token))
    (tracks : Tracks place seen first second) :
    Tracks place seen (chain operator? first) (chain operator? second) := by
  refine tracks.bind fun left => Tracks.bind (many_tracks ?_) fun others => ?_
  · refine (accept?_tracks operators).bind fun found => ?_
    cases found with
    | some op => exact tracks.bind fun _ => .pure
    | none => exact .pure
  · exact .pure_of_eq (move_foldl_binary others left)

theorem sum_tracks (tracks : Tracks place seen first second) : Tracks place seen (sum first) (sum second) :=
  chain_tracks additive?_move (chain_tracks multiplicative?_move tracks)

theorem signed_tracks (tracks : Tracks place seen first second) :
    Tracks place seen (signed first) (signed second) := by
  refine (expect_tracks fun token => ?_).bind fun sign => tracks.bind fun operand => .pure_of_eq ?_
  · rw [additive?_move]
    cases additive? token <;> rfl
  · change Expr.unary sign.1 (operand.move place) ((move place sign.2).through (operand.move place).span) = _
    rw [Expr.span_move]
    rfl

theorem factorWith_tracks {signed signed' grouped grouped' : Parser Expr} (signs : Tracks place seen signed signed')
    (groups : Tracks place seen grouped grouped') :
    Tracks place seen (factorWith signed grouped) (factorWith signed' grouped') := by
  refine peek?_tracks.bind fun next => ?_
  cases next with
  | none => exact unexpected_tracks
  | some next =>
    obtain ⟨kind, text, span⟩ := next
    cases kind
    case integer => exact integer_tracks.bind fun _ => .pure
    case float => exact float_tracks.bind fun _ => .pure
    case leftParen => exact groups
    case identifier => exact path_tracks.bind fun _ => .pure
    all_goals first | exact signs | exact unexpected_tracks

theorem factor_tracks : Tracks place seen (factor room) (factor room) := by
  induction room with
  | zero => exact factorWith_tracks (fail_tracks rfl) (fail_tracks rfl)
  | succ room ih => exact factorWith_tracks (signed_tracks ih) (inParens_tracks (sum_tracks ih))

theorem expr_tracks : Tracks place seen (expr room) (expr room) :=
  sum_tracks factor_tracks

end

/-! Conditions. -/

section

variable {first second : Parser Condition}

theorem comparison_tracks {operand other : Parser Expr} (tracks : Tracks place seen operand other) :
    Tracks place seen (comparison operand) (comparison other) :=
  tracks.bind fun _ => (expect_tracks relation?_move).bind fun _ => tracks.bind fun _ => .pure

/-- The failure of the comparison is kept where there is no parenthesis. -/
theorem relationOrGroup_tracks {operand other : Parser Expr} (operands : Tracks place seen operand other)
    (inside : Tracks place seen first second) :
    Tracks place seen (relationOrGroup operand first) (relationOrGroup other second) := by
  have compares := comparison_tracks operands
  have groups := inParens_tracks inside
  have head (tokens : List Token) : (move place tokens).head?.any (·.kind == .leftParen) =
      tokens.head?.any (·.kind == .leftParen) := by
    cases tokens <;> rfl
  refine ⟨fun tokens => ?_, fun {tokens value rest} read => ?_, fun {tokens failure} failed => ?_⟩
  · have moved := compares.moves tokens
    cases result : comparison operand tokens with
    | ok found =>
      rw [result] at moved
      rw [relationOrGroup_of_ok result, relationOrGroup_of_ok moved]
      rfl
    | error failure =>
      rw [result] at moved
      rw [relationOrGroup_of_error result, relationOrGroup_of_error moved, head]
      split
      · exact groups.moves tokens
      · rfl
  · cases result : comparison operand tokens with
    | ok found =>
      rw [relationOrGroup_of_ok result] at read
      cases read
      exact compares.leaves result
    | error failure =>
      rw [relationOrGroup_of_error result] at read
      split at read
      · exact groups.leaves read
      · cases read
  · cases result : comparison operand tokens with
    | ok found =>
      rw [relationOrGroup_of_ok result] at failed
      cases failed
    | error failure =>
      rw [relationOrGroup_of_error result] at failed
      split at failed
      · exact groups.blames failed
      · cases failed
        exact compares.blames result

theorem move_foldl_junction (op : Connective) (others : List Condition) (left : Condition) :
    (move place others).foldl (fun left right => .junction left op right) (move place left) =
      move place (others.foldl (fun left right => .junction left op right) left) := by
  induction others generalizing left with
  | nil => rfl
  | cons next others ih => exact ih (.junction left op next)

theorem junction_tracks {op : Connective} {kind : Token.Kind} (tracks : Tracks place seen first second) :
    Tracks place seen (junction op kind first) (junction op kind second) := by
  refine tracks.bind fun left => Tracks.bind (many_tracks ?_) fun others => ?_
  · refine eat_tracks.bind fun found => ?_
    cases found with
    | true => exact tracks.bind fun _ => .pure
    | false => exact .pure
  · exact .pure_of_eq (move_foldl_junction op others left)

theorem condition_tracks : Tracks place seen (condition room) (condition room) := by
  induction room with
  | zero => exact fail_tracks rfl
  | succ room ih => exact junction_tracks (junction_tracks (relationOrGroup_tracks expr_tracks ih))

end

/-! Choices. -/

theorem byteOrder?_tracks : Tracks place seen byteOrder? byteOrder? :=
  accept?_tracks fun token => by
    change (if token.kind = .keyword then ByteOrder.ofKeyword? token.content else none) = Option.map id _
    simp

theorem choiceHead_tracks : Tracks place seen (choiceHead room) (choiceHead room) :=
  token_tracks.bind fun _ => condition_tracks.bind fun _ => token_tracks.bind fun _ => .pure

/-- What is absent leaves the tokens as they were. -/
def unread (start : List Token) : Except Failure (Option α × List Token) → Except Failure (Option α × List Token)
  | .error failure => .error failure
  | .ok (none, _) => .ok (none, start)
  | .ok (some value, rest) => .ok (some value, rest)

def orNothing (attempt : Parser (Option α)) : Parser (Option α) :=
  fun tokens => unread tokens (attempt tokens)

theorem orNothing_tracks [Located α] {attempt other : Parser (Option α)} (tracks : Tracks place seen attempt other) :
    Tracks place seen (orNothing attempt) (orNothing other) := by
  refine ⟨fun tokens => ?_, fun {tokens value rest} read => ?_, fun {tokens failure} failed => ?_⟩
  · rw [orNothing, orNothing, tracks.moves]
    rcases attempt tokens with failure | ⟨_ | value, rest⟩ <;> rfl
  · unfold orNothing at read
    rcases result : attempt tokens with failure | ⟨_ | found, others⟩ <;> rw [result] at read <;> cases read
    · exact ⟨[], rfl⟩
    · exact tracks.leaves result
  · unfold orNothing at failed
    rcases result : attempt tokens with reason | ⟨_ | found, others⟩ <;> rw [result] at failed <;> cases failed
    exact tracks.blames result

/-- A choice of byte orders, up to where one is absent. -/
def orderAttempt (head : Token × Condition) : Parser (Option (Choice ByteOrder)) := do
  match ← byteOrder? with
  | none => return none
  | some ifTrue =>
    let _ ← token .colon
    match ← byteOrder? with
    | none => return none
    | some ifFalse =>
      let closing ← token .rightParen
      return some ⟨head.2, ifTrue, ifFalse, head.1.span.through closing.span⟩

theorem orderAttempt_tracks (head : Token × Condition) :
    Tracks place seen (orderAttempt head) (orderAttempt (move place head)) := by
  refine byteOrder?_tracks.bind fun first => ?_
  cases first with
  | none => exact .pure
  | some ifTrue =>
    refine token_tracks.bind fun _ => byteOrder?_tracks.bind fun second => ?_
    cases second with
    | none => exact .pure
    | some ifFalse => exact token_tracks.bind fun _ => .pure

theorem orderArms_eq (start : List Token) (head : Token × Condition) (tokens : List Token) :
    orderArms start head tokens = unread start (orderAttempt head tokens) := by
  cases first : byteOrder? tokens with
  | error failure => rw [orderArms, bind_of_error first, orderAttempt, bind_of_error first, unread]
  | ok found =>
    rw [orderArms, bind_of_ok first, orderAttempt, bind_of_ok first]
    rcases found with ⟨_ | ifTrue, rest⟩
    · rfl
    · dsimp only
      cases colon : token .colon rest with
      | error failure => rw [bind_of_error colon, bind_of_error colon, unread]
      | ok found =>
        rw [bind_of_ok colon, bind_of_ok colon]
        cases second : byteOrder? found.2 with
        | error failure => rw [bind_of_error second, bind_of_error second, unread]
        | ok found =>
          rw [bind_of_ok second, bind_of_ok second]
          rcases found with ⟨_ | ifFalse, rest⟩
          · rfl
          · dsimp only
            cases closing : token .rightParen rest with
            | error failure => rw [bind_of_error closing, unread]
            | ok found =>
              rw [bind_of_ok closing]
              rfl

theorem orderChoice?_eq (tokens : List Token) :
    orderChoice? room tokens = nested room (fun room => orNothing (choiceHead room >>= orderAttempt)) tokens := by
  cases room with
  | zero => rfl
  | succ room =>
    rw [orderChoice?_succ, nested, orNothing]
    cases head : choiceHead room tokens with
    | error failure => rw [bind_of_error head, bind_of_error head, unread]
    | ok found =>
      rw [bind_of_ok head, bind_of_ok head]
      exact orderArms_eq tokens found.1 found.2

theorem orderChoice?_tracks : Tracks place seen (orderChoice? room) (orderChoice? room) := by
  rw [funext (@orderChoice?_eq room)]
  exact nested_tracks fun room => orNothing_tracks (choiceHead_tracks.bind orderAttempt_tracks)

/-! Types. -/

theorem hexEscape_tracks : Tracks place seen hexEscape hexEscape := by
  refine token_seen fun backslash _ => token_seen fun digits word => ?_
  have around : Spanned (seen ++ [backslash] ++ [digits]) (backslash.span.through digits.span) :=
    (spanned_token (by simp)).through (spanned_token List.mem_cons_self)
  have content : (move place digits).content = digits.content := rfl
  rw [content]
  cases read : hexEscape? digits.content.toList with
  | some value => exact .pure
  | none => exact failAt_tracks around rfl (.hexEscape (by simp) word read)

theorem delimiter_tracks : Tracks place seen delimiter delimiter := by
  refine inParens_tracks (peek?_tracks.bind fun next => ?_)
  cases next with
  | none => exact unexpected_tracks
  | some next =>
    obtain ⟨kind, text, span⟩ := next
    cases kind
    case string => exact skip_tracks.bind fun _ => .pure
    case char => exact skip_tracks.bind fun _ => .pure
    case integer => exact integer_tracks.bind fun _ => .pure
    case backslash => exact hexEscape_tracks
    case identifier => exact path_tracks.bind fun _ => .pure
    all_goals exact unexpected_tracks

theorem dataType_tracks : Tracks place seen dataType dataType := by
  refine token_seen fun token word => ?_
  have content : (move place token).content = token.content := rfl
  rw [content]
  cases known : Primitive.ofName? token.content with
  | none => exact failAt_tracks (spanned_token (by simp)) rfl (.dataType (by simp) word known)
  | some primitive =>
    refine (nextIs_tracks fun _ => rfl).bind fun follows => ?_
    cases primitive.takesDelimiter && follows with
    | true => exact delimiter_tracks.bind fun _ => .pure
    | false => exact .pure

theorem withDefaultDelimiter_tracks {type : DataType} (there : Spanned seen type.span) :
    Tracks place seen (withDefaultDelimiter type) (withDefaultDelimiter (move place type)) := by
  obtain ⟨primitive, delimiter, span⟩ := type
  cases primitive
  case string => cases delimiter <;> exact .pure
  case bytes =>
    cases delimiter with
    | none => exact failAt_tracks there rfl (.structural rfl)
    | some delimiter => exact .pure
  all_goals exact .pure

theorem typeRef_tracks : Tracks place seen typeRef typeRef := by
  refine eitherKind_tracks ?_ (eitherKind_tracks (path_tracks.bind fun _ => .pure) unexpected_tracks)
  refine dataType_tracks.bind_seen _ dataType_reads.sound fun front type there => ?_
  have inside : Enclose [] front (spans type) := places_primary _ _ there
  have known : Spanned (seen ++ front) type.span := (inside.spanned List.mem_cons_self).mono (List.sublist_append_right ..)
  exact (withDefaultDelimiter_tracks known).bind fun _ => .pure

theorem typeChoice_tracks : Tracks place seen (typeChoice room) (typeChoice room) :=
  nested_tracks fun _ => choiceHead_tracks.bind fun _ => typeRef_tracks.bind fun _ => token_tracks.bind fun _ =>
    typeRef_tracks.bind fun _ => token_tracks.bind fun _ => .pure

theorem memberType_tracks : Tracks place seen (memberType room) (memberType room) :=
  eitherKind_tracks (typeChoice_tracks.bind fun _ => .pure) <|
    eitherKind_tracks (dataType_tracks.bind fun _ => .pure) <|
      eitherKind_tracks (path_tracks.bind fun _ => .pure) unexpected_tracks

/-! Members. -/

theorem orderAndType_tracks : Tracks place seen (orderAndType room) (orderAndType room) := by
  refine byteOrder?_tracks.bind fun word => ?_
  cases word with
  | some order => exact memberType_tracks.bind fun _ => .pure
  | none =>
    refine eitherKind_tracks (orderChoice?_tracks.bind fun choice => ?_) (memberType_tracks.bind fun _ => .pure)
    cases choice with
    | some choice => exact memberType_tracks.bind fun _ => .pure
    | none => exact typeChoice_tracks.bind fun _ => .pure

theorem repetition_tracks : Tracks place seen (repetition room) (repetition room) := by
  refine eat_tracks.bind fun closed => ?_
  cases closed with
  | true => exact .pure
  | false =>
    exact tryCatch_tracks (expr_tracks.bind fun _ => token_tracks.bind fun _ => .pure)
      (condition_tracks.bind fun _ => token_tracks.bind fun _ => .pure)

theorem repeated?_tracks : Tracks place seen (repeated? room) (repeated? room) := by
  refine eat_tracks.bind fun opened => ?_
  cases opened with
  | true => exact repetition_tracks.map fun _ => rfl
  | false => exact .pure

theorem places_undelimited (depth : Nat) : Phrase.Places [] (Undelimited depth) := by
  intro tokens type there
  cases there with
  | data primary => exact places_primary _ _ primary
  | named dotted => exact places_dotted _ _ dotted
  | chosen choosing => exact places_chosen places_arm depth _ _ choosing

theorem withLateDelimiter_tracks {type : MemberType} (there : Enclose [] seen (spans type)) :
    Tracks place seen (withLateDelimiter type) (withLateDelimiter (move place type)) := by
  rcases type with ⟨type | path⟩ | choice
  · refine (nextIs_tracks fun _ => rfl).bind fun follows => ?_
    have known : Spanned seen type.span := there.spanned List.mem_cons_self
    change Tracks place seen (if (type.primitive.takesDelimiter && follows) = true then _ else _)
      (if (type.primitive.takesDelimiter && follows) = true then _ else _)
    split
    · change Tracks place seen (if type.delimiter.isSome = true then _ else _)
        (if (type.delimiter.map _).isSome = true then _ else _)
      rw [Option.isSome_map]
      split
      · exact fail_tracks rfl
      · exact delimiter_tracks.bind fun _ => .pure
    · exact (withDefaultDelimiter_tracks known).bind fun _ => .pure
  · exact .pure
  · exact .pure

theorem memberInfo_tracks {inherited : OrderRule} :
    Tracks place seen (memberInfo room inherited) (memberInfo room (move place inherited)) := by
  rw [memberInfo_eq, memberInfo_eq]
  have sound {tokens : List Token} {found : Option OrderRule × MemberType} {rest : List Token}
      (read : orderAndType room tokens = .ok (found, rest)) :
      ∃ front, tokens = front ++ rest ∧ Enclose [] front (spans found.2) := by
    obtain ⟨order, type⟩ := found
    obtain ⟨front, after, rfl, _, typed⟩ := orderAndType_sound read
    obtain ⟨back, rfl, there⟩ := (memberType_reads room).sound typed
    exact ⟨front ++ back, by simp, (places_undelimited room _ _ there).right⟩
  refine orderAndType_tracks.bind_seen _ sound fun front found there => ?_
  refine repeated?_tracks.bind fun repetition => ?_
  refine (withLateDelimiter_tracks there.right).bind fun type => .pure_of_eq ?_
  obtain ⟨_ | order, _⟩ := found <;> rfl

theorem member_tracks {inherited : OrderRule} :
    Tracks place seen (member room inherited) (member room (move place inherited)) :=
  memberInfo_tracks.bind fun _ => name_tracks.bind fun _ => token_tracks.bind fun _ => .pure

/-- A group without members is reported from brace to brace. -/
theorem memberGroup_tracks {inherited : OrderRule} :
    Tracks place seen (memberGroup room inherited) (memberGroup room (move place inherited)) := by
  refine token_seen fun opening _ => (manyInBraces_tracks member_tracks).bind fun members =>
    token_seen fun closing _ => ?_
  have around : Spanned (seen ++ [opening] ++ [closing]) (opening.span.through closing.span) :=
    (spanned_token (by simp)).through (spanned_token List.mem_cons_self)
  change Tracks place _ (if members.isEmpty = true then _ else _) (if (members.map _).isEmpty = true then _ else _)
  rw [List.isEmpty_map]
  split
  · exact failAt_tracks around rfl (.structural rfl)
  · exact .pure

/-! Selections. -/

theorem caseValue_tracks : Tracks place seen (caseValue room) (caseValue room) :=
  expr_tracks.bind fun _ => token_tracks.bind fun _ => .pure

/-- What follows the value of a case may speak of the value. -/
theorem caseValue_seen {α : Type} [Located α] {next other : Expr → Parser α}
    (continued : ∀ {seen value}, Spanned seen value.span → Tracks place seen (next value) (other (move place value))) :
    Tracks place seen (caseValue room >>= next) (caseValue room >>= other) := by
  refine caseValue_tracks.bind_seen _ (caseValue_reads room).sound fun front value there => continued ?_
  cases there with
  | mk chosen _ =>
    have inside : Enclose [] _ (spans value) := places_arithmetic room _ _ chosen
    exact ((inside.spanned value.span_mem_spans).mono (List.sublist_append_left ..)).mono (List.sublist_append_right ..)

theorem caseBody_tracks {α : Type} [Located α] {first second : Parser α} (tracks : Tracks place seen first second) :
    Tracks place seen (caseBody first) (caseBody second) :=
  tracks.bind fun _ => token_tracks.bind fun _ => .pure

theorem failAt_value {α : Type} [Located α] {value : Expr} (there : Spanned seen value.span) :
    Tracks place seen (failAt value.span .mixedCases : Parser α) (failAt (move place value).span .mixedCases) := by
  have moved : (move place value).span = move place value.span := value.span_move place
  rw [moved]
  exact failAt_tracks there rfl (.structural rfl)

theorem singleCase_tracks {inherited : OrderRule} :
    Tracks place seen (singleCase room inherited) (singleCase room (move place inherited)) :=
  caseValue_seen fun there => eitherKind_tracks (failAt_value there)
    ((caseBody_tracks memberInfo_tracks).bind fun _ => .pure)

theorem groupCase_tracks {inherited : OrderRule} :
    Tracks place seen (groupCase room inherited) (groupCase room (move place inherited)) :=
  caseValue_seen fun there => eitherKind_tracks ((caseBody_tracks memberGroup_tracks).bind fun _ => .pure)
    (failAt_value there)

theorem selected_tracks {inherited : OrderRule} :
    Tracks place seen (selected room inherited) (selected room (move place inherited)) := by
  refine token_tracks.bind fun _ => eitherKind_tracks (fail_tracks rfl) (isAtEnd_tracks.bind fun ended => ?_)
  cases ended with
  | true => exact unexpected_tracks
  | false =>
    refine caseValue_tracks.bind fun value => eitherKind_tracks ?_ ?_
    · refine (caseBody_tracks memberGroup_tracks).bind fun body => ?_
      refine (manyInBraces_tracks groupCase_tracks).bind fun others => token_tracks.bind fun _ => ?_
      exact eitherKind_tracks (fail_tracks rfl) .pure
    · refine (caseBody_tracks memberInfo_tracks).bind fun body => ?_
      refine (manyInBraces_tracks singleCase_tracks).bind fun others => token_tracks.bind fun _ => ?_
      exact name_tracks.bind fun _ => .pure

theorem selection_tracks {inherited : OrderRule} :
    Tracks place seen (selection room inherited) (selection room (move place inherited)) :=
  keyword_tracks.bind fun _ => (inParens_tracks expr_tracks).bind fun _ => selected_tracks.bind fun _ =>
    token_tracks.bind fun _ => .pure

theorem structItem_tracks {inherited : OrderRule} :
    Tracks place seen (structItem room inherited) (structItem room (move place inherited)) :=
  either_tracks (fun _ => rfl) (selection_tracks.bind fun _ => .pure) (member_tracks.bind fun _ => .pure)

/-! Declarations. -/

theorem structOrder_tracks : Tracks place seen (structOrder room) (structOrder room) := by
  refine byteOrder?_tracks.bind fun word => ?_
  cases word with
  | some order => exact .pure
  | none =>
    refine eitherKind_tracks (orderChoice?_tracks.bind fun choice => ?_) .pure
    cases choice with
    | some choice => exact .pure
    | none => exact fail_tracks rfl

theorem struct_tracks : Tracks place seen (struct room) (struct room) :=
  structOrder_tracks.bind fun _ => keyword_tracks.bind fun _ => name_tracks.bind fun _ => token_tracks.bind fun _ =>
    (manyInBraces_tracks structItem_tracks).bind fun _ => token_tracks.bind fun _ => .pure

theorem size?_tracks : Tracks place seen (size? room) (size? room) :=
  eitherKind_tracks ((inParens_tracks expr_tracks).bind fun _ => .pure) .pure

theorem bitfieldMember_tracks : Tracks place seen (bitfieldMember room) (bitfieldMember room) := by
  refine name_tracks.bind fun name => size?_tracks.bind fun size => token_tracks.bind fun _ => .pure_of_eq ?_
  cases size <;> rfl

theorem bitfield_tracks : Tracks place seen (bitfield room) (bitfield room) :=
  keyword_tracks.bind fun _ => name_tracks.bind fun _ => size?_tracks.bind fun _ => token_tracks.bind fun _ =>
    (manyInBraces_tracks bitfieldMember_tracks).bind fun _ => token_tracks.bind fun _ => .pure

theorem declaration_tracks : Tracks place seen (declaration room) (declaration room) :=
  either_tracks (fun _ => rfl) (bitfield_tracks.bind fun _ => .pure) <|
    either_tracks (fun _ => rfl) (struct_tracks.bind fun _ => .pure) unexpected_tracks

theorem declarations_tracks : Tracks place seen (declarations room) (declarations room) := by
  refine many_tracks (isAtEnd_tracks.bind fun ended => ?_)
  cases ended with
  | true => exact .pure
  | false => exact declaration_tracks.bind fun _ => .pure

end RecordLayout.Parser
