import RecordLayout.Proofs.Grammar.Expr
import RecordLayout.Proofs.Pairing.Runs

/-! Expressions side by side. The parsers of expressions try nothing twice, so that two runs of them depart
only where there is no room left for the first one or no token. -/

namespace RecordLayout

open Grammar RecordLayout.Parser

/-- The token ends a line or stands around lines. No such token is in all that stands before the name of a
member. -/
def Token.boundsLines (token : Token) : Bool :=
  token.kind == .comma || token.kind == .leftBrace || token.kind == .rightBrace

/-- What is said where there is no room. Where a parenthesis opened a comparison that has no room, what is
said may also come from the retry, which has looked for a condition in that parenthesis alone. -/
inductive Failure.OfDepth (known : Token → Prop) : Failure → Prop where
  | tooDeep {span} : OfDepth known (.fault span .nestingTooDeep)
  | retried {closing} (there : known closing) (closes : closing.kind = .rightParen) :
      OfDepth known (.fault (some closing.span) (.unexpected .comparison closing))

theorem Failure.OfDepth.mono {known other : Token → Prop} {failure : Failure} (ofDepth : failure.OfDepth known)
    (more : ∀ token, known token → other token) : failure.OfDepth other := by
  cases ofDepth with
  | tooDeep => exact .tooDeep
  | retried there closes => exact .retried (more _ there) closes

/-- What is said of tokens that end too early, where it is no wish for more of them. -/
inductive SyntaxFault.OfCut (known : Token → Prop) : SyntaxFault → Prop where
  | tooDeep : OfCut known .nestingTooDeep
  | retried {closing} (there : known closing) (closes : closing.kind = .rightParen) :
      OfCut known (.unexpected .comparison closing)
  /-- The delimiter of raw bytes has been cut off. -/
  | undelimited : OfCut known .bytesWithoutDelimiter
  /-- A byte order that would have been chosen has been cut off. -/
  | unordered : OfCut known .notByteOrders
  | untyped {word order} (there : known word) (keyword : word.kind = .keyword)
      (read : ByteOrder.ofKeyword? word.content = some order) : OfCut known (.unexpected .type word)
  /-- The brace of a group has been cut off. -/
  | mixed : OfCut known .mixedCases

theorem SyntaxFault.OfCut.mono {known other : Token → Prop} {cause : SyntaxFault} (ofCut : cause.OfCut known)
    (more : ∀ token, known token → other token) : cause.OfCut other := by
  cases ofCut with
  | tooDeep => exact .tooDeep
  | retried there closes => exact .retried (more _ there) closes
  | undelimited => exact .undelimited
  | unordered => exact .unordered
  | untyped there keyword read => exact .untyped (more _ there) keyword read
  | mixed => exact .mixed

namespace Pairing

/-- What the comparison of runs inside of lines takes. -/
structure Inline (pair : Pairing) : Prop where
  takes : ∀ token : Token, token.boundsLines = false → pair.takes token
  room_zero : ∀ {other}, pair.rooms 0 other → other = 0 ∨ ∀ span, pair.departs (.fault span .nestingTooDeep)
  room_succ : ∀ {room other}, pair.rooms (room + 1) other → ∃ inner, other = inner + 1 ∧ pair.rooms room inner
  deep : ∀ {failure other}, pair.departs other → failure.OfDepth pair.known → pair.departs failure
  cut : pair.short → ∀ span (cause : SyntaxFault), cause.OfCut pair.known → pair.departs (.fault span cause)

namespace Inline

variable {pair : Pairing}

theorem takes_kind (inline : pair.Inline) {kind : Token.Kind}
    (other : kind ≠ .comma ∧ kind ≠ .leftBrace ∧ kind ≠ .rightBrace) (token : Token) (same : token.kind = kind) :
    pair.takes token :=
  inline.takes token (by simp [Token.boundsLines, same, other])

theorem takes_additive? (inline : pair.Inline) (token : Token) (found : (additive? token).isSome = true) :
    pair.takes token := by
  apply inline.takes
  unfold additive? at found
  split at found <;> simp_all [Token.boundsLines]

theorem takes_multiplicative? (inline : pair.Inline) (token : Token)
    (found : (multiplicative? token).isSome = true) : pair.takes token := by
  apply inline.takes
  unfold multiplicative? at found
  split at found <;> simp_all [Token.boundsLines]

theorem takes_relation? (inline : pair.Inline) (token : Token) (found : (relation? token).isSome = true) :
    pair.takes token := by
  apply inline.takes
  unfold relation? at found
  split at found <;> simp_all [Token.boundsLines]

theorem tooDeep_follows (inline : pair.Inline) :
    pair.Follows (fail .nestingTooDeep : Parser α) (fail .nestingTooDeep) :=
  fail_follows fun short => inline.cut short _ _ .tooDeep

end Inline

variable {pair : Pairing}

/-! Paths and literals. -/

/-- Items behind tokens of a kind. -/
theorem manyAfter_follows {first second : Parser α} {phrase other : Phrase α} {blocks others : Token → Bool}
    (kind : Token.Kind) (taken : ∀ token : Token, token.kind = kind → pair.takes token)
    (reads : Reads first phrase blocks) (otherReads : Reads second other others) (follows : pair.Follows first second) :
    pair.Follows (many do if ← eat kind then return some (← first) else return none)
      (many do if ← eat kind then return some (← second) else return none) := by
  apply many_follows (advances_of_reads (after_reads reads) Phrase.begins_after.nonempty rfl)
    (advances_of_reads (after_reads otherReads) Phrase.begins_after.nonempty rfl)
  refine (eat_follows taken).bind fun found => ?_
  cases found with
  | true => exact follows.bind fun _ => .pure
  | false => exact .pure

theorem path_follows (inline : pair.Inline) : pair.Follows path path := by
  have identifier (token : Token) : token.kind = .identifier → pair.takes token := inline.takes_kind (by simp) token
  have segment : pair.Follows (expect .segment (ofKind? .identifier)) (expect .segment (ofKind? .identifier)) :=
    expect_follows fun token found => identifier token (isSome_ofKind?.mp found)
  have segments := manyAfter_follows .dot (inline.takes_kind (by simp)) segment_reads segment_reads segment
  exact (token_follows identifier).bind fun _ => segments.bind fun _ => .pure

theorem integer_follows (inline : pair.Inline) : pair.Follows integer integer := by
  apply token_bind (inline.takes_kind (by simp))
  intro token
  cases Decimal.int64? token.content.toList with
  | none => exact failAt_along
  | some value => exact Follows.pure.along

theorem float_follows (inline : pair.Inline) : pair.Follows float float := by
  apply token_bind (inline.takes_kind (by simp))
  intro token
  cases Decimal.float? token.content.toList with
  | none => exact failAt_along
  | some value => exact Follows.pure.along

/-! Factors. -/

section

variable {first second : Parser Expr} {phrase other : Phrase Expr} {blocks others : Token → Bool}

theorem signed_follows (inline : pair.Inline) (follows : pair.Follows first second) :
    pair.Follows (signed first) (signed second) := by
  refine (expect_follows fun token found => ?_).bind fun _ => follows.bind fun _ => .pure
  exact inline.takes_additive? token (by simpa using found)

theorem factorWith_follows (inline : pair.Inline) {signed signed' grouped grouped' : Parser Expr}
    (signs : pair.Follows signed signed') (groups : pair.Follows grouped grouped') :
    pair.Follows (factorWith signed grouped) (factorWith signed' grouped') := by
  apply peek?_follows _ unexpected_follows
  intro token front back together
  by_cases sign : (additive? token).isSome = true
  · simp only [sign, if_true]
    exact signs.along _ _ together
  · simp only [sign]
    cases token.kind
    case integer => exact ((integer_follows inline).bind fun _ => .pure).along _ _ together
    case float => exact ((float_follows inline).bind fun _ => .pure).along _ _ together
    case leftParen => exact groups.along _ _ together
    case identifier => exact ((path_follows inline).bind fun _ => .pure).along _ _ together
    all_goals exact unexpected_follows.along _ _ together

/-! Chains. -/

theorem chain_follows {operator? : Token → Option Operator} {among : Operator → Prop} (picks : Picks operator? among)
    (taken : ∀ token, (operator? token).isSome = true → pair.takes token)
    (reads : Reads first phrase blocks) (otherReads : Reads second other others)
    (follows : pair.Follows first second) :
    pair.Follows (chain operator? first) (chain operator? second) := by
  refine follows.bind fun _ => Follows.bind ?_ fun _ => .pure
  apply many_follows (advances_of_reads (operation_reads picks reads) Phrase.begins_operation.nonempty rfl)
    (advances_of_reads (operation_reads picks otherReads) Phrase.begins_operation.nonempty rfl)
  refine (accept?_follows taken).bind fun found => ?_
  cases found with
  | none => exact .pure
  | some op => exact follows.bind fun _ => .pure

theorem sum_follows (inline : pair.Inline) (reads : Reads first phrase (·.kind == .dot))
    (otherReads : Reads second other (·.kind == .dot)) (follows : pair.Follows first second) :
    pair.Follows (sum first) (sum second) := by
  have terms := chain_follows multiplicative?_eq_some inline.takes_multiplicative? reads otherReads follows
  exact chain_follows additive?_eq_some inline.takes_additive? (term_reads reads) (term_reads otherReads) terms

end

theorem parens_follows (inline : pair.Inline) {first second : Parser α} (inside : pair.Follows first second) :
    pair.Follows (inParens first) (inParens second) :=
  inParens_follows (inline.takes_kind (by simp)) (inline.takes_kind (by simp)) inside

theorem factor_follows (inline : pair.Inline) {room other : Nat} (rooms : pair.rooms room other) :
    pair.Follows (factor room) (factor other) := by
  induction room generalizing other with
  | zero =>
    rcases inline.room_zero rooms with rfl | departs
    · exact factorWith_follows inline inline.tooDeep_follows inline.tooDeep_follows
    · have tooDeep {second : Parser Expr} : pair.Follows (fail .nestingTooDeep) second := fail_departs departs
      cases other with
      | zero => exact factorWith_follows inline tooDeep tooDeep
      | succ other => exact factorWith_follows inline tooDeep tooDeep
  | succ room ih =>
    obtain ⟨inner, rfl, inside⟩ := inline.room_succ rooms
    have grouped := sum_follows inline (factor_reads room) (factor_reads inner) (ih inside)
    exact factorWith_follows inline (signed_follows inline (ih inside)) (parens_follows inline grouped)

theorem expr_follows (inline : pair.Inline) {room other : Nat} (rooms : pair.rooms room other) :
    pair.Follows (expr room) (expr other) :=
  sum_follows inline (factor_reads room) (factor_reads other) (factor_follows inline rooms)

end Pairing

end RecordLayout
