import RecordLayout.Grammar.Cursor
import RecordLayout.Proofs.Grammar.Loops

/-! Parsers that move a cursor, beside those that take tokens from a list. Wherever the cursor stands, the tokens that
carry meaning are what a parser finds ahead of it, in this order. One that goes back puts the cursor where it was, and
with it these tokens. So what is true of a parser on every list of tokens is true of it wherever the cursor stands. -/

namespace RecordLayout

namespace Token

/-- The tokens that carry meaning: those before the first end of input that are no comments. -/
def meaningful (tokens : List Token) : List Token :=
  (tokens.takeWhile (·.kind ≠ .endOfInput)).filter (·.kind ≠ .comment)

theorem meaningful_sublist (tokens : List Token) : (meaningful tokens).Sublist tokens :=
  List.filter_sublist.trans (List.takeWhile_sublist _)

variable {token : Token} {rest : List Token}

theorem meaningful_comment (comment : token.kind = .comment) : meaningful (token :: rest) = meaningful rest := by
  simp [meaningful, comment]

theorem meaningful_end (ends : token.kind = .endOfInput) : meaningful (token :: rest) = [] := by
  simp [meaningful, ends]

theorem meaningful_cons (solid : token.kind ≠ .comment) (inside : token.kind ≠ .endOfInput) :
    meaningful (token :: rest) = token :: meaningful rest := by
  simp [meaningful, solid, inside]

end Token

namespace Cursor

/-- The tokens that are ahead for a parser. -/
def tokens (cursor : Cursor) : List Token :=
  Token.meaningful cursor.ahead

theorem tokens_start (all : List Token) : (start all).tokens = Token.meaningful all := by
  change Token.meaningful (all.dropWhile (·.kind = .comment)) = Token.meaningful all
  induction all with
  | nil => rfl
  | cons token rest ih =>
    by_cases comment : token.kind = .comment
    · rw [List.dropWhile_cons_of_pos (by simpa using comment), ih, Token.meaningful_comment comment]
    · rw [List.dropWhile_cons_of_neg (by simpa using comment)]

theorem next?_eq (cursor : Cursor) : TokenSource.next? cursor = cursor.tokens.head? := by
  obtain ⟨ahead, solid⟩ := cursor
  change ahead.head?.filter _ = (Token.meaningful ahead).head?
  cases ahead with
  | nil => rfl
  | cons token rest =>
    by_cases ends : token.kind = .endOfInput
    · simp [Token.meaningful_end ends, ends]
    · simp [Token.meaningful_cons (solid token rfl) ends, ends]

theorem tokens_advance (cursor : Cursor) : (TokenSource.advance cursor).tokens = cursor.tokens.tail := by
  obtain ⟨ahead, solid⟩ := cursor
  cases ahead with
  | nil => rfl
  | cons token rest =>
    change (if token.kind = .endOfInput then Cursor.mk (token :: rest) solid else start rest).tokens =
      (Token.meaningful (token :: rest)).tail
    split
    next ends =>
      change Token.meaningful (token :: rest) = _
      rw [Token.meaningful_end ends, List.tail_nil]
    next inside => rw [tokens_start, Token.meaningful_cons (solid token rfl) inside, List.tail_cons]

theorem length_tokens_le (cursor : Cursor) : cursor.tokens.length ≤ (TokenSource.bound cursor).length :=
  (Token.meaningful_sublist _).length_le

/-- A result with the tokens that are left, in place of the cursor. -/
def landed (result : Except Failure (α × Cursor)) : Except Failure (α × List Token) :=
  result.map fun read => (read.1, read.2.tokens)

end Cursor

/-- Wherever the cursor stands, the first parser does what the second one does with the tokens ahead. -/
def Mirrors (first : ParserOn Cursor α) (second : Parser α) : Prop :=
  ∀ cursor : Cursor, Cursor.landed (first cursor) = second cursor.tokens

namespace Mirrors

open RecordLayout.Parser

variable {first : ParserOn Cursor α} {second : Parser α} {cursor : Cursor}

theorem of_ok {value : α} {rest : Cursor} (mirrors : Mirrors first second) (read : first cursor = .ok (value, rest)) :
    second cursor.tokens = .ok (value, rest.tokens) := by
  rw [← mirrors cursor, read]
  rfl

theorem of_error {failure : Failure} (mirrors : Mirrors first second) (failed : first cursor = .error failure) :
    second cursor.tokens = .error failure := by
  rw [← mirrors cursor, failed]
  rfl

theorem pure {value : α} : Mirrors (Pure.pure value) (Pure.pure value) :=
  fun _ => rfl

theorem throw {failure : Failure} :
    Mirrors (MonadExcept.throw failure : ParserOn Cursor α) (MonadExcept.throw failure) :=
  fun _ => rfl

theorem bind {next : α → ParserOn Cursor β} {other : α → Parser β} (mirrors : Mirrors first second)
    (continued : ∀ value, Mirrors (next value) (other value)) : Mirrors (first >>= next) (second >>= other) := by
  intro cursor
  cases result : first cursor with
  | error failure =>
    rw [bind_of_error result, bind_of_error (mirrors.of_error result)]
    rfl
  | ok read =>
    rw [bind_of_ok result, bind_of_ok (mirrors.of_ok result)]
    exact continued read.1 read.2

theorem map {f : α → β} (mirrors : Mirrors first second) : Mirrors (f <$> first) (f <$> second) := by
  rw [map_eq_pure_bind, map_eq_pure_bind]
  exact mirrors.bind fun _ => .pure

/-! Going back. -/

theorem tryCatch {handler : Failure → ParserOn Cursor α} {other : Failure → Parser α}
    (mirrors : Mirrors first second) (handled : ∀ failure, Mirrors (handler failure) (other failure)) :
    Mirrors (MonadExcept.tryCatch first handler) (MonadExcept.tryCatch second other) := by
  intro cursor
  cases result : first cursor with
  | error failure =>
    rw [tryCatch_of_error result, tryCatch_of_error (mirrors.of_error result)]
    exact handled failure cursor
  | ok read =>
    rw [tryCatch_of_ok result, tryCatch_of_ok (mirrors.of_ok result)]
    rfl

/-- A place that is kept for later. -/
theorem get_bind {next : Cursor → ParserOn Cursor α} {other : List Token → Parser α}
    (continued : ∀ start, Mirrors (next start) (other start.tokens)) : Mirrors (get >>= next) (get >>= other) :=
  fun cursor => continued cursor cursor

/-- Back to a place that was kept. -/
theorem set_bind {start : Cursor} {next : PUnit → ParserOn Cursor α} {other : PUnit → Parser α}
    (continued : Mirrors (next ⟨⟩) (other ⟨⟩)) : Mirrors (set start >>= next) (set start.tokens >>= other) :=
  fun _ => continued start

end Mirrors

namespace Parser

variable {first : ParserOn Cursor α} {second : Parser α}

/-! Single tokens. -/

/-- What looks only at the next token and reads nothing. -/
theorem looks_mirrors {look : Option Token → α} :
    Mirrors (fun cursor => .ok (look (TokenSource.next? cursor), cursor))
      (fun tokens => .ok (look (TokenSource.next? tokens), tokens)) := by
  intro cursor
  change Except.ok (look (TokenSource.next? cursor), cursor.tokens) = _
  rw [Cursor.next?_eq]
  rfl

theorem peek?_mirrors : Mirrors peek? peek? :=
  @looks_mirrors _ id

theorem nextIs_mirrors {test : Token → Bool} : Mirrors (nextIs test) (nextIs test) :=
  @looks_mirrors _ fun next => next.any test

theorem nextIsKind_mirrors {kind : Token.Kind} : Mirrors (nextIsKind kind) (nextIsKind kind) :=
  nextIs_mirrors

theorem isAtEnd_mirrors : Mirrors isAtEnd isAtEnd :=
  looks_mirrors

theorem skip_mirrors : Mirrors skip skip := by
  intro cursor
  change Except.ok ((), (TokenSource.advance cursor).tokens) = _
  rw [Cursor.tokens_advance]
  rfl

theorem accept?_mirrors {pick : Token → Option α} : Mirrors (accept? pick) (accept? pick) := by
  intro cursor
  rw [accept?, accept?, Cursor.next?_eq, TokenSource.next?_list]
  split
  next value _ => exact congrArg (fun rest => Except.ok (some value, rest)) cursor.tokens_advance
  next => rfl

theorem fail_mirrors {fault : SyntaxFault} : Mirrors (fail fault : ParserOn Cursor α) (fail fault) := by
  intro cursor
  rw [fail, fail, Cursor.next?_eq]
  rfl

theorem failAt_mirrors {span : Span} {fault : SyntaxFault} :
    Mirrors (failAt span fault : ParserOn Cursor α) (failAt span fault) :=
  fun _ => rfl

theorem unexpected_mirrors {wanted : Expectation} :
    Mirrors (unexpected wanted : ParserOn Cursor α) (unexpected wanted) := by
  intro cursor
  rw [unexpected, unexpected, Cursor.next?_eq, TokenSource.next?_list]
  split <;> rfl

theorem expect_mirrors {wanted : Expectation} {pick : Token → Option α} :
    Mirrors (expect wanted pick) (expect wanted pick) := by
  refine accept?_mirrors.bind fun found => ?_
  cases found with
  | some value => exact .pure
  | none => exact unexpected_mirrors

theorem token_mirrors {kind : Token.Kind} : Mirrors (token kind) (token kind) :=
  expect_mirrors

theorem keyword_mirrors {word : String} : Mirrors (keyword word) (keyword word) :=
  expect_mirrors

theorem name_mirrors {wanted : Expectation} : Mirrors (name wanted) (name wanted) :=
  expect_mirrors

theorem eat_mirrors {kind : Token.Kind} : Mirrors (eat kind) (eat kind) :=
  accept?_mirrors.bind fun _ => .pure

theorem either_mirrors {test : ParserOn Cursor Bool} {other : Parser Bool} {yes no : ParserOn Cursor α}
    {others otherwise : Parser α} (tests : Mirrors test other) (there : Mirrors yes others)
    (absent : Mirrors no otherwise) :
    Mirrors (do if ← test then yes else no) (do if ← other then others else otherwise) := by
  refine tests.bind fun found => ?_
  cases found with
  | true => exact there
  | false => exact absent

/-! Nesting and loops. -/

theorem nested_mirrors {room : Nat} {body : Nat → ParserOn Cursor α} {other : Nat → Parser α}
    (inside : ∀ room, Mirrors (body room) (other room)) : Mirrors (nested room body) (nested room other) := by
  cases room with
  | zero => exact fail_mirrors
  | succ room => exact inside room

theorem inParens_mirrors (inside : Mirrors first second) : Mirrors (inParens first) (inParens second) :=
  token_mirrors.bind fun _ => inside.bind fun _ => token_mirrors.bind fun _ => .pure

variable {item : ParserOn Cursor (Option α)} {other : Parser (Option α)}

private theorem manyFrom_mirrors (mirrors : Mirrors item other) (bound : List Token) (found : List α) :
    Mirrors (manyFrom item bound found) (manyFrom other bound found) := by
  induction bound generalizing found with
  | nil => exact fun _ => rfl
  | cons token bound ih =>
    intro cursor
    rw [manyFrom, manyFrom]
    cases result : item cursor with
    | error failure =>
      rw [mirrors.of_error result]
      rfl
    | ok read =>
      obtain ⟨value, rest⟩ := read
      rw [mirrors.of_ok result]
      cases value with
      | none => rfl
      | some value => exact ih (value :: found) rest

/-- The cursor counts comments in its bound. This makes no difference where every item takes a token. -/
theorem many_mirrors (advances : Advances other) (mirrors : Mirrors item other) :
    Mirrors (many item) (many other) := by
  intro cursor
  have same := manyFrom_bound advances cursor.length_tokens_le (Nat.le_refl _) []
  exact (manyFrom_mirrors mirrors _ [] cursor).trans same

theorem manyInBraces_mirrors (takes : Takes second) (mirrors : Mirrors first second) :
    Mirrors (manyInBraces first) (manyInBraces second) := by
  apply many_mirrors (advances_unless inBraces_eq rfl takes)
  refine isAtEnd_mirrors.bind fun ended => nextIsKind_mirrors.bind fun closed => ?_
  cases ended || closed with
  | true => exact .pure
  | false => exact mirrors.bind fun _ => .pure

end Parser

end RecordLayout
