import Mathlib
import RecordLayout.Compile
import RecordLayout.Proofs.Cursor.Parsers
import RecordLayout.Proofs.Outcome

/-! What is read does not depend on comments, nor on what is behind the first end of input. A run over a list of tokens
is a run on those that carry meaning, and where the tokens end is said with the first end of input. -/

namespace RecordLayout

namespace Token

variable {front more : List Token} {last : Token}

theorem meaningful_append (inside : ∀ token ∈ front, token.kind ≠ .endOfInput) (more : List Token) :
    meaningful (front ++ more) = front.filter (·.kind ≠ .comment) ++ meaningful more := by
  rw [meaningful, List.takeWhile_append_of_pos (by simpa using inside), List.filter_append]
  rfl

/-- Where tokens end that are followed by others, among which is the end. -/
theorem endSpan_append (inside : ∀ token ∈ front, token.kind ≠ .endOfInput) (some : more ≠ []) :
    endSpan (front ++ more) = endSpan more := by
  have absent : front.find? (·.kind = .endOfInput) = none := List.find?_eq_none.mpr (by simpa using inside)
  rw [endSpan, endSpan, List.find?_append, absent, Option.none_or, List.getLast?_append,
    List.getLast?_eq_some_getLast some, Option.some_or]

theorem endSpan_cons (ends : last.kind = .endOfInput) : endSpan (last :: more) = last.span := by
  simp [endSpan, ends]

theorem endSpan_append_end (inside : ∀ token ∈ front, token.kind ≠ .endOfInput) (ends : last.kind = .endOfInput) :
    endSpan (front ++ [last]) = last.span := by
  rw [endSpan_append inside (List.cons_ne_nil last []), endSpan_cons ends]

end Token

namespace Declaration

open Grammar

variable {nesting : Nat} {tokens front : List Token} {last : Token}

theorem meaningful_append_end (inside : ∀ token ∈ front, token.kind ≠ .endOfInput) (ends : last.kind = .endOfInput) :
    Token.meaningful (front ++ [last]) = front.filter (·.kind ≠ .comment) := by
  rw [Token.meaningful_append inside, Token.meaningful_end ends, List.append_nil]

/-- The cursor is not seen from outside: a run over all tokens finds what one over those carrying meaning does. -/
theorem ofTokens_eq (nesting : Nat) (tokens : List Token) : ofTokens nesting tokens =
    match Parser.declarations nesting (Token.meaningful tokens) with
    | .ok (declared, _) => .ok declared
    | .error failure => .error (failure.toError (Token.endSpan tokens)) := by
  have same := @Parser.declarations_mirrors nesting (Cursor.start tokens)
  rw [Cursor.tokens_start] at same
  rw [← same]
  unfold ofTokens StateT.run
  cases Parser.declarations nesting (Cursor.start tokens) <;> rfl

theorem ofTokens_of_error {failure : Failure}
    (failed : Parser.declarations nesting (Token.meaningful tokens) = .error failure) :
    ofTokens nesting tokens = .error (failure.toError (Token.endSpan tokens)) := by
  rw [ofTokens_eq, failed]

/-- Whatever the tokens: what is returned is what those carrying meaning make up. -/
theorem ofTokens_eq_ok {declared : List Declaration} :
    ofTokens nesting tokens = .ok declared ↔ Description nesting (Token.meaningful tokens) declared := by
  rw [ofTokens_eq]
  constructor
  · intro returned
    cases read : Parser.declarations nesting (Token.meaningful tokens) with
    | error failure => simp [read] at returned
    | ok result =>
      obtain ⟨found, rest⟩ := result
      simp only [read, Except.ok.injEq] at returned
      subst returned
      exact (Parser.declarations_eq_ok.mp read).2
  · intro there
    have read : Parser.declarations nesting (Token.meaningful tokens) = .ok (declared, []) :=
      Parser.declarations_eq_ok.mpr ⟨rfl, there⟩
    rw [read]

theorem ofTokens_append_end (inside : ∀ token ∈ front, token.kind ≠ .endOfInput) (ends : last.kind = .endOfInput)
    (behind : List Token) : ofTokens nesting (front ++ last :: behind) =
      match Parser.declarations nesting (front.filter (·.kind ≠ .comment)) with
      | .ok (declared, _) => .ok declared
      | .error failure => .error (failure.toError last.span) := by
  rw [ofTokens_eq, Token.meaningful_append inside, Token.meaningful_end ends, List.append_nil,
    Token.endSpan_append inside (List.cons_ne_nil last behind), Token.endSpan_cons ends]

/-- The tokens up to the first end of input without the comments among them make up the same declarations as all
tokens do, or are refused with the same error. -/
theorem ofTokens_uncommented (nesting : Nat) (behind : List Token) (inside : ∀ token ∈ front, token.kind ≠ .endOfInput)
    (ends : last.kind = .endOfInput) :
    ofTokens nesting (front ++ last :: behind) = ofTokens nesting ((front ++ [last]).filter (·.kind ≠ .comment)) := by
  have kept : (front ++ [last]).filter (·.kind ≠ .comment) = front.filter (·.kind ≠ .comment) ++ [last] := by
    simp [List.filter_append, ends]
  have insideKept : ∀ token ∈ front.filter (·.kind ≠ .comment), token.kind ≠ .endOfInput :=
    fun token member => inside token (List.mem_filter.mp member).1
  have again : (front.filter (·.kind ≠ .comment)).filter (·.kind ≠ .comment) = front.filter (·.kind ≠ .comment) := by
    simp
  rw [kept, ofTokens_append_end inside ends, ofTokens_append_end insideKept ends, again]

def strewnToken (place : Nat) (kind : Token.Kind) (text : Option String) : Token :=
  ⟨kind, text, .empty ⟨place, 0, place, ⟨"", ""⟩⟩⟩

/-- A struct with comments wherever something is read, most of them where something else is tried first. -/
def strewnTokens : List Token :=
  [strewnToken 0 .comment "choices", strewnToken 1 .keyword "struct", strewnToken 2 .comment "its name",
   strewnToken 3 .identifier "s", strewnToken 4 .leftBrace none,
   strewnToken 5 .comment "types, not byte orders", strewnToken 6 .leftParen none,
   strewnToken 7 .comment "test", strewnToken 8 .integer "1", strewnToken 9 .less none,
   strewnToken 10 .comment "limit", strewnToken 11 .integer "2", strewnToken 12 .question none,
   strewnToken 13 .comment "narrow", strewnToken 14 .dataType "uint8", strewnToken 15 .colon none,
   strewnToken 16 .dataType "uint16", strewnToken 17 .comment "wide", strewnToken 18 .rightParen none,
   strewnToken 19 .leftBracket none, strewnToken 20 .comment "no count", strewnToken 21 .leftParen none,
   strewnToken 22 .comment "no comparison", strewnToken 23 .leftParen none, strewnToken 24 .integer "3",
   strewnToken 25 .equal none, strewnToken 26 .comment "same", strewnToken 27 .integer "3",
   strewnToken 28 .rightParen none, strewnToken 29 .rightParen none, strewnToken 30 .rightBracket none,
   strewnToken 31 .identifier "x", strewnToken 32 .comment "end of line", strewnToken 33 .comma none,
   strewnToken 34 .rightBrace none, strewnToken 35 .comment "last"]

theorem ofTokens_strewnTokens :
    let last := strewnToken 36 .endOfInput none
    let behind := [strewnToken 37 .rightBrace none, strewnToken 38 .endOfInput none]
    (ofTokens 4 (strewnTokens ++ last :: behind)).isOk = true ∧
      ofTokens 4 (strewnTokens ++ last :: behind) =
        ofTokens 4 ((strewnTokens ++ [last]).filter (·.kind ≠ .comment)) :=
  ⟨by cbv, ofTokens_uncommented 4 _ (by decide) rfl⟩

end Declaration

/-- What is read from a source is what its tokens make up that carry meaning. -/
theorem parse_eq_ok {nesting : Nat} {source : Source} {declared : List Declaration} :
    parse nesting source = .ok declared ↔
      ∃ tokens, tokenize source = .ok tokens ∧ Grammar.Description nesting (Token.meaningful tokens) declared :=
  Outcome.bind_eq_ok.trans (exists_congr fun _ => and_congr_right fun _ => Declaration.ofTokens_eq_ok)

end RecordLayout
