import RecordLayout.Proofs.Joined.Scan
import RecordLayout.Proofs.Pairing.Cut
import RecordLayout.Proofs.Span.Parsers

/-! The declarations of two texts with a line break between them. Nothing behind the last brace of a declaration is
looked at, and what the tokens make up does not depend on where they are. So the second text is read as if it stood
alone, whether or not it can be read. -/

namespace RecordLayout

open Located

namespace Token

variable {tokens : List Token}

theorem meaningful_move (place : Position → Position) (tokens : List Token) :
    meaningful (move place tokens) = move place (meaningful tokens) := by
  simp only [meaningful, move, List.takeWhile_map, List.filter_map]
  rfl

theorem endSpan_move (place : Position → Position) (some : tokens ≠ []) :
    endSpan (move place tokens) = move place (endSpan tokens) := by
  have found : (move place tokens).find? (·.kind = .endOfInput) = move place (tokens.find? (·.kind = .endOfInput)) :=
    List.find?_map ..
  have last : (move place tokens).getLast? = move place tokens.getLast? := List.getLast?_map
  rw [endSpan, endSpan, found, last, List.getLast?_eq_some_getLast some]
  cases tokens.find? (·.kind = .endOfInput) <;> rfl

end Token

/-- What is wrong is said in the same words wherever it is. -/
theorem SyntaxFault.message_move (place : Position → Position) (fault : SyntaxFault) :
    (move place fault).message = fault.message := by
  cases fault <;> rfl

theorem Failure.toError_move (place : Position → Position) (failure : Failure) (atEnd : Span) :
    (move place failure).toError (move place atEnd) = move place (failure.toError atEnd) := by
  rcases failure with wanted | ⟨_ | span, cause⟩
  · rfl
  · exact congrArg (CompileError.invalidSyntax _) (cause.message_move place)
  · exact congrArg (CompileError.invalidSyntax _) (cause.message_move place)

namespace Declaration

variable {nesting : Nat}

theorem ofTokens_move (place : Position → Position) {tokens : List Token} (some : tokens ≠ []) :
    ofTokens nesting (move place tokens) = move place (ofTokens nesting tokens) := by
  have moved := (@Parser.declarations_tracks place [] nesting).moves (Token.meaningful tokens)
  rw [ofTokens_eq, ofTokens_eq, Token.meaningful_move, moved]
  cases Parser.declarations nesting (Token.meaningful tokens) with
  | ok read => rfl
  | error failure =>
    rw [Token.endSpan_move place some]
    exact congrArg Except.error (failure.toError_move place _)

/-- Tokens that make up declarations up to an end are read in front of others as well. -/
theorem ofTokens_append {front more : List Token} {last : Token} {declared : List Declaration}
    (inside : ∀ token ∈ front, token.kind ≠ .endOfInput) (ends : last.kind = .endOfInput)
    (read : ofTokens nesting (front ++ [last]) = .ok declared) (some : more ≠ []) :
    ofTokens nesting (front ++ more) = (ofTokens nesting more).map (declared ++ ·) := by
  have there := ofTokens_eq_ok.mp read
  rw [meaningful_append_end inside ends] at there
  rw [ofTokens_eq, ofTokens_eq, Token.meaningful_append inside, Token.endSpan_append inside some,
    Parser.declarations_append there]
  cases Parser.declarations nesting (Token.meaningful more) <;> rfl

end Declaration

/-- The declarations of both texts are those of the first one, and then those of the second. -/
theorem parse_joined {nesting : Nat} {first second : Source} {declared : List Declaration}
    (accepted : parse nesting first = .ok declared) :
    parse nesting (first.joined second) =
      (move (first.inSecond second) (parse nesting second)).map (move (first.inFirst second) declared ++ ·) := by
  obtain ⟨tokens, scanned, read⟩ := Outcome.bind_eq_ok.mp accepted
  obtain ⟨front, last, rfl, ends, inside⟩ := ends_of_tokenize scanned
  have moved := @Declaration.ofTokens_move nesting (first.inFirst second) (front ++ [last]) (by simp)
  have split : move (first.inFirst second) (front ++ [last]) =
      move (first.inFirst second) front ++ [move (first.inFirst second) last] := List.map_append
  rw [read, split] at moved
  have endsMoved : (move (first.inFirst second) last).kind = .endOfInput := ends
  have insideMoved : ∀ token ∈ move (first.inFirst second) front, token.kind ≠ .endOfInput := by
    intro token member
    obtain ⟨origin, present, rfl⟩ := List.mem_map.mp member
    exact inside origin present
  rw [parse, parse, tokenize_joined scanned]
  cases rescanned : tokenize second with
  | error error => rfl
  | ok more =>
    obtain ⟨_, _, some, _⟩ := ends_of_tokenize rescanned
    have solid : more ≠ [] := by simp [some]
    have behind : move (first.inSecond second) more ≠ [] := by simpa [move] using solid
    have joined := Declaration.ofTokens_append insideMoved endsMoved moved behind
    rw [Declaration.ofTokens_move _ solid] at joined
    exact joined

end RecordLayout
