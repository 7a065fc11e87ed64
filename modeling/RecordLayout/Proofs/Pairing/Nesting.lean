import Mathlib
import RecordLayout.Compile
import RecordLayout.Proofs.Cursor.Comments
import RecordLayout.Proofs.Outcome
import RecordLayout.Proofs.Pairing.Declaration
import RecordLayout.Proofs.Token.Ends

/-! The limit on nesting. A larger limit keeps all that a smaller one accepts, and what a smaller one refuses
is refused for the nesting. In one case that is not what is said: behind a parenthesis that begins a
comparison, the retry may find nothing to compare where it is closed. -/

namespace RecordLayout

open Grammar

theorem SyntaxFault.message_unexpected (wanted : Expectation) (found : Token) :
    (unexpected wanted found).message = "expected " ++ wanted.describe ++ ", found " ++ found.describe := rfl

theorem SyntaxFault.message_retried {closing : Token} (written : closing.Written)
    (closes : closing.kind = .rightParen) :
    (unexpected .comparison closing).message = "expected comparison operator, found ')'" := by
  rw [message_unexpected, written.describe_rightParen closes]
  decide

theorem Failure.toError_retried {closing : Token} (written : closing.Written) (closes : closing.kind = .rightParen)
    (atEnd : Span) : (fault (some closing.span) (.unexpected .comparison closing)).toError atEnd =
      .invalidSyntax closing.span "expected comparison operator, found ')'" :=
  congrArg _ (SyntaxFault.message_retried written closes)

namespace Pairing

theorem declarations_deeper {room other : Nat} (fewer : room ≤ other) (tokens : List Token) :
    Parser.declarations room tokens = Parser.declarations other tokens ∨
      ∃ failure, failure.OfDepth (· ∈ tokens) ∧ Parser.declarations room tokens = .error failure := by
  have block := (inline_deeper tokens).block fewer fun _ => trivial
  exact match_deeper ((declarations_follows block).along _ _ ⟨rfl, List.Subset.refl tokens⟩)

end Pairing

theorem Declaration.ofTokens_deeper {nesting deeper : Nat} (fewer : nesting ≤ deeper) (tokens : List Token) :
    ofTokens nesting tokens = ofTokens deeper tokens ∨
      ∃ failure : Failure, failure.OfDepth (· ∈ tokens) ∧
        ofTokens nesting tokens = .error (failure.toError (Token.endSpan tokens)) := by
  rcases Pairing.declarations_deeper fewer (Token.meaningful tokens) with same | ⟨failure, ofDepth, failed⟩
  · exact .inl (by rw [ofTokens_eq, ofTokens_eq, same])
  · refine .inr ⟨failure, ofDepth.mono fun token member => ?_, ofTokens_of_error failed⟩
    exact (List.takeWhile_prefix _).subset (List.mem_filter.mp member).1

/-- A list that goes on while `(1) < ((2))`. -/
def comparedSource : Source :=
  ⟨"", "struct s\x7buint8[(1)<((2))]x,\x7d"⟩

def comparedSpan (start stop : Nat) : Span :=
  ⟨⟨start, 0, start, comparedSource⟩, ⟨stop, 0, stop, comparedSource⟩⟩

def comparedStruct : StructDef :=
  ⟨⟨"s", comparedSpan 7 8⟩, .fixed .big, [.member ⟨⟨"x", comparedSpan 25 26⟩,
    .plain (.data ⟨.unsigned .w8, none, comparedSpan 9 14⟩), .fixed .big,
    some (.whileTrue (.relation (.int 1 (comparedSpan 16 17)) .less (.int 2 (comparedSpan 21 22))))⟩]⟩

def comparedToken (kind : Token.Kind) (text : Option String) (start stop : Nat) : Token :=
  ⟨kind, text, comparedSpan start stop⟩

def comparedTokens : List Token :=
  [comparedToken .keyword "struct" 0 6, comparedToken .identifier "s" 7 8, comparedToken .leftBrace none 8 9,
   comparedToken .dataType "uint8" 9 14, comparedToken .leftBracket none 14 15,
   comparedToken .leftParen none 15 16, comparedToken .integer "1" 16 17, comparedToken .rightParen none 17 18,
   comparedToken .less none 18 19, comparedToken .leftParen none 19 20, comparedToken .leftParen none 20 21,
   comparedToken .integer "2" 21 22, comparedToken .rightParen none 22 23, comparedToken .rightParen none 23 24,
   comparedToken .rightBracket none 24 25, comparedToken .identifier "x" 25 26, comparedToken .comma none 26 27,
   comparedToken .rightBrace none 27 28, comparedToken .endOfInput none 28 28]

theorem tokenize_comparedSource : tokenize comparedSource = .ok comparedTokens := by
  cbv

theorem parse_comparedSource : parse 3 comparedSource = .ok [.struct comparedStruct] := by
  cbv

/-- What is wrong with the right side of the comparison is not said, only that there is none on the left. -/
theorem parse_comparedSource_of_two : parse 2 comparedSource =
    .error (.invalidSyntax (comparedSpan 17 18) "expected comparison operator, found ')'") := by
  have failed : Parser.declarations 2 (Token.meaningful comparedTokens) =
      .error (.fault (some (comparedSpan 17 18))
        (.unexpected .comparison (comparedToken .rightParen none 17 18))) := by cbv
  have written : (comparedToken .rightParen none 17 18).Written := ⟨[], rfl⟩
  have said := Failure.toError_retried written rfl (Token.endSpan comparedTokens)
  rw [parse, tokenize_comparedSource]
  exact (Declaration.ofTokens_of_error failed).trans (congrArg Except.error said)

/-- A larger limit changes nothing about a source that is accepted. -/
theorem parse_eq_ok_of_le {nesting deeper : Nat} {source : Source} {declared : List Declaration}
    (fewer : nesting ≤ deeper) (accepted : parse nesting source = .ok declared) :
    parse deeper source = .ok declared := by
  obtain ⟨tokens, scanned, described⟩ := Outcome.bind_eq_ok.mp accepted
  have description := Declaration.ofTokens_eq_ok.mp described
  have deep := within_description (.inl fewer) _ _ (Nat.le_refl _) description
  exact Outcome.bind_eq_ok.mpr ⟨tokens, scanned, Declaration.ofTokens_eq_ok.mpr deep⟩

theorem parse_comparedSource_of_default :
    3 ≤ defaultNesting ∧ parse 3 comparedSource = .ok [.struct comparedStruct] ∧
      parse defaultNesting comparedSource = .ok [.struct comparedStruct] :=
  ⟨by decide, parse_comparedSource, parse_eq_ok_of_le (by decide) parse_comparedSource⟩

/-- A source that only the limit keeps from being accepted is refused for its nesting, or because nothing is
compared before a closing parenthesis. -/
theorem parse_eq_error_of_lt {nesting deeper : Nat} {source : Source} {declared : List Declaration}
    {error : CompileError} (fewer : nesting < deeper) (accepted : parse deeper source = .ok declared)
    (refused : parse nesting source = .error error) :
    (∃ span, error = .invalidSyntax span "nesting too deep") ∨
      ∃ tokens closing, tokenize source = .ok tokens ∧ closing ∈ tokens ∧ closing.kind = .rightParen ∧
        error = .invalidSyntax closing.span "expected comparison operator, found ')'" := by
  obtain ⟨tokens, scanned, described⟩ := Outcome.bind_eq_ok.mp accepted
  simp only [parse, scanned] at refused
  change Declaration.ofTokens nesting tokens = .error error at refused
  rcases Declaration.ofTokens_deeper (Nat.le_of_lt fewer) tokens with same | ⟨failure, ofDepth, failed⟩
  · rw [same, described] at refused
    cases refused
  · rw [failed] at refused
    obtain rfl := Except.error.inj refused
    cases ofDepth with
    | tooDeep => exact .inl ⟨_, rfl⟩
    | @retried closing there closes =>
      have said := Failure.toError_retried (written_of_tokenize scanned closing there) closes
      exact .inr ⟨tokens, closing, scanned, there, closes, said _⟩

theorem parse_comparedSource_refused :
    (∃ span, CompileError.invalidSyntax (comparedSpan 17 18) "expected comparison operator, found ')'" =
      .invalidSyntax span "nesting too deep") ∨
      ∃ tokens closing, tokenize comparedSource = .ok tokens ∧ closing ∈ tokens ∧ closing.kind = .rightParen ∧
        CompileError.invalidSyntax (comparedSpan 17 18) "expected comparison operator, found ')'" =
          .invalidSyntax closing.span "expected comparison operator, found ')'" :=
  parse_eq_error_of_lt (Nat.lt_add_one 2) parse_comparedSource parse_comparedSource_of_two

/-- The limit is not always what is spoken of where it alone is exceeded. -/
theorem parse_refused_otherwise :
    ¬ ∀ (source : Source) (nesting deeper : Nat), nesting < deeper →
      ∀ declared error, parse deeper source = .ok declared → parse nesting source = .error error →
        ∃ span, error = .invalidSyntax span "nesting too deep" := by
  intro always
  obtain ⟨span, same⟩ := always comparedSource 2 3 (by decide) _ _ parse_comparedSource parse_comparedSource_of_two
  injection same with _ message
  exact absurd message (by decide)

end RecordLayout
