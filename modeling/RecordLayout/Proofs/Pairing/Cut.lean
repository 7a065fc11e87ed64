import RecordLayout.Proofs.Pairing.Nesting

/-! Sources that are cut off between two tokens. What is left of an accepted source is accepted, or more of it
is wanted where it ends, or it is refused with one of a few faults. They come from what is optional and has
been cut off although something before it makes it necessary, and from a failure that is dropped for another
attempt. None of them is found where the cut is behind a whole line or behind a brace that opens one. -/

namespace RecordLayout

open Grammar RecordLayout.Parser

namespace Pairing

variable {all more front back : List Token} {room : Nat}

/-- The first run has the tokens of the second one up to where they are cut off. -/
def cut (all more : List Token) : Pairing where
  aligned front back := back = front ++ more ∧ back ⊆ all
  takes _ := True
  known := (· ∈ all)
  rooms := (· = ·)
  departs failure := (∃ wanted, failure = .ended wanted) ∨
    ∃ span cause, failure = .fault span cause ∧ cause.OfCut (· ∈ all)
  short := True
  step together := ⟨_, together.1, fun _ => ⟨rfl, (List.cons_subset.mp (together.1 ▸ together.2)).2⟩⟩
  stop _ := .inr trivial
  fewer together := together.1 ▸ List.subset_append_left _ _
  knows together _ member := together.2 member
  ended _ := .inl ⟨_, rfl⟩

theorem inline_cut (all more : List Token) : (cut all more).Inline where
  takes _ _ := trivial
  room_zero same := .inl same.symm
  room_succ same := ⟨_, same.symm, rfl⟩
  deep _ ofDepth := by
    cases ofDepth with
    | tooDeep => exact .inr ⟨_, _, rfl, .tooDeep⟩
    | retried there closes => exact .inr ⟨_, _, rfl, .retried there closes⟩
  cut _ _ _ ofCut := .inr ⟨_, _, rfl, ofCut⟩

/-! Whole lines. -/

/-- The last token ends a line or is a brace around lines. -/
def EndsLine (front : List Token) : Prop :=
  front.getLast?.any Token.boundsLines = true

/-- All lines that have been begun are whole, or have not gone beyond a brace. -/
def WholeLines (front : List Token) : Prop :=
  front = [] ∨ EndsLine front

theorem endsLine_cons {token : Token} (ends : EndsLine (token :: front)) :
    front = [] ∧ token.boundsLines = true ∨ EndsLine front := by
  cases front with
  | nil => exact .inl ⟨rfl, by simpa [EndsLine] using ends⟩
  | cons next front => exact .inr (by simpa [EndsLine, List.getLast?_cons_cons] using ends)

/-- Inside a line whose end both runs have before them. They cannot depart there. -/
def within (all more : List Token) : Pairing where
  aligned front back := EndsLine front ∧ back = front ++ more ∧ back ⊆ all
  takes token := token.boundsLines = false
  known := (· ∈ all)
  rooms := (· = ·)
  departs _ := False
  short := False
  step {token front back} together := by
    refine ⟨_, together.2.1, fun inside => ?_⟩
    rcases endsLine_cons together.1 with ⟨_, bounds⟩ | ends
    · simp [inside] at bounds
    · exact ⟨ends, rfl, (List.cons_subset.mp (together.2.1 ▸ together.2.2)).2⟩
  stop together := by simp [EndsLine] at together
  fewer together := together.2.1 ▸ List.subset_append_left _ _
  knows together _ member := together.2.2 member
  ended impossible := impossible.elim

theorem inline_within (all more : List Token) : (within all more).Inline where
  takes _ inside := inside
  room_zero same := .inl same.symm
  room_succ same := ⟨_, same.symm, rfl⟩
  deep impossible := impossible.elim
  cut impossible := impossible.elim

/-- The first run has whole lines, as far as it has any. -/
def lines (all more : List Token) : Pairing where
  aligned front back := WholeLines front ∧ back = front ++ more ∧ back ⊆ all
  takes _ := True
  known := (· ∈ all)
  rooms := (· = ·)
  departs failure := ∃ wanted, failure = .ended wanted
  short := True
  step {token front back} together := by
    refine ⟨_, together.2.1, fun _ => ⟨?_, rfl, (List.cons_subset.mp (together.2.1 ▸ together.2.2)).2⟩⟩
    rcases together.1 with impossible | ends
    · cases impossible
    · rcases endsLine_cons ends with ⟨none, _⟩ | ends
      · exact .inl none
      · exact .inr ends
  stop _ := .inr trivial
  fewer together := together.2.1 ▸ List.subset_append_left _ _
  knows together _ member := together.2.2 member
  ended _ := ⟨_, rfl⟩

theorem cases_within {one other : Except Failure (α × List Token)} (matched : (within all more).Match one other) :
    (∃ failure, one = .error failure ∧ other = .error failure) ∨
      ∃ value rest others, one = .ok (value, rest) ∧ other = .ok (value, others) ∧
        (within all more).aligned rest others := by
  apply matched.elim
  · exact fun _ _ impossible => impossible.elim
  · exact fun _ _ impossible => impossible.elim
  · exact fun failure failed same => .inl ⟨failure, failed, same⟩
  · exact fun value rest others read same together => .inr ⟨value, rest, others, read, same, together⟩

/-- What matches within a line matches among lines, if it goes on where there is no line. -/
theorem Follows.lines {first second : Parser α} (follows : (within all more).Follows first second)
    (out : (lines all more).Departs (first [])) : (lines all more).Follows first second := by
  refine ⟨fun front back together => ?_, fun _ => out⟩
  rcases together.1 with rfl | ends
  · exact .inl out
  · rcases cases_within (follows.along _ _ ⟨ends, together.2⟩) with
      ⟨failure, failed, same⟩ | ⟨value, rest, others, read, same, remaining⟩
    · rw [failed, same]
      exact match_error
    · rw [read, same]
      exact match_ok ⟨.inr remaining.1, remaining.2⟩

theorem expr_nil : (expr room : Parser Expr) [] = .error (.ended .expression) := by
  cases room <;> rfl

/-- What follows the colon of a case is there where the line is whole, so that both runs take it for the same. -/
theorem groupCaseOf_lines {first second : Parser (List Member)} (follows : (lines all more).Follows first second) :
    (lines all more).Follows (groupCaseOf room first) (groupCaseOf room second) := by
  have missing : groupCaseOf room first [] = .error (.ended .expression) := bind_of_error (bind_of_error expr_nil)
  have out : (lines all more).Departs (groupCaseOf room first []) := by
    rw [missing]
    exact ⟨.expression, rfl⟩
  have values : (within all more).Follows (caseValue room) (caseValue room) :=
    caseValue_follows (fun token kind => by simp [within, Token.boundsLines, kind])
      (expr_follows (inline_within all more) rfl)
  refine ⟨fun front back together => ?_, fun _ => out⟩
  rcases together.1 with rfl | ends
  · exact .inl out
  · rcases cases_within (values.along _ _ ⟨ends, together.2⟩) with
      ⟨failure, failed, same⟩ | ⟨value, rest, others, read, same, remaining⟩
    · rw [groupCaseOf, bind_of_error failed, groupCaseOf, bind_of_error same]
      exact match_error
    · have head : rest.head? = others.head? := (head remaining).resolve_right And.right
      rw [groupCaseOf, bind_of_ok read, groupCaseOf, bind_of_ok same, nextIsKind_bind, nextIsKind_bind, head]
      split
      · exact (follows.bind fun _ => .pure).along _ _ ⟨.inr remaining.1, remaining.2⟩
      · exact match_error

theorem block_lines (all more : List Token) (room : Nat) : (lines all more).Block room room where
  takes _ := trivial
  expr := (expr_follows (inline_within all more) rfl).lines (by
    rw [expr_nil]
    exact ⟨.expression, rfl⟩)
  info inherited := (memberInfo_follows (inline_within all more) rfl inherited).lines ⟨.type, rfl⟩
  order := (structOrder_follows (inline_within all more) rfl).lines ⟨trivial, rfl⟩
  group := groupCaseOf_lines

/-! All declarations. -/

theorem block_cut (all more : List Token) (room : Nat) : (cut all more).Block room room :=
  (inline_cut all more).block rfl fun _ => trivial

theorem Match.departs_of_ok {pair : Pairing} {failure : Failure} {result : α × List Token}
    (matched : pair.Match (.error failure) (.ok result)) : pair.departs failure := by
  rcases matched with departs | same
  · exact departs
  · cases same

/-- What is found in the front of tokens that are accepted as a whole. -/
theorem declarations_cut {declared : List Declaration}
    (accepted : Parser.declarations room (front ++ more) = .ok (declared, [])) :
    (∃ found, Parser.declarations room front = .ok (found, [])) ∨
      (∃ wanted, Parser.declarations room front = .error (.ended wanted)) ∨
      ∃ span cause, Parser.declarations room front = .error (.fault span cause) ∧
        cause.OfCut (· ∈ front ++ more) ∧ ¬ WholeLines front := by
  have every := List.Subset.refl (front ++ more)
  cases result : Parser.declarations room front with
  | ok found =>
    obtain ⟨found, rest⟩ := found
    obtain ⟨rfl, _⟩ := declarations_eq_ok.mp result
    exact .inl ⟨found, rfl⟩
  | error failure =>
    right
    have matched := (declarations_follows (block_cut _ more room)).along front _ ⟨rfl, every⟩
    rw [result, accepted] at matched
    rcases matched.departs_of_ok with ⟨wanted, rfl⟩ | ⟨span, cause, rfl, ofCut⟩
    · exact .inl ⟨wanted, rfl⟩
    · refine .inr ⟨span, cause, rfl, ofCut, fun whole => ?_⟩
      -- The same two runs once more, compared as runs over whole lines.
      have matched := (declarations_follows (block_lines _ more room)).along front _ ⟨whole, rfl, every⟩
      rw [result, accepted] at matched
      obtain ⟨wanted, impossible⟩ := matched.departs_of_ok
      cases impossible

end Pairing

/-- The tokens of an accepted source, cut off after some of them and closed by an end. Unless they are
accepted, more is wanted at that end, or there is a fault, and then the cut is within a line. -/
theorem Declaration.ofTokens_cut {nesting count : Nat} {source : Source} {tokens : List Token}
    {declared : List Declaration} {last : Token} (scanned : tokenize source = .ok tokens)
    (accepted : ofTokens nesting tokens = .ok declared) (fewer : count < tokens.length)
    (ends : last.kind = .endOfInput) :
    (∃ found, ofTokens nesting (tokens.take count ++ [last]) = .ok found) ∨
      (∃ wanted : Expectation,
        ofTokens nesting (tokens.take count ++ [last]) = .error (.expectedMore last.span [wanted.bare])) ∨
      ∃ (span : Span) (cause : SyntaxFault), cause.OfCut (· ∈ tokens) ∧
        ¬ Pairing.WholeLines (Token.meaningful (tokens.take count ++ [last])) ∧
        ofTokens nesting (tokens.take count ++ [last]) = .error (.invalidSyntax span cause.message) := by
  obtain ⟨inner, closing, rfl, closes, inside⟩ := ends_of_tokenize scanned
  have kept : (inner ++ [closing]).take count = inner.take count := by
    rw [List.length_append, List.length_singleton] at fewer
    exact List.take_append_of_le_length (by omega)
  have insideCut : ∀ token ∈ inner.take count, token.kind ≠ .endOfInput :=
    fun token member => inside token (List.mem_of_mem_take member)
  have split : Token.meaningful (inner ++ [closing]) =
      Token.meaningful (inner.take count ++ [last]) ++ (inner.drop count).filter (·.kind ≠ .comment) := by
    rw [meaningful_append_end inside closes, meaningful_append_end insideCut ends, ← List.filter_append,
      List.take_append_drop]
  have read := declarations_eq_ok.mpr ⟨rfl, ofTokens_eq_ok.mp accepted⟩
  rw [split] at read
  rw [kept]
  rcases Pairing.declarations_cut read with ⟨found, whole⟩ | ⟨wanted, failed⟩ | ⟨span, cause, failed, ofCut, within⟩
  · exact .inl ⟨found, ofTokens_eq_ok.mpr (declarations_eq_ok.mp whole).2⟩
  · refine .inr (.inl ⟨wanted, ?_⟩)
    rw [ofTokens_of_error failed, Token.endSpan_append_end insideCut ends]
    rfl
  · refine .inr (.inr ⟨span.getD last.span, cause, ofCut.mono ?_, within, ?_⟩)
    · intro token member
      rw [← split, meaningful_append_end inside closes] at member
      exact List.mem_append_left _ (List.mem_filter.mp member).1
    · rw [ofTokens_of_error failed, Token.endSpan_append_end insideCut ends]
      rfl

/-! A source where a failure is dropped that wants more. -/

theorem declarations_comparedTokens_cut : Parser.declarations 3
    (Token.meaningful (comparedTokens.take 9 ++ [comparedToken .endOfInput none 28 28])) =
      .error (.fault (some (comparedSpan 17 18)) (.unexpected .comparison (comparedToken .rightParen none 17 18))) := by
  cbv

theorem ofTokens_comparedTokens : Declaration.ofTokens 3 comparedTokens = .ok [.struct comparedStruct] := by
  cbv

theorem ofTokens_comparedTokens_cut :
    let last := comparedToken .endOfInput none 28 28
    let cut := comparedTokens.take 9 ++ [last]
    (∃ found, Declaration.ofTokens 3 cut = .ok found) ∨
      (∃ wanted : Expectation, Declaration.ofTokens 3 cut = .error (.expectedMore last.span [wanted.bare])) ∨
      ∃ (span : Span) (cause : SyntaxFault), cause.OfCut (· ∈ comparedTokens) ∧
        ¬ Pairing.WholeLines (Token.meaningful cut) ∧
        Declaration.ofTokens 3 cut = .error (.invalidSyntax span cause.message) :=
  Declaration.ofTokens_cut tokenize_comparedSource ofTokens_comparedTokens (by decide) rfl

/-- Where tokens are cut off it is not always said that more of them are wanted. -/
theorem ofTokens_cut_otherwise :
    ¬ ∀ (source : Source) (tokens : List Token) (nesting count : Nat) (declared : List Declaration) (last : Token),
      tokenize source = .ok tokens → Declaration.ofTokens nesting tokens = .ok declared → count < tokens.length →
      last.kind = .endOfInput →
        (∃ found, Declaration.ofTokens nesting (tokens.take count ++ [last]) = .ok found) ∨
          ∃ wanted, Declaration.ofTokens nesting (tokens.take count ++ [last]) =
            .error (.expectedMore last.span wanted) := by
  intro always
  have refused := Declaration.ofTokens_of_error declarations_comparedTokens_cut
  rcases always comparedSource comparedTokens 3 9 _ _ tokenize_comparedSource ofTokens_comparedTokens (by decide)
    (rfl : (comparedToken .endOfInput none 28 28).kind = .endOfInput) with ⟨found, read⟩ | ⟨wanted, failed⟩
  · rw [refused] at read
    cases read
  · rw [refused] at failed
    injection failed with same
    cases same

end RecordLayout
