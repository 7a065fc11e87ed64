import RecordLayout.Proofs.Grammar.Phrase

/-! What it says that a combinator succeeds: which tokens it took and what it made of them. Proofs
about parsers use these equivalences in both directions and never open the combinators again. -/

namespace RecordLayout.Parser

section

variable {σ : Type} {source rest : σ}

theorem pure_eq_ok {value result : α} :
    (pure value : ParserOn σ α) source = .ok (result, rest) ↔ value = result ∧ source = rest := by
  change Except.ok (value, source) = .ok (result, rest) ↔ _
  simp

theorem bind_eq_ok {first : ParserOn σ α} {next : α → ParserOn σ β} {value : β} :
    (first >>= next) source = .ok (value, rest) ↔
      ∃ middle after, first source = .ok (middle, after) ∧ next middle after = .ok (value, rest) := by
  simp only [bind, StateT.bind]
  cases first source with
  | error failure => simp [Except.bind]
  | ok result =>
    obtain ⟨reached, after⟩ := result
    simp only [Except.bind, Except.ok.injEq, Prod.mk.injEq]
    constructor
    · exact fun continued => ⟨reached, after, ⟨rfl, rfl⟩, continued⟩
    · intro ⟨_, _, ⟨rfl, rfl⟩, continued⟩
      exact continued

theorem map_eq_ok {parser : ParserOn σ α} {f : α → β} {value : β} :
    (f <$> parser) source = .ok (value, rest) ↔
      ∃ found, parser source = .ok (found, rest) ∧ f found = value := by
  rw [map_eq_pure_bind, bind_eq_ok]
  constructor
  · intro ⟨found, after, read, returned⟩
    obtain ⟨same, rfl⟩ := pure_eq_ok.mp returned
    exact ⟨found, read, same⟩
  · intro ⟨found, read, same⟩
    exact ⟨found, rest, read, pure_eq_ok.mpr ⟨same, rfl⟩⟩

theorem tryCatch_eq_ok {parser : ParserOn σ α} {handler : Failure → ParserOn σ α} {value : α} :
    (tryCatch parser handler) source = .ok (value, rest) ↔
      parser source = .ok (value, rest) ∨
        ∃ failure, parser source = .error failure ∧ handler failure source = .ok (value, rest) := by
  change Except.tryCatch (parser source) (fun failure => handler failure source) = .ok (value, rest) ↔ _
  cases parser source with
  | error failure =>
    change handler failure source = .ok (value, rest) ↔ _
    simp
  | ok result =>
    change Except.ok result = .ok (value, rest) ↔ _
    simp

/-- Where the first parser never succeeds, the handler alone decides. -/
theorem tryCatch_eq_ok_of_fails {parser : ParserOn σ α} {handler : Failure → ParserOn σ α} {value : α}
    (fails : ∀ found after, parser source ≠ .ok (found, after))
    (handles : ∀ failure, handler failure source = .ok (value, rest)) :
    (tryCatch parser handler) source = .ok (value, rest) := by
  apply tryCatch_eq_ok.mpr
  cases result : parser source with
  | ok found => exact absurd result (fails found.1 found.2)
  | error failure => exact .inr ⟨failure, rfl, handles failure⟩

theorem bind_of_ok {parser : ParserOn σ α} {next : α → ParserOn σ β} {value : α}
    (read : parser source = .ok (value, rest)) : (parser >>= next) source = next value rest := by
  simp [bind, StateT.bind, Except.bind, read]

theorem bind_of_error {parser : ParserOn σ α} {next : α → ParserOn σ β} {failure : Failure}
    (failed : parser source = .error failure) : (parser >>= next) source = .error failure := by
  simp [bind, StateT.bind, Except.bind, failed]

theorem tryCatch_of_ok {parser : ParserOn σ α} {handler : Failure → ParserOn σ α} {value : α}
    (read : parser source = .ok (value, rest)) : (tryCatch parser handler) source = .ok (value, rest) :=
  tryCatch_eq_ok.mpr (.inl read)

theorem tryCatch_of_error {parser : ParserOn σ α} {handler : Failure → ParserOn σ α} {failure : Failure}
    (failed : parser source = .error failure) : (tryCatch parser handler) source = handler failure source := by
  change Except.tryCatch (parser source) (fun failure => handler failure source) = _
  rw [failed]
  rfl

end

variable {tokens rest : List Token}

theorem accept?_eq_some {pick : Token → Option α} {value : α} :
    accept? pick tokens = .ok (some value, rest) ↔
      ∃ token, tokens = token :: rest ∧ pick token = some value := by
  cases tokens with
  | nil => simp [accept?]
  | cons token others =>
    cases picked : pick token with
    | none =>
      simp only [accept?, TokenSource.next?_list, List.head?_cons, Option.bind_some, picked, Except.ok.injEq,
        Prod.mk.injEq, reduceCtorEq, false_and, List.cons.injEq, false_iff]
      exact fun ⟨_, ⟨same, _⟩, found⟩ => by simp [← same, picked] at found
    | some other =>
      simp only [accept?, TokenSource.next?_list, TokenSource.advance_list, List.head?_cons, Option.bind_some, picked,
        List.tail_cons, Except.ok.injEq, Prod.mk.injEq, Option.some.injEq, List.cons.injEq]
      constructor
      · intro ⟨same, left⟩
        exact ⟨token, ⟨rfl, left⟩, picked.trans (congrArg some same)⟩
      · intro ⟨_, ⟨rfl, left⟩, found⟩
        exact ⟨Option.some.inj (picked.symm.trans found), left⟩

theorem accept?_eq_none {pick : Token → Option α} :
    accept? pick tokens = .ok (none, rest) ↔ tokens = rest ∧ Clear (fun token => (pick token).isSome) tokens := by
  cases tokens with
  | nil => simp [accept?]
  | cons token others => cases picked : pick token <;> simp [accept?, picked]

theorem expect_eq_ok {wanted : Expectation} {pick : Token → Option α} {value : α} :
    expect wanted pick tokens = .ok (value, rest) ↔
      ∃ token, tokens = token :: rest ∧ pick token = some value := by
  simp only [expect, bind_eq_ok]
  constructor
  · intro ⟨found, after, accepted, returned⟩
    cases found with
    | none => cases after <;> cases returned
    | some other =>
      obtain ⟨rfl, rfl⟩ := pure_eq_ok.mp returned
      exact accept?_eq_some.mp accepted
  · intro picked
    exact ⟨some value, rest, accept?_eq_some.mpr picked, rfl⟩

theorem ofKind?_eq_some {kind : Token.Kind} {token value : Token} :
    ofKind? kind token = some value ↔ token = value ∧ token.kind = kind := by
  unfold ofKind?
  split <;> simp_all

theorem token_eq_ok {kind : Token.Kind} {value : Token} :
    token kind tokens = .ok (value, rest) ↔ tokens = value :: rest ∧ value.kind = kind := by
  simp only [token, expect_eq_ok, ofKind?_eq_some]
  constructor
  · intro ⟨_, same, rfl, fits⟩
    exact ⟨same, fits⟩
  · intro ⟨same, fits⟩
    exact ⟨value, same, rfl, fits⟩

theorem keyword_eq_ok {word : String} {value : Token} :
    keyword word tokens = .ok (value, rest) ↔ tokens = value :: rest ∧ value.IsWord word := by
  simp only [keyword, expect_eq_ok, Option.ite_none_right_eq_some, Option.some.injEq, Token.isKeyword_iff]
  constructor
  · intro ⟨_, same, fits, rfl⟩
    exact ⟨same, fits⟩
  · intro ⟨same, fits⟩
    exact ⟨value, same, fits, rfl⟩

theorem name_eq_ok {wanted : Expectation} {value : Name} :
    name wanted tokens = .ok (value, rest) ↔
      ∃ token, tokens = token :: rest ∧ token.kind = .identifier ∧ value = ⟨token.content, token.span⟩ := by
  simp only [name, expect_eq_ok, Option.map_eq_some_iff, ofKind?_eq_some]
  constructor
  · intro ⟨token, same, _, ⟨rfl, fits⟩, named⟩
    exact ⟨token, same, fits, named.symm⟩
  · intro ⟨token, same, fits, named⟩
    exact ⟨token, same, token, ⟨rfl, fits⟩, named.symm⟩

theorem nextIsKind_apply {kind : Token.Kind} :
    nextIsKind kind tokens = .ok (tokens.head?.any (·.kind == kind), tokens) := rfl

theorem isAtEnd_apply : isAtEnd tokens = .ok (tokens.isEmpty, tokens) := by
  cases tokens <;> rfl

theorem peek?_apply : peek? tokens = .ok (tokens.head?, tokens) := rfl

theorem eat_eq_ok {kind : Token.Kind} {found : Bool} :
    eat kind tokens = .ok (found, rest) ↔
      (found = true ∧ ∃ token, tokens = token :: rest ∧ token.kind = kind) ∨
      (found = false ∧ tokens = rest ∧ Clear (·.kind == kind) tokens) := by
  simp only [eat, bind_pure_comp, map_eq_ok]
  constructor
  · intro ⟨result, accepted, same⟩
    cases result with
    | none =>
      obtain ⟨rfl, absent⟩ := accept?_eq_none.mp accepted
      refine .inr ⟨same.symm, rfl, fun token first => ?_⟩
      simpa [ofKind?] using absent token first
    | some found =>
      obtain ⟨token, taken, fits⟩ := accept?_eq_some.mp accepted
      exact .inl ⟨same.symm, token, taken, (ofKind?_eq_some.mp fits).2⟩
  · intro either
    rcases either with ⟨rfl, token, rfl, fits⟩ | ⟨rfl, rfl, absent⟩
    · exact ⟨some token, accept?_eq_some.mpr ⟨token, rfl, ofKind?_eq_some.mpr ⟨rfl, fits⟩⟩, rfl⟩
    · refine ⟨none, accept?_eq_none.mpr ⟨rfl, fun token first => ?_⟩, rfl⟩
      simpa [ofKind?] using absent token first

theorem fail_ne_ok {fault : SyntaxFault} {value : α} : fail fault tokens ≠ .ok (value, rest) := by
  simp [fail]

theorem failAt_ne_ok {span : Span} {fault : SyntaxFault} {value : α} :
    failAt span fault tokens ≠ .ok (value, rest) := by
  simp [failAt]

theorem unexpected_ne_ok {wanted : Expectation} {value : α} :
    unexpected wanted tokens ≠ .ok (value, rest) := by
  cases tokens <;> simp [unexpected]

theorem nested_eq_ok {room : Nat} {body : Nat → Parser α} {value : α} :
    nested room body tokens = .ok (value, rest) ↔
      ∃ inner, room = inner + 1 ∧ body inner tokens = .ok (value, rest) := by
  cases room with
  | zero => simp [nested, fail]
  | succ room => simp [nested]

theorem inParens_eq_ok {inner : Parser α} {value : α} :
    inParens inner tokens = .ok (value, rest) ↔
      ∃ opening after closing, tokens = opening :: after ∧ opening.kind = .leftParen ∧
        inner after = .ok (value, closing :: rest) ∧ closing.kind = .rightParen := by
  simp only [inParens, bind_eq_ok, token_eq_ok, pure_eq_ok]
  constructor
  · intro ⟨opening, after, ⟨same, opens⟩, _, _, inside, closing, _, ⟨left, closes⟩, rfl, rfl⟩
    exact ⟨opening, after, closing, same, opens, left ▸ inside, closes⟩
  · intro ⟨opening, after, closing, same, opens, inside, closes⟩
    exact ⟨opening, after, ⟨same, opens⟩, value, _, inside, closing, rest, ⟨rfl, closes⟩, rfl, rfl⟩

end RecordLayout.Parser
