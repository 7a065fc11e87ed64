import RecordLayout.Proofs.Token.Tiling

/-! Layout only keeps tokens apart. What the tokens of a source cover can be written one below the other, with all
spaces and line breaks of the source forgotten, and is scanned to the same kinds and texts. -/

namespace RecordLayout

namespace Token

/-- What a token is, wherever it stands. -/
def said (token : Token) : Kind × Option String :=
  (token.kind, token.text)

/-- The characters of a token decide its text. -/
theorem Kind.Spells.textOf_eq {kind : Kind} {lexeme : List Char} {text : Option String}
    (spelled : kind.Spells lexeme text) : textOf kind lexeme = text := by
  cases spelled with
  | whole plain => exact textOf_whole plain lexeme
  | string => simp [textOf]
  | char => simp [textOf]
  | @comment slashes content two bare =>
    have left : (List.replicate slashes '/' ++ content).dropWhile (· = '/') = content := by
      rw [List.dropWhile_append_of_pos (by simp)]
      cases content with
      | nil => rfl
      | cons c content => simpa using bare
    rw [textOf, left]
  | symbol known => exact textOf_symbol known _

/-- A token is found again at the end of a text and at the end of a line. -/
theorem finds_alone {kind : Kind} {lexeme rest : List Char} (known : Kind.ofLexeme? lexeme = some kind)
    (line : ∀ d ∈ rest.head?, d = '\n') : Finds lexeme rest (IsOne kind lexeme) := by
  obtain ⟨c, more, rfl, found⟩ := front_of_ofLexeme? known
  have breaks : BreaksOff (more.drop more.length) rest := fun d first => .inl (line d first)
  have again := front_breaksOff found breaks
  rw [List.take_length] at again
  refine finds_token again fun _ d first => ?_
  rw [line d first]
  decide

/-- Tokens on lines of their own, read up to the end. -/
theorem finds_lines {tokens : List Token} (inner : ∀ token ∈ tokens, token.Inner) :
    ∃ lexemes, tokens.mapM (·.span.text?) = some lexemes ∧
      Finds ("\n".intercalate lexemes).toList [] fun found => found.map said = tokens.map said := by
  induction tokens with
  | nil => exact ⟨[], rfl, .nil rfl⟩
  | cons token tokens ih =>
    obtain ⟨lexemes, cut, others⟩ := ih fun other member => inner other (List.mem_cons_of_mem _ member)
    obtain ⟨lexeme, covered, known, spelled⟩ := (inner token List.mem_cons_self).spelled
    -- Behind a token the text ends or goes on with a line break, so the token is found whatever its kind.
    have behind : ∃ tail, ("\n".intercalate (String.ofList lexeme :: lexemes)).toList = lexeme ++ tail ∧
        (∀ d ∈ tail.head?, d = '\n') ∧ Finds tail [] fun found => found.map said = tokens.map said := by
      cases lexemes with
      | nil => exact ⟨[], by simp, by simp, others⟩
      | cons next lexemes =>
        refine ⟨'\n' :: ("\n".intercalate (next :: lexemes)).toList, ?_, by simp, others.gap rfl⟩
        simp [String.intercalate_cons_cons]
    obtain ⟨tail, text, line, rest⟩ := behind
    refine ⟨String.ofList lexeme :: lexemes, by simp [List.mapM_cons, covered, cut], ?_⟩
    rw [text]
    have first : Finds lexeme (tail ++ []) (IsOne token.kind lexeme) :=
      finds_alone known (by simpa using line)
    apply (first.append rest).mono
    rintro _ ⟨_, back, rfl, ⟨found, rfl, kind, content⟩, same⟩
    have one : found.said = token.said := by
      rw [said, said, kind, content, spelled.textOf_eq]
    simp [one, same]

end Token

/-- What a source without its layout is scanned to. The token that covers nothing is the end of the input. -/
theorem said_of_tokenize_lines {source : Source} {tokens : List Token} (scanned : tokenize source = .ok tokens)
    (id : String) :
    tokens.getLast?.map Token.said = some (.endOfInput, none) ∧
      ∃ lexemes again, tokens.dropLast.mapM (·.span.text?) = some lexemes ∧
        tokenize ⟨id, "\n".intercalate lexemes⟩ = .ok again ∧ again.map Token.said = tokens.map Token.said := by
  have covers := covers_of_tokenize scanned
  have inner := @Token.Covers.inner source [] _ _ covers rfl
  obtain ⟨lexemes, cut, finds⟩ := Token.finds_lines inner
  obtain ⟨front, last, rescanned, same, _⟩ :=
    @Token.tokenize_of_finds ⟨id, "\n".intercalate lexemes⟩ _ finds
  have isLast := covers.last
  refine ⟨by rw [isLast]; rfl, lexemes, front ++ [last], cut, rescanned, ?_⟩
  have endsAgain : (front ++ [last]).getLast? = _ := (covers_of_tokenize rescanned).last
  have whole : tokens = tokens.dropLast ++ [_] := (List.dropLast_append_getLast? _ isLast).symm
  rw [List.getLast?_concat, Option.some.injEq] at endsAgain
  rw [whole, List.map_append, List.map_append, same, endsAgain]
  rfl

/-- Tokens that nothing keeps apart: a minus behind a number and one that belongs to a literal, a comment behind a
literal, an operator that goes on with its own first character, and a string over two lines. -/
def gluedSource : Source :=
  ⟨"", "15-3*-4// c\n&&&\"\n\""⟩

def gluedSpan (start line column stop endLine endColumn : Nat) : Span :=
  ⟨⟨start, line, column, gluedSource⟩, ⟨stop, endLine, endColumn, gluedSource⟩⟩

def gluedTokens : List Token :=
  [⟨.integer, some "15", gluedSpan 0 0 0 2 0 2⟩, ⟨.minus, none, gluedSpan 2 0 2 3 0 3⟩,
   ⟨.integer, some "3", gluedSpan 3 0 3 4 0 4⟩, ⟨.star, none, gluedSpan 4 0 4 5 0 5⟩,
   ⟨.integer, some "-4", gluedSpan 5 0 5 7 0 7⟩, ⟨.comment, some " c", gluedSpan 7 0 7 11 0 11⟩,
   ⟨.and, none, gluedSpan 12 1 0 14 1 2⟩, ⟨.ampersand, none, gluedSpan 14 1 2 15 1 3⟩,
   ⟨.string, some "\n", gluedSpan 15 1 3 18 2 1⟩, ⟨.endOfInput, none, gluedSpan 18 2 1 18 2 1⟩]

theorem said_of_gluedSource_lines :
    tokenize gluedSource = .ok gluedTokens ∧
      ∃ again, tokenize ⟨"", "15\n-\n3\n*\n-4\n// c\n&&\n&\n\"\n\""⟩ = .ok again ∧
        again.map Token.said = gluedTokens.map Token.said := by
  have scanned : tokenize gluedSource = .ok gluedTokens := by cbv
  obtain ⟨_, lexemes, again, cut, rescanned, same⟩ := said_of_tokenize_lines scanned ""
  have lines : gluedTokens.dropLast.mapM (·.span.text?) =
      some ["15", "-", "3", "*", "-4", "// c", "&&", "&", "\"\n\""] := by cbv
  obtain rfl := Option.some.inj (cut.symm.trans lines)
  exact ⟨scanned, again, by simpa using rescanned, same⟩

end RecordLayout
