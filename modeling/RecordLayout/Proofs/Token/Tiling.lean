import RecordLayout.Proofs.Position
import RecordLayout.Proofs.Token.Ends
import RecordLayout.Proofs.Token.Lexeme

/-! Tokens and the spaces between them are all there is in a source. The scan keeps its place in step with
the characters it takes, so each span cuts out of the source what its token was made of. -/

namespace RecordLayout

/-- Only spaces are between two spans, the first of which comes before the second. -/
def Span.Apart (left right : Span) : Prop :=
  ∃ gap, text? ⟨left.stop, right.start⟩ = some gap ∧ ∀ c ∈ gap.toList, Token.isSpace c = true

namespace Token

/-! Scans. -/

/-- The tokens make up the characters from a place on, with spaces before each of them. -/
inductive Covers : Position → List Char → List Token → Prop where
  | finish {here gap} (blank : ∀ c ∈ gap, isSpace c = true) :
      Covers here gap [⟨.endOfInput, none, .empty (here.past gap)⟩]
  | token {here gap lexeme rest kind text tokens} (blank : ∀ c ∈ gap, isSpace c = true)
      (known : Kind.ofLexeme? lexeme = some kind) (spelled : kind.Spells lexeme text)
      (others : Covers ((here.past gap).past lexeme) rest tokens) :
      Covers here (gap ++ (lexeme ++ rest)) (⟨kind, text, ⟨here.past gap, (here.past gap).past lexeme⟩⟩ :: tokens)

theorem Covers.space {here : Position} {c : Char} {rest : List Char} {tokens : List Token} (space : isSpace c = true)
    (covers : Covers (here.step c) rest tokens) : Covers here (c :: rest) tokens := by
  cases covers with
  | finish blank => exact .finish (List.forall_mem_cons.mpr ⟨space, blank⟩)
  | @token _ gap _ _ _ _ _ blank known spelled others =>
    exact @token here (c :: gap) _ _ _ _ _ (List.forall_mem_cons.mpr ⟨space, blank⟩) known spelled others

theorem covers_of_scanFrom {here : Position} {touching : Bool} {found tokens : List Token} {chars : List Char}
    (scanned : scanFrom here touching found chars = .ok tokens) :
    ∃ more, tokens = found.reverse ++ more ∧ Covers here chars more := by
  fun_induction scanFrom here touching found chars with
  | case1 here touching found =>
    cases scanned
    exact ⟨_, List.reverse_cons, .finish (by simp)⟩
  | case2 here touching found c rest shape ih =>
    obtain ⟨more, rfl, covers⟩ := ih scanned
    exact ⟨more, rfl, covers.space (isSpace_of_front shape)⟩
  | case3 here touching found c rest kind extent shape covered stop ih =>
    obtain ⟨more, rfl, covers⟩ := ih scanned
    refine ⟨⟨kind, textOf kind covered, ⟨here, stop⟩⟩ :: more, by simp, ?_⟩
    have token := @Covers.token here [] _ _ _ _ _ (by simp) (ofLexeme?_of_front shape) (spells_of_front shape) covers
    simpa [covered, stop] using token
  | case4 => cases scanned

/-! What the spans cut out of the source. -/

/-- What a token that is not the end of a source makes of the characters it covers. -/
structure Inner (token : Token) : Prop where
  other : token.kind ≠ .endOfInput
  nonempty : token.span.start.index < token.span.stop.index
  spelled : ∃ lexeme, token.span.text? = some (String.ofList lexeme) ∧ Kind.ofLexeme? lexeme = some token.kind ∧
    token.kind.Spells lexeme token.text

/-- The tokens make up the source. Between any two of them, and before the first one, are only spaces, and the
last one alone is at the end. -/
structure Tiling (source : Source) (tokens : List Token) : Prop where
  ordered : tokens.Pairwise fun left right => left.span.stop.index ≤ right.span.start.index
  gaps : (Span.empty (.start source) :: tokens.map Token.span).IsChain Span.Apart
  inner : ∀ token ∈ tokens.dropLast, token.Inner
  last : ∃ token, tokens.getLast? = some token ∧ token.kind = .endOfInput ∧ token.text = none ∧
    token.span.start.index = source.text.utf8ByteSize ∧ token.span.stop.index = source.text.utf8ByteSize

namespace Covers

variable {source : Source} {front chars : List Char} {here : Position} {tokens : List Token}

theorem some (covers : Covers here chars tokens) : tokens ≠ [] := by
  cases covers <;> simp

theorem starts (covers : Covers here chars tokens) : ∀ token ∈ tokens, here.index ≤ token.span.start.index := by
  induction covers with
  | finish =>
    simp only [List.mem_singleton, forall_eq, Span.empty, Position.index_past]
    omega
  | token _ _ _ _ ih =>
    refine List.forall_mem_cons.mpr ⟨?_, fun token member => ?_⟩
    · simp only [Position.index_past]
      omega
    · have later := ih token member
      simp only [Position.index_past] at later
      omega

theorem ordered (covers : Covers here chars tokens) :
    tokens.Pairwise fun left right => left.span.stop.index ≤ right.span.start.index := by
  induction covers with
  | finish => exact List.pairwise_singleton _ _
  | token _ _ _ others ih => exact List.pairwise_cons.mpr ⟨others.starts, ih⟩

theorem gaps (covers : Covers ((Position.start source).past front) chars tokens)
    (whole : source.text.toList = front ++ chars) {before : Span} (stop : before.stop = (Position.start source).past front) :
    (before :: tokens.map Token.span).IsChain Span.Apart := by
  generalize reached : (Position.start source).past front = here at covers stop
  induction covers generalizing front before with
  | @finish _ gap blank =>
    subst reached
    refine List.isChain_pair.mpr ⟨String.ofList gap, ?_, by simpa using blank⟩
    rw [stop]
    exact @Span.text?_past source front gap [] (by simpa using whole)
  | @token _ gap lexeme rest _ _ _ blank _ _ _ ih =>
    subst reached
    refine List.isChain_cons_cons.mpr ⟨⟨String.ofList gap, ?_, by simpa using blank⟩, ?_⟩
    · rw [stop]
      exact Span.text?_past whole
    · apply @ih (front ++ gap ++ lexeme)
      · simp [whole]
      · simp [Position.past_append]
      · rfl

theorem inner (covers : Covers ((Position.start source).past front) chars tokens)
    (whole : source.text.toList = front ++ chars) : ∀ token ∈ tokens.dropLast, token.Inner := by
  generalize reached : (Position.start source).past front = here at covers
  induction covers generalizing front with
  | finish => simp
  | @token _ gap lexeme rest _ _ _ blank known spelled others ih =>
    subst reached
    obtain ⟨c, more, rfl, found⟩ := front_of_ofLexeme? known
    rw [List.dropLast_cons_of_ne_nil others.some]
    refine List.forall_mem_cons.mpr ⟨⟨front_ne_end found, ?_, c :: more, ?_, known, spelled⟩, ?_⟩
    · have solid := Text.utf8Length_pos (List.cons_ne_nil c more)
      simp only [Position.index_past _ (c :: more)]
      omega
    · rw [← Position.past_append]
      exact Span.text?_past (by simpa using whole)
    · apply @ih (front ++ gap ++ c :: more)
      · simp [whole]
      · simp [Position.past_append]

theorem last (covers : Covers here chars tokens) :
    tokens.getLast? = Option.some ⟨.endOfInput, none, .empty (here.past chars)⟩ := by
  induction covers with
  | finish => rfl
  | @token here gap lexeme rest kind text tokens blank _ _ others ih =>
    rw [List.getLast?_cons_of_ne_nil others.some, ih]
    simp [Position.past_append]

end Covers

end Token

theorem covers_of_tokenize {source : Source} {tokens : List Token} (scanned : tokenize source = .ok tokens) :
    Token.Covers (.start source) source.text.toList tokens := by
  obtain ⟨more, rfl, covers⟩ := Token.covers_of_scanFrom scanned
  exact covers

/-- Layout and tokens make up the source, and what a token is can be read off its part of the source. -/
theorem tiling_of_tokenize {source : Source} {tokens : List Token} (scanned : tokenize source = .ok tokens) :
    Token.Tiling source tokens := by
  have covers := covers_of_tokenize scanned
  have gaps := @Token.Covers.gaps source [] _ _ covers rfl
  have inner := @Token.Covers.inner source [] _ _ covers rfl
  have ending : ((Position.start source).past source.text.toList).index = source.text.utf8ByteSize := by
    rw [Position.index_start_past, Text.utf8Length_toList]
  exact ⟨covers.ordered, gaps rfl, inner, _, covers.last, rfl, rfl, ending, ending⟩

/-- A name, a comment that a line break ends, an operator of two characters, a literal that holds a quote, and a
number with its sign. -/
def tiledSource : Source :=
  ⟨"", "x// é\n <<\"\\\"\"-5"⟩

def tiledSpan (start line column stop endLine endColumn : Nat) : Span :=
  ⟨⟨start, line, column, tiledSource⟩, ⟨stop, endLine, endColumn, tiledSource⟩⟩

def tiledTokens : List Token :=
  [⟨.identifier, some "x", tiledSpan 0 0 0 1 0 1⟩, ⟨.comment, some " é", tiledSpan 1 0 1 6 0 5⟩,
   ⟨.shiftLeft, none, tiledSpan 8 1 1 10 1 3⟩, ⟨.string, some "\\\"", tiledSpan 10 1 3 14 1 7⟩,
   ⟨.integer, some "-5", tiledSpan 14 1 7 16 1 9⟩, ⟨.endOfInput, none, tiledSpan 16 1 9 16 1 9⟩]

theorem tiling_tiledTokens : tokenize tiledSource = .ok tiledTokens ∧ Token.Tiling tiledSource tiledTokens :=
  have scanned : tokenize tiledSource = .ok tiledTokens := by cbv
  ⟨scanned, tiling_of_tokenize scanned⟩

end RecordLayout
