import RecordLayout.Proofs.Grammar.Stretches
import RecordLayout.Proofs.Span.Valid
import RecordLayout.Proofs.Token.Slice

/-! Spans say where things are written. What the span of a name, a type or a number covers is what stands for it, a
reference is scanned again to its segments, and operands are written one after another. What is not written stands
where the name or the type is for want of which it was put there. -/

namespace RecordLayout

open Grammar Located Phrase RecordLayout.Parser

/-- The span is a piece of the source that says this. -/
structure Span.Shows (source : Source) (span : Span) (text : String) : Prop where
  valid : span.Valid source
  covered : span.text? = some text

section

variable (source : Source)

def Name.Faithful (name : Name) : Prop :=
  name.span.Shows source name.text

/-- What the span covers is scanned to the segments with dots between them. -/
structure Path.Faithful (path : Path) : Prop where
  valid : path.span.Valid source
  scans : path.span.Scans ((path.segments.map fun segment => (.identifier, some segment)).intersperse (.dot, none))

/-- The span covers digits, perhaps with a sign, that stand for the number. -/
def Span.ShowsNumber (span : Span) (value : Int64) : Prop :=
  ∃ text, span.Shows source text ∧ Decimal.int64? text.toList = some value

/-- Operands follow one another, and an operator before an operand is in front of it. -/
def Expr.Faithful : Expr → Prop
  | int value span => span.ShowsNumber source value
  | float value span => ∃ text, span.Shows source text ∧ Decimal.float? text.toList = some value
  | ref path => path.Faithful source
  | unary _ operand span =>
    span.Valid source ∧ span.start.index < operand.span.start.index ∧ span.stop = operand.span.stop ∧ operand.Faithful
  | binary left _ right => left.span.stop.index ≤ right.span.start.index ∧ left.Faithful ∧ right.Faithful

def Condition.Faithful : Condition → Prop
  | relation left _ right =>
    left.span.stop.index ≤ right.span.start.index ∧ left.Faithful source ∧ right.Faithful source
  | junction left _ right => left.span.stop.index ≤ right.span.start.index ∧ left.Faithful ∧ right.Faithful

/-- Delimiters as they are written. -/
inductive Delimiter.Faithful : Delimiter → Prop where
  | string {text span} (shows : span.Shows source ("\"" ++ text ++ "\"")) : Faithful (.string text span)
  | char {text span} (shows : span.Shows source ("'" ++ text ++ "'")) : Faithful (.char text span)
  | decimal {value span} (shows : span.ShowsNumber source value) : Faithful (.int value span)
  | hex {value digits span} (valid : span.Valid source)
      (scans : span.Scans [(.backslash, none), (.identifier, some digits)])
      (read : hexEscape? digits.toList = some value) : Faithful (.int value span)
  | member {path} (faithful : path.Faithful source) : Faithful (.member path)

/-- A delimiter is written, or it is the zero byte of a string, and stands where the type is. -/
structure DataType.Faithful (type : DataType) : Prop where
  name : type.span.Shows source type.primitive.name
  delimiter : ∀ delimiter ∈ type.delimiter, delimiter.Faithful source ∨
    type.primitive = .string ∧ delimiter = .int 0 type.span

def Demands.faithful : Demands where
  name := Name.Faithful source
  path := Path.Faithful source
  expr := Expr.Faithful source
  condition := Condition.Faithful source
  type := DataType.Faithful source

end

/-! Tokens. -/

namespace Token.Inner

variable {token : Token} (inner : token.Inner)

include inner

theorem text?_plain (plain : token.kind ∈ [Kind.integer, .float, .identifier, .keyword, .dataType]) :
    token.span.text? = some token.content ∧ token.text = some token.content := by
  obtain ⟨lexeme, covered, _, spelled⟩ := inner.spelled
  have text : token.text = some (String.ofList lexeme) :=
    spelled.textOf_eq.symm.trans (textOf_whole plain lexeme)
  rw [content, text]
  exact ⟨covered, rfl⟩

theorem text?_quoted {quote : String}
    (literal : token.kind = .string ∧ quote = "\"" ∨ token.kind = .char ∧ quote = "'") :
    token.span.text? = some (quote ++ token.content ++ quote) := by
  obtain ⟨lexeme, covered, _, spelled⟩ := inner.spelled
  rw [content, covered]
  generalize token.kind = kind, token.text = text at spelled literal
  cases spelled with
  | whole plain => rcases literal with ⟨rfl, _⟩ | ⟨rfl, _⟩ <;> simp at plain
  | string | char =>
    obtain rfl : quote = _ := by simpa using literal
    simp [String.append_assoc]
  | comment => simp at literal
  | symbol spelled => rcases literal with ⟨rfl, _⟩ | ⟨rfl, _⟩ <;> cases spelled

theorem said_identifier (word : token.kind = .identifier) : token.said = (.identifier, some token.content) := by
  rw [said, word, (inner.text?_plain (by simp [word])).2]

theorem said_symbol {kind : Kind} {symbol : String} (mark : token.kind = kind) (spelled : kind.symbol? = some symbol) :
    token.said = (kind, none) := by
  obtain ⟨lexeme, _, _, spells⟩ := inner.spelled
  rw [said, ← spells.textOf_eq, mark, textOf_symbol spelled]

end Token.Inner

namespace Grammar

/-- Segments are said with a dot before each, and the last of them is the last token. -/
theorem said_segments {back others : List Token} (inner : ∀ token ∈ back, token.Inner)
    (more : Many (After .dot fun tokens segment => tokens = [segment] ∧ segment.kind = .identifier) back others)
    (first : Token) :
    ((.identifier, some first.content) :: back.map Token.said =
      (((first :: others).map Token.content).map fun segment => (Token.Kind.identifier, some segment)).intersperse
        (.dot, none)) ∧ back.getLastD first = others.getLastD first := by
  induction more generalizing first with
  | nil => exact ⟨rfl, rfl⟩
  | @cons _ back segment others link _ ih =>
    cases link with
    | @mk dot _ _ mark there =>
      obtain ⟨rfl, word⟩ := there
      obtain ⟨same, last⟩ := ih (fun token member => inner token (List.mem_append_right _ member)) segment
      have point : dot.said = (.dot, none) := (inner dot (by simp)).said_symbol mark rfl
      have name := (inner segment (by simp)).said_identifier word
      refine ⟨by simp [point, name, same], ?_⟩
      simpa only [List.cons_append, List.nil_append, List.getLastD_cons] using last

/-! Stretches of the tokens of a source. -/

variable {source : Source} {tokens : List Token}

/-- The tokens are next to each other in the source, comments apart. -/
def Adjoin (tokens stretch : List Token) : Prop :=
  stretch <:+: Token.meaningful tokens

theorem divides_adjoin : Divides (Adjoin tokens) where
  left whole := (List.prefix_append ..).isInfix.trans whole
  right whole := (List.suffix_append ..).isInfix.trans whole

variable (scanned : tokenize source = .ok tokens)

include scanned

theorem inner_of_adjoin {stretch : List Token} (adjoin : Adjoin tokens stretch) : ∀ token ∈ stretch, token.Inner :=
  fun token member => Token.inner_of_meaningful scanned token (adjoin.subset member)

theorem valid_of_adjoin {stretch : List Token} (adjoin : Adjoin tokens stretch) {span : Span}
    (spanned : Spanned stretch span) : span.Valid source :=
  valid_of_spanned (covers_of_tokenize scanned)
    (spanned.mono (adjoin.sublist.trans (Token.meaningful_sublist tokens)))

/-- What is in the first of two stretches ends before the second one begins. -/
theorem ordered_of_adjoin {front back : List Token} (adjoin : Adjoin tokens (front ++ back)) {first second : Span}
    (left : Spanned front first) (right : Spanned back second) : first.stop.index ≤ second.start.index := by
  have ordered := (Token.ordered_meaningful scanned).sublist adjoin.sublist
  cases left with
  | mk within =>
    cases right with
    | mk =>
      exact (List.pairwise_append.mp ordered).2.2 _ (List.mem_append_right _ within) _ (by simp)

/-- Between two that something keeps apart. -/
theorem apart_of_adjoin {front back : List Token} {between : Token} (adjoin : Adjoin tokens (front ++ between :: back))
    {first second : Span} (left : Spanned front first) (right : Spanned back second) :
    first.stop.index ≤ second.start.index :=
  ordered_of_adjoin scanned adjoin left (right.mono (List.sublist_cons_self ..))

theorem shows_plain {token : Token} (adjoin : Adjoin tokens [token])
    (plain : token.kind ∈ [Token.Kind.integer, .float, .identifier, .keyword, .dataType]) :
    token.span.Shows source token.content where
  valid := valid_of_adjoin scanned adjoin (spanned_token List.mem_cons_self)
  covered := ((inner_of_adjoin scanned adjoin token List.mem_cons_self).text?_plain plain).1

theorem shows_number {token : Token} {value : Int64} (adjoin : Adjoin tokens [token]) (literal : token.kind = .integer)
    (number : Decimal.Numeral 10 token.content.toList value) : token.span.ShowsNumber source value :=
  ⟨token.content, shows_plain scanned adjoin (by simp [literal]), Decimal.int64?_eq_some.mpr number⟩

theorem faithful_dotted : YieldsIn (Adjoin tokens) Dotted (Path.Faithful source) := by
  intro stretch path adjoin there
  have valid := valid_of_adjoin scanned adjoin ((places_dotted _ _ there).spanned List.mem_cons_self)
  have inner := inner_of_adjoin scanned adjoin
  cases there with
  | @mk first back others start more =>
    obtain ⟨same, last⟩ := said_segments (fun token member => inner token (List.mem_cons_of_mem _ member)) more first
    have scans := scans_of_stretch scanned adjoin (by simp [start])
    rw [List.map_cons, (inner first List.mem_cons_self).said_identifier start, same, last] at scans
    exact ⟨valid, scans⟩

/-! Expressions. -/

theorem faithful_signed {operand : Phrase Expr} (places : Places [] operand)
    (yields : YieldsIn (Adjoin tokens) operand (Expr.Faithful source)) :
    YieldsIn (Adjoin tokens) (Signed operand) (Expr.Faithful source) := by
  intro stretch value adjoin there
  have valid := valid_of_adjoin scanned adjoin ((places_signed places _ _ there).spanned value.span_mem_spans)
  have inner := inner_of_adjoin scanned adjoin
  cases there with
  | @mk token op back value _ _ before =>
    have inside := (places _ _ before).spanned value.span_mem_spans
    -- The operator covers something and the operand comes after it, so the operand begins strictly later.
    have sign : Spanned [token] token.span := spanned_token List.mem_cons_self
    have later : token.span.stop.index ≤ value.span.start.index := ordered_of_adjoin scanned adjoin sign inside
    have solid := (inner token List.mem_cons_self).nonempty
    exact ⟨valid, solid.trans_le later, rfl, yields _ _ (divides_adjoin.tail adjoin) before⟩

theorem faithful_factorOf {signed grouped : Phrase Expr}
    (signs : YieldsIn (Adjoin tokens) signed (Expr.Faithful source))
    (groups : YieldsIn (Adjoin tokens) grouped (Expr.Faithful source)) :
    YieldsIn (Adjoin tokens) (FactorOf signed grouped) (Expr.Faithful source) := by
  intro stretch value adjoin there
  cases there with
  | int literal number => exact shows_number scanned adjoin literal number
  | @float token _ literal read => exact ⟨token.content, shows_plain scanned adjoin (by simp [literal]), read⟩
  | ref dotted => exact faithful_dotted scanned _ _ adjoin dotted
  | signed there => exact signs _ _ adjoin there
  | grouped there => exact groups _ _ adjoin there

theorem faithful_operations {among : Operator → Prop} {operand : Phrase Expr} (places : Places [] operand)
    (yields : YieldsIn (Adjoin tokens) operand (Expr.Faithful source)) :
    YieldsIn (Adjoin tokens) (Operations among operand) (Expr.Faithful source) := by
  intro stretch value adjoin chain
  -- Along the chain, what stands before an operator is made up of the tokens before it.
  induction chain with
  | single only => exact yields _ _ adjoin only
  | more before operation ih =>
    cases operation with
    | mk _ _ there =>
      have first := (places_operations places _ _ before).spanned (Expr.span_mem_spans _)
      have second := (places _ _ there).spanned (Expr.span_mem_spans _)
      have behind := divides_adjoin.tail (divides_adjoin.right adjoin)
      exact ⟨apart_of_adjoin scanned adjoin first second, ih (divides_adjoin.left adjoin), yields _ _ behind there⟩

theorem faithful_sum {factor : Phrase Expr} (places : Places [] factor)
    (yields : YieldsIn (Adjoin tokens) factor (Expr.Faithful source)) :
    YieldsIn (Adjoin tokens) (Sum factor) (Expr.Faithful source) :=
  faithful_operations scanned (places_operations places) (faithful_operations scanned places yields)

theorem faithful_factor (depth : Nat) : YieldsIn (Adjoin tokens) (Factor depth) (Expr.Faithful source) := by
  induction depth with
  | zero => exact faithful_factorOf scanned .nothing .nothing
  | succ depth ih =>
    have places := places_factor depth
    exact faithful_factorOf scanned (faithful_signed scanned places ih)
      ((faithful_sum scanned places ih).inParens divides_adjoin)

theorem faithful_arithmetic (depth : Nat) : YieldsIn (Adjoin tokens) (Arithmetic depth) (Expr.Faithful source) :=
  faithful_sum scanned (places_factor depth) (faithful_factor scanned depth)

/-! Conditions. -/

theorem faithful_relationOf {operand : Phrase Expr} {inner : Phrase Condition} (places : Places [] operand)
    (operands : YieldsIn (Adjoin tokens) operand (Expr.Faithful source))
    (conditions : YieldsIn (Adjoin tokens) inner (Condition.Faithful source)) :
    YieldsIn (Adjoin tokens) (RelationOf operand inner) (Condition.Faithful source) := by
  intro stretch value adjoin there
  cases there with
  | compared leftSide related rightSide =>
    have first := (places _ _ leftSide).spanned (Expr.span_mem_spans _)
    have second := (places _ _ rightSide).spanned (Expr.span_mem_spans _)
    have behind := divides_adjoin.tail (divides_adjoin.right adjoin)
    exact ⟨apart_of_adjoin scanned adjoin first second, operands _ _ (divides_adjoin.left adjoin) leftSide,
      operands _ _ behind rightSide⟩
  | grouped inside => exact conditions.inParens divides_adjoin _ _ adjoin inside

theorem faithful_junction {op : Connective} {kind : Token.Kind} {item : Phrase Condition} (places : Places [] item)
    (yields : YieldsIn (Adjoin tokens) item (Condition.Faithful source)) :
    YieldsIn (Adjoin tokens) (Junction op kind item) (Condition.Faithful source) := by
  intro stretch value adjoin chain
  induction chain with
  | single only => exact yields _ _ adjoin only
  | more before link ih =>
    cases link with
    | mk mark there =>
      have first := (places_junction places _ _ before).spanned (Condition.span_mem_spans _)
      have second := (places _ _ there).spanned (Condition.span_mem_spans _)
      have behind := divides_adjoin.tail (divides_adjoin.right adjoin)
      exact ⟨apart_of_adjoin scanned adjoin first second, ih (divides_adjoin.left adjoin), yields _ _ behind there⟩

theorem faithful_logic (depth : Nat) : YieldsIn (Adjoin tokens) (Logic depth) (Condition.Faithful source) := by
  induction depth with
  | zero => exact .nothing
  | succ depth ih =>
    have places := places_relationOf (places_arithmetic depth) (places_logic depth)
    have relations := faithful_relationOf scanned (places_arithmetic depth) (faithful_arithmetic scanned depth) ih
    exact faithful_junction scanned (places_junction places) (faithful_junction scanned places relations)

/-! Types. -/

theorem faithful_ending : YieldsIn (Adjoin tokens) Ending (Delimiter.Faithful source) := by
  intro stretch delimiter adjoin there
  have inner := inner_of_adjoin scanned adjoin
  have spanned := places_ending _ _ there
  cases there with
  | string literal =>
    have valid := valid_of_adjoin scanned adjoin (spanned_token List.mem_cons_self)
    exact .string ⟨valid, (inner _ List.mem_cons_self).text?_quoted (.inl ⟨literal, rfl⟩)⟩
  | char literal =>
    have valid := valid_of_adjoin scanned adjoin (spanned_token List.mem_cons_self)
    exact .char ⟨valid, (inner _ List.mem_cons_self).text?_quoted (.inr ⟨literal, rfl⟩)⟩
  | int literal number => exact .decimal (shows_number scanned adjoin literal number)
  | @hex backslash digits value escape word byte =>
    have valid := valid_of_adjoin scanned adjoin (spanned.spanned List.mem_cons_self)
    have scans := scans_of_stretch scanned adjoin (by simp [escape])
    have point := (inner backslash List.mem_cons_self).said_symbol escape rfl
    have name := (inner digits (by simp)).said_identifier word
    rw [List.map_cons, List.map_singleton, point, name] at scans
    exact .hex valid scans (hexEscape?_eq_some.mpr byte)
  | member dotted => exact .member (faithful_dotted scanned _ _ adjoin dotted)

theorem shows_primitive {token : Token} {primitive : Primitive} (adjoin : Adjoin tokens [token])
    (word : token.kind = .dataType) (spelled : token.content = primitive.name) :
    token.span.Shows source primitive.name :=
  spelled ▸ shows_plain scanned adjoin (by simp [word])

theorem supplies_faithful (depth : Nat) : SuppliesIn (Adjoin tokens) depth (.faithful source) where
  divides := divides_adjoin
  name token adjoin word := shows_plain scanned adjoin (by simp [word])
  path := faithful_dotted scanned
  expr := faithful_arithmetic scanned depth
  condition inner _ := faithful_logic scanned inner
  bare token primitive adjoin word spelled _ := ⟨shows_primitive scanned adjoin word spelled, by simp⟩
  zeroByte token adjoin word spelled := by
    refine ⟨shows_primitive scanned adjoin word spelled, fun delimiter given => .inr ⟨rfl, ?_⟩⟩
    simpa using given.symm
  delimited token primitive stretch delimiter adjoin word spelled _ behind ending := by
    refine ⟨shows_primitive scanned adjoin word spelled, fun found given => .inl ?_⟩
    obtain rfl := Option.some.inj given
    exact (faithful_ending scanned).inParens divides_adjoin _ _ behind ending

end Grammar

/-- What is read from a source stands there as it is in what is read. -/
theorem faithful_of_parse {nesting : Nat} {source : Source} {declared : List Declaration}
    (accepted : parse nesting source = .ok declared) :
    ∀ declaration ∈ declared, declaration.MeetsWritten (.faithful source) := by
  obtain ⟨tokens, scanned, there⟩ := parse_eq_ok.mp accepted
  exact yieldsIn_description (supplies_faithful scanned nesting) _ _ List.infix_rfl there

/-- A comment inside a reference, an operator before a parenthesis, a string that ends at a zero byte, and a member of
a bitfield without a size. -/
def writtenSource : Source :=
  ⟨"", "struct s\x7bstring[-(a.// é\nb+1)==c]x,\x7d\nbitfield f\x7bp,\x7d"⟩

def writtenSpan (start line column stop endLine endColumn : Nat) : Span :=
  ⟨⟨start, line, column, writtenSource⟩, ⟨stop, endLine, endColumn, writtenSource⟩⟩

def writtenPath : Path :=
  ⟨["a", "b"], writtenSpan 18 0 18 27 1 1⟩

def writtenCondition : Condition :=
  .relation (.unary .sub (.binary (.ref writtenPath) .add (.int 1 (writtenSpan 28 1 2 29 1 3)))
    (writtenSpan 16 0 16 29 1 3)) .equal (.ref ⟨["c"], writtenSpan 32 1 6 33 1 7⟩)

def writtenType : DataType :=
  ⟨.string, some (.int 0 (writtenSpan 9 0 9 15 0 15)), writtenSpan 9 0 9 15 0 15⟩

def writtenDeclarations : List Declaration :=
  [.struct ⟨⟨"s", writtenSpan 7 0 7 8 0 8⟩, .fixed .big, [.member ⟨⟨"x", writtenSpan 34 1 8 35 1 9⟩,
      .plain (.data writtenType), .fixed .big, some (.whileTrue writtenCondition)⟩]⟩,
    .bitfield ⟨⟨"f", writtenSpan 47 2 9 48 2 10⟩, none,
      [⟨⟨"p", writtenSpan 49 2 11 50 2 12⟩, .int 1 (writtenSpan 49 2 11 50 2 12)⟩]⟩]

theorem faithful_writtenDeclarations :
    parse 16 writtenSource = .ok writtenDeclarations ∧
    (∀ declaration ∈ writtenDeclarations, declaration.MeetsWritten (.faithful writtenSource)) ∧
    writtenPath.span.text? = some "a.// é\nb" ∧ writtenCondition.Faithful writtenSource := by
  have accepted : parse 16 writtenSource = .ok writtenDeclarations := by cbv
  have faithful := faithful_of_parse accepted
  have path : writtenPath.span.text? = some "a.// é\nb" := by cbv
  have struct := faithful _ List.mem_cons_self
  exact ⟨accepted, faithful, path, (struct.items _ List.mem_cons_self).info.repetition _ rfl⟩

end RecordLayout
