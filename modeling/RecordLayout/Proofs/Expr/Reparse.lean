import RecordLayout.Proofs.Declaration.WellFormed
import RecordLayout.Proofs.Expr.ConditionText

/-! Whatever expression or condition a description holds, its text is read as that expression or condition
again where the length of a list stands. -/

namespace RecordLayout

open Grammar Phrase RecordLayout.Parser Token

/-- A struct with one member, a list with the text as its length. -/
def listSource (id text : String) : Source :=
  ⟨id, "struct t \x7b uint8[" ++ text ++ "] x, \x7d"⟩

/-- The declarations are a struct with one member, which repeats in the way given. -/
inductive IsList : List Declaration → Repetition → Prop where
  | mk {name order member repetition} (repeated : member.info.repetition = some repetition) :
      IsList [.struct ⟨name, order, [.member member]⟩] repetition

/-- The tokens before the brackets. -/
def IsListStart (tokens : List Token) : Prop :=
  Solid tokens ∧ ∃ word name opening type, tokens = [word, name, opening, type] ∧
    word.IsWord "struct" ∧ name.kind = .identifier ∧ opening.kind = .leftBrace ∧
    type.kind = .dataType ∧ type.content = Primitive.name (.unsigned .w8)

/-- The tokens after the brackets. -/
def IsListEnd (tokens : List Token) : Prop :=
  Solid tokens ∧ ∃ name comma closing, tokens = [name, comma, closing] ∧ name.kind = .identifier ∧
    comma.kind = .comma ∧ closing.kind = .rightBrace

theorem description_of_repeated {depth : Nat} {front back tokens : List Token} {repetition : Repetition}
    (start : IsListStart front) (repeated : Repeated depth tokens repetition) (ending : IsListEnd back) :
    ∃ declared, Description depth (front ++ (tokens ++ back)) declared ∧ IsList declared repetition := by
  obtain ⟨_, word, name, opening, type, rfl, keyword, isName, opens, isType, spelled⟩ := start
  obtain ⟨_, field, comma, closing, rfl, isField, ends, closes⟩ := ending
  have typed : Typed depth ([type] ++ tokens) (.plain (.data ⟨.unsigned .w8, none, type.span⟩), some repetition) :=
    .data (.bare isType spelled) (.present repeated) (.fixedSize (by simp [Primitive.IsDelimited]))
  have info : Info depth (.fixed .big) ([] ++ ([type] ++ tokens)) _ := .mk .absent typed
  have item : Item depth (.fixed .big) ([] ++ ([type] ++ tokens) ++ [field, comma]) _ :=
    .member (.mk info isField ends)
  have block : StructBlock depth
      ([] ++ word :: name :: opening :: ([] ++ ([type] ++ tokens) ++ [field, comma] ++ [] ++ [closing])) _ :=
    .mk .absent keyword isName opens (.cons item .nil) closes
  have description := Many.cons (Declared.struct block) .nil
  have same : [] ++ word :: name :: opening :: ([] ++ ([type] ++ tokens) ++ [field, comma] ++ [] ++ [closing]) ++ [] =
      [word, name, opening, type] ++ (tokens ++ [field, comma, closing]) := by
    simp
  rw [same] at description
  exact ⟨_, description, .mk rfl⟩

def listStart : List Char :=
  ['s', 't', 'r', 'u', 'c', 't'] ++ ' ' :: (['t'] ++ ' ' :: (['\x7b'] ++ ' ' :: ['u', 'i', 'n', 't', '8']))

def listEnd : List Char :=
  ' ' :: (['x'] ++ ([','] ++ ' ' :: ['\x7d']))

theorem finds_listStart {rest : List Char} : Finds listStart ('[' :: rest) IsListStart := by
  have word (rest) : Finds ['s', 't', 'r', 'u', 'c', 't'] (' ' :: rest) (IsOne .keyword _) :=
    finds_lexeme (by decide) (by decide) (by decide) fun d first => by cases first; decide
  have name (rest) : Finds ['t'] (' ' :: rest) (IsOne .identifier _) :=
    finds_lexeme (by decide) (by decide) (by decide) fun d first => by cases first; decide
  have opening (rest) : Finds ['\x7b'] rest (IsOne .leftBrace _) := finds_mark rfl (by decide)
  have type (rest) : Finds ['u', 'i', 'n', 't', '8'] ('[' :: rest) (IsOne .dataType _) :=
    finds_lexeme (by decide) (by decide) (by decide) fun d first => by cases first; decide
  have line := (word _).append ((name _).append ((opening _).append (type rest).space).space).space
  apply line.mono
  intro tokens found
  obtain ⟨_, _, same, word, _, _, nameNext, name, _, _, openingNext, opening, type⟩ := found
  obtain ⟨word, rfl, isWord, wordText⟩ := word
  obtain ⟨name, rfl, isName, _⟩ := name
  obtain ⟨opening, rfl, opens, _⟩ := opening
  obtain ⟨type, rfl, isType, typeText⟩ := type
  subst same nameNext openingNext
  have keyword : word.IsWord "struct" := by
    simp [IsWord, content, isWord, wordText, textOf]
  have spelled : type.content = Primitive.name (.unsigned .w8) := by
    simp only [content, typeText, textOf]
    decide
  exact ⟨by simp [Solid, isWord, isName, opens, isType], word, name, opening, type, rfl, keyword, isName, opens,
    isType, spelled⟩

theorem finds_listEnd : Finds listEnd [] IsListEnd := by
  have name (rest) : Finds ['x'] (',' :: rest) (IsOne .identifier _) :=
    finds_lexeme (by decide) (by decide) (by decide) fun d first => by cases first; decide
  have comma (rest) : Finds [','] rest (IsOne .comma _) := finds_mark rfl (by decide)
  have closing : Finds ['\x7d'] [] (IsOne .rightBrace _) := finds_mark rfl (by decide)
  have line := ((name _).append ((comma _).append closing.space)).space
  apply line.mono
  intro tokens found
  obtain ⟨_, _, same, name, _, _, commaNext, comma, closing⟩ := found
  obtain ⟨name, rfl, isName, _⟩ := name
  obtain ⟨comma, rfl, ends, _⟩ := comma
  obtain ⟨closing, rfl, closes, _⟩ := closing
  subst same commaNext
  exact ⟨by simp [Solid, isName, ends, closes], name, comma, closing, rfl, isName, ends, closes⟩

theorem finds_bracketed {phrase : Nat → Phrase α} {wanted : α → Prop} {wrap : α → Repetition} {chars : List Char}
    (wraps : ∀ depth first tokens value last, first.kind = .leftBracket → phrase depth tokens value →
      last.kind = .rightBracket → Repeated depth (first :: (tokens ++ [last])) (wrap value))
    (inside : Finds chars (']' :: listEnd) (Spells phrase wanted)) :
    Finds ('[' :: (chars ++ [']'])) listEnd
      (Spells Repeated fun repetition => ∃ value, repetition = wrap value ∧ wanted value) := by
  have closes : Finds [']'] listEnd (IsOne .rightBracket [']']) :=
    finds_closing rfl (by decide) (by simp [listEnd])
  exact finds_enclosed wraps (by decide) (finds_mark rfl (by decide)) inside closes

theorem finds_list {id text : String} {wanted : Repetition → Prop}
    (inside : Finds ('[' :: (text.toList ++ [']'])) listEnd (Spells Repeated wanted)) :
    Finds (listSource id text).text.toList []
      (Spells Description fun declared => ∃ repetition, IsList declared repetition ∧ wanted repetition) := by
  have line := finds_listStart.append (inside.append finds_listEnd)
  have spelled : (listSource id text).text.toList = listStart ++ ('[' :: (text.toList ++ [']']) ++ listEnd) := by
    simp [listSource, listStart, listEnd]
  rw [spelled]
  apply line.mono
  intro tokens found
  obtain ⟨front, _, same, start, middle, back, tail, ⟨solid, depth, repetition, there, wanted⟩, ending⟩ := found
  subst same tail
  obtain ⟨declared, description, list⟩ := description_of_repeated start there ending
  have whole := start.1.append (solid.append ending.1)
  exact ⟨whole, depth, declared, description, repetition, list, wanted⟩

theorem parse_of_solid {depth nesting : Nat} {source : Source} {tokens : List Token} {last : Token}
    {declared : List Declaration} (scanned : tokenize source = .ok (tokens ++ [last])) (ends : last.kind = .endOfInput)
    (solid : Solid tokens) (there : Description depth tokens declared) (deeper : depth ≤ nesting) :
    parse nesting source = .ok declared := by
  have all : tokens.filter (·.kind ≠ .comment) = tokens :=
    List.filter_eq_self.mpr fun token member => by simp [solid token member]
  have left : meaningful (tokens ++ [last]) = tokens := by
    rw [Declaration.meaningful_append_end (fun token member => (solid token member).2) ends, all]
  have description : Description nesting (meaningful (tokens ++ [last])) declared := by
    rw [left]
    exact within_description (.inl deeper) _ _ (Nat.le_refl _) there
  exact parse_eq_ok.mpr ⟨tokens ++ [last], scanned, description⟩

theorem parse_of_finds {source : Source} {wanted : List Declaration → Prop}
    (finds : Finds source.text.toList [] (Spells Description wanted)) :
    ∃ bound declared, wanted declared ∧ ∀ nesting, bound ≤ nesting → parse nesting source = .ok declared := by
  obtain ⟨tokens, last, scanned, ⟨solid, depth, declared, there, wanted⟩, ends⟩ := tokenize_of_finds finds
  exact ⟨depth, declared, wanted, fun nesting deeper => parse_of_solid scanned ends solid there deeper⟩

theorem finds_count {expr : Expr} (readable : expr.Readable) (floatFree : expr.FloatFree) :
    Finds ('[' :: (expr.text.toList ++ [']'])) listEnd
      (Spells Repeated fun repetition => ∃ amount, repetition = .count amount ∧ expr.foldSigns.UpToSpans amount) := by
  apply finds_bracketed fun _ _ _ _ _ opens inside closes => .count opens inside closes
  exact (finds_expr readable floatFree (by simp [Stops])).mono fun tokens => spells_arithmetic

theorem finds_whileTrue {condition : Condition} (readable : condition.Readable) (floatFree : condition.FloatFree) :
    Finds ('[' :: (condition.text.toList ++ [']'])) listEnd
      (Spells Repeated fun repetition => ∃ found, repetition = .whileTrue found ∧
        condition.foldSigns.UpToSpans found) := by
  apply finds_bracketed fun _ _ _ _ _ opens inside closes => .whileTrue opens inside closes
  apply (Condition.finds_condition readable floatFree (by simp [Stops])).mono
  intro tokens spells
  obtain ⟨solid, depth, found, there, wanted⟩ := spells
  exact ⟨solid, depth + 1, found, Condition.logic_of_item there, wanted⟩

/-- A literal that a minus stands before comes back as one negative literal, which changes no value. -/
theorem parse_text_of_occurs {limit : Nat} {source : Source} {declared : List Declaration}
    (accepted : parse limit source = .ok declared) (id : String) :
    (∀ expr : Expr, expr.Occurs declared → expr.FloatFree →
      ∃ bound again amount, IsList again (.count amount) ∧
        amount.forgetSpans = expr.foldSigns.forgetSpans ∧ amount.constant? = expr.constant? ∧
        ∀ nesting, bound ≤ nesting → parse nesting (listSource id expr.text) = .ok again) ∧
    (∀ condition : Condition, condition.Occurs declared → condition.FloatFree →
      ∃ bound again found, IsList again (.whileTrue found) ∧
        found.forgetSpans = condition.foldSigns.forgetSpans ∧
        ∀ nesting, bound ≤ nesting → parse nesting (listSource id condition.text) = .ok again) := by
  obtain ⟨tokens, named, there⟩ := description_of_parse accepted
  constructor
  · intro expr occurs floatFree
    have readable : expr.Readable := readable_expr named there occurs
    have finds := @finds_list id _ _ (finds_count readable floatFree)
    obtain ⟨bound, again, ⟨_, list, amount, rfl, same⟩, accepts⟩ := parse_of_finds finds
    have value : amount.constant? = expr.constant? :=
      (Expr.constant?_of_forgetSpans same).trans expr.constant?_foldSigns
    exact ⟨bound, again, amount, list, same, value, accepts⟩
  · intro condition occurs floatFree
    have readable : condition.Readable := readable_condition named there occurs
    have finds := @finds_list id _ _ (finds_whileTrue readable floatFree)
    obtain ⟨bound, again, ⟨_, list, found, rfl, same⟩, accepts⟩ := parse_of_finds finds
    exact ⟨bound, again, found, list, same, accepts⟩

/-- A list that goes on while `- 5 < x`, with a space behind the minus. -/
def signedSource : Source :=
  ⟨"", "struct s\x7buint8[- 5<x]y,\x7d"⟩

def signedSpan (start stop : Nat) : Span :=
  ⟨⟨start, 0, start, signedSource⟩, ⟨stop, 0, stop, signedSource⟩⟩

def signedCondition : Condition :=
  .relation (.unary .sub (.int 5 (signedSpan 17 18)) (signedSpan 15 18)) .less (.ref ⟨["x"], signedSpan 19 20⟩)

def signedMember : Member :=
  ⟨⟨"y", signedSpan 21 22⟩, .plain (.data ⟨.unsigned .w8, none, signedSpan 9 14⟩), .fixed .big,
    some (.whileTrue signedCondition)⟩

def signedStruct : StructDef :=
  ⟨⟨"s", signedSpan 7 8⟩, .fixed .big, [.member signedMember]⟩

theorem parse_text_of_signedSource :
    parse 16 signedSource = .ok [.struct signedStruct] ∧
    (∃ bound again amount, IsList again (.count amount) ∧ amount.forgetSpans = .int (-5) .nowhere ∧
      ∀ nesting, bound ≤ nesting → parse nesting (listSource "" "(-5)") = .ok again) ∧
    ∃ bound again found, IsList again (.whileTrue found) ∧
      found.forgetSpans = .relation (.int (-5) .nowhere) .less (.ref ⟨["x"], .nowhere⟩) ∧
      ∀ nesting, bound ≤ nesting → parse nesting (listSource "" "((-5) < x)") = .ok again := by
  have accepted : parse 16 signedSource = .ok [.struct signedStruct] := by cbv
  have used : signedStruct.Uses signedMember.info := .plain List.mem_cons_self
  have occurs : signedCondition.Occurs [.struct signedStruct] :=
    .struct (by simp) (.info used (.repetition rfl))
  obtain ⟨exprs, conditions⟩ := parse_text_of_occurs accepted ""
  obtain ⟨bound, again, amount, list, same, _, accepts⟩ := exprs _ (.leftSide occurs) trivial
  have found := conditions _ occurs ⟨trivial, trivial⟩
  exact ⟨accepted, ⟨bound, again, amount, list, same, accepts⟩, found⟩

end RecordLayout
