import RecordLayout.Proofs.Decimal.Word
import RecordLayout.Proofs.Expr.Readable
import RecordLayout.Proofs.Expr.Signs
import RecordLayout.Proofs.Grammar.Depth
import RecordLayout.Proofs.Token.Finds

/-! The text of an expression is scanned to tokens that make up the expression again, since every
operation has its parentheses and every operator between operands has spaces around it. The one thing
that is lost is a minus before a literal: it touches the literal and becomes its sign. -/

namespace RecordLayout

open Grammar Phrase RecordLayout.Parser Token

/-- Nothing among the tokens is passed over. -/
def Solid (tokens : List Token) : Prop :=
  ∀ token ∈ tokens, token.kind ≠ .comment ∧ token.kind ≠ .endOfInput

/-- The tokens make up a value of the kind wanted, nested to some depth. -/
def Spells (phrase : Nat → Phrase α) (wanted : α → Prop) (tokens : List Token) : Prop :=
  Solid tokens ∧ ∃ depth value, phrase depth tokens value ∧ wanted value

theorem Solid.append {tokens others : List Token} (first : Solid tokens) (second : Solid others) :
    Solid (tokens ++ others) := by
  intro token member
  rcases List.mem_append.mp member with member | member
  · exact first token member
  · exact second token member

theorem Token.IsOne.solid {kind : Token.Kind} {chars : List Char} {tokens : List Token}
    (one : IsOne kind chars tokens) (kept : kind ≠ .comment ∧ kind ≠ .endOfInput) : Solid tokens := by
  obtain ⟨token, rfl, same, _⟩ := one
  simpa [Solid, same] using kept

/-! The kinds of token that operators are. -/

namespace Operator

theorem symbol?_kind (op : Operator) : op.kind.symbol? = some op.symbol := by
  cases op <;> rfl

theorem kind_plain (op : Operator) :
    op.kind ≠ .comment ∧ op.kind ≠ .endOfInput ∧ op.kind.endsOperand = false := by
  cases op <;> decide

theorem sub_of_kind {op : Operator} (minus : op.kind = .minus) : op = .sub := by
  cases op <;> first | rfl | cases minus

end Operator

/-! Characters that may follow. -/

/-- The next character goes on with no operand. -/
def Stops (rest : List Char) : Prop :=
  ∀ d ∈ rest.head?, d = ' ' ∨ d = ')' ∨ d = ']'

theorem Stops.next {rest : List Char} (stops : Stops rest) :
    ∀ d ∈ rest.head?, isWordChar d = false ∧ d.isDigit = false ∧ d ≠ '.' ∧ d ≠ '-' ∧ isGlue d = false := by
  intro d first
  rcases stops d first with rfl | rfl | rfl <;> decide

theorem isGlue_of_range {c : Char} (range : 48 ≤ c.toNat ∧ c.toNat ≤ 57 ∨ 65 ≤ c.toNat ∧ c.toNat ≤ 122) :
    isGlue c = false := by
  apply Bool.eq_false_iff.mpr
  intro glue
  simp only [isGlue, Bool.or_eq_true, beq_iff_eq] at glue
  rcases glue with ((((rfl | rfl) | rfl) | rfl) | rfl) | rfl <;> revert range <;> decide

/-! Words and paths. -/

theorem finds_word {word : String} {rest : List Char} (name : IsName word)
    (stop : ∀ d ∈ rest.head?, isWordChar d = false ∧ d ≠ '-') :
    Finds word.toList rest fun tokens => Solid tokens ∧
      ∃ token, tokens = [token] ∧ token.kind = .identifier ∧ token.content = word := by
  obtain ⟨⟨c, more, same, letter, inside⟩, free⟩ := name
  have spelled : String.ofList (c :: more) = word := by rw [← same, String.ofList_toList]
  have known : wordKind (String.ofList (c :: more)) = .identifier := spelled ▸ wordKind_eq_identifier.mpr free
  rw [same]
  apply (finds_lexeme known letter (List.all_eq_true.mpr fun d member => isWordChar_iff.mpr (inside d member)) stop).mono
  intro tokens one
  have solid := one.solid ⟨by decide, by decide⟩
  obtain ⟨token, rfl, kind, text⟩ := one
  exact ⟨solid, token, rfl, kind, by simp [Token.content, text, textOf, spelled]⟩

/-- Segments with a dot before each. -/
def dotted (segments : List String) : List Char :=
  segments.flatMap fun segment => '.' :: segment.toList

theorem toList_intercalate_dots (first : String) (more : List String) :
    (".".intercalate (first :: more)).toList = first.toList ++ dotted more := by
  induction more generalizing first with
  | nil => simp [dotted]
  | cons next more ih =>
    rw [String.intercalate_cons_cons, String.toList_append, String.toList_append, ih]
    simp [dotted]

/-- Names found again, each behind a dot. -/
def Segments (segments : List String) (tokens : List Token) : Prop :=
  Solid tokens ∧ ∃ found,
    Many (After .dot fun tokens segment => tokens = [segment] ∧ segment.kind = .identifier) tokens found ∧
      found.map Token.content = segments

theorem isGlue_of_isAlpha {c : Char} (letter : c.isAlpha = true) : isGlue c = false := by
  have range := toNat_of_isAlpha letter
  exact isGlue_of_range (by omega)

theorem finds_dotted {segments : List String} {rest : List Char}
    (names : ∀ segment ∈ segments, IsName segment) (stops : Stops rest) :
    Finds (dotted segments) rest (Segments segments) := by
  induction segments with
  | nil => exact .nil ⟨by simp [Solid], [], .nil, rfl⟩
  | cons segment segments ih =>
    have name := names segment (by simp)
    have others := ih fun other member => names other (by simp [member])
    have stop : ∀ d ∈ (dotted segments ++ rest).head?, isWordChar d = false ∧ d ≠ '-' := by
      cases segments with
      | nil => exact fun d first => ⟨(stops.next d first).1, (stops.next d first).2.2.2.1⟩
      | cons next segments =>
        intro d first
        cases first
        exact ⟨by decide, by decide⟩
    have dot : Finds ['.'] (segment.toList ++ dotted segments ++ rest) (IsOne .dot ['.']) :=
      finds_mark rfl (by decide)
    have line := dot.append ((finds_word name stop).append others)
    apply line.mono
    intro tokens ⟨_, _, same, one, _, back, rest, ⟨wordSolid, word, only, kind, content⟩, solid, found, many,
      contents⟩
    have dotSolid := one.solid ⟨by decide, by decide⟩
    obtain ⟨mark, rfl, isDot, _⟩ := one
    subst same rest only
    refine ⟨dotSolid.append (wordSolid.append solid), word :: found, ?_, by simp [content, contents]⟩
    have item : After .dot (fun tokens segment => tokens = [segment] ∧ segment.kind = .identifier)
        [mark, word] word := .mk isDot ⟨rfl, kind⟩
    have items := Many.cons item many
    exact items

theorem finds_path {path : Path} {rest : List Char} (some : path.segments ≠ [])
    (names : ∀ segment ∈ path.segments, IsName segment) (stops : Stops rest) :
    Finds path.name.toList rest fun tokens => Solid tokens ∧
      ∃ found, Dotted tokens found ∧ found.segments = path.segments := by
  obtain ⟨segments, span⟩ := path
  cases segments with
  | nil => exact absurd rfl some
  | cons first more =>
    have others : Finds (dotted more) rest (Segments more) :=
      finds_dotted (fun segment member => names segment (by simp [member])) stops
    have stop : ∀ d ∈ (dotted more ++ rest).head?, isWordChar d = false ∧ d ≠ '-' := by
      cases more with
      | nil => exact fun d first => ⟨(stops.next d first).1, (stops.next d first).2.2.2.1⟩
      | cons next more =>
        intro d first
        cases first
        exact ⟨by decide, by decide⟩
    have line := (finds_word (names first (by simp)) stop).append others
    have spelled : (Path.mk (first :: more) span).name.toList = first.toList ++ dotted more :=
      toList_intercalate_dots first more
    rw [spelled]
    apply line.mono
    intro tokens ⟨_, back, same, ⟨wordSolid, word, only, kind, content⟩, solid, found, many, contents⟩
    subst same only
    exact ⟨wordSolid.append solid, _, .mk kind many, by simp [content, contents]⟩

/-! Literals. -/

theorem finds_digits {size : Nat} {rest : List Char} (stops : Stops rest) :
    Finds (Nat.toDigits 10 size) rest (IsOne .integer (Nat.toDigits 10 size)) := by
  have digits : ∀ d ∈ Nat.toDigits 10 size, d.isDigit = true := fun d member =>
    Nat.isDigit_of_mem_toDigits (by decide) (by decide) member
  cases shape : Nat.toDigits 10 size with
  | nil => exact absurd shape Nat.toDigits_ne_nil
  | cons c more =>
    rw [shape] at digits
    apply finds_token (front_digits (digits c (by simp)) (fun d member => digits d (by simp [member])) _)
    · exact fun _ d first => (stops.next d first).2.2.2.1
    · exact fun d first => ⟨(stops.next d first).2.1, (stops.next d first).2.2.1⟩

theorem finds_negative {size : Nat} {rest : List Char} (stops : Stops rest) :
    Finds ('-' :: Nat.toDigits 10 size) rest (IsOne .integer ('-' :: Nat.toDigits 10 size)) := by
  have digits : ∀ d ∈ Nat.toDigits 10 size, d.isDigit = true := fun d member =>
    Nat.isDigit_of_mem_toDigits (by decide) (by decide) member
  apply finds_token (front_negative Nat.toDigits_ne_nil digits _)
  · exact fun _ d first => (stops.next d first).2.2.2.1
  · exact fun d first => ⟨(stops.next d first).2.1, (stops.next d first).2.2.1⟩

/-- The condition that an expression is the wanted one up to places. -/
def Expr.UpToSpans (wanted found : Expr) : Prop :=
  found.forgetSpans = wanted.forgetSpans

theorem spells_int {chars : List Char} {value : Int64} {span : Span} {tokens : List Token}
    (number : Decimal.Numeral 10 chars value) (one : IsOne .integer chars tokens) :
    Spells Factor (Expr.UpToSpans (.int value span)) tokens := by
  have solid := one.solid ⟨by decide, by decide⟩
  obtain ⟨token, rfl, literal, text⟩ := one
  have content : token.content = String.ofList chars := by simp [Token.content, text, textOf]
  refine ⟨solid, 0, .int value token.span, .int literal ?_, rfl⟩
  rwa [content, String.toList_ofList]

theorem finds_int {value : Int64} {span : Span} {rest : List Char} (stops : Stops rest) :
    Finds (toString value.toInt).toList rest (Spells Factor (Expr.UpToSpans (.int value span))) := by
  have read := Decimal.int64?_toString value
  have one : Finds (toString value.toInt).toList rest (IsOne .integer (toString value.toInt).toList) := by
    cases value.toInt with
    | ofNat size =>
      have digits : (toString (Int.ofNat size)).toList = Nat.toDigits 10 size :=
        Decimal.toList_toString_ofNat size
      exact digits ▸ finds_digits stops
    | negSucc size => exact Decimal.toList_toString_negSucc size ▸ finds_negative stops
  exact one.mono fun tokens => spells_int (Decimal.int64?_eq_some.mp read)

/-! Parentheses. -/

theorem isGlue_of_isDigit {c : Char} (digit : c.isDigit = true) : isGlue c = false := by
  have range := toNat_of_isDigit digit
  exact isGlue_of_range (by omega)

/-- A phrase between two marks, which may be all of a larger one. -/
theorem finds_enclosed {phrase : Nat → Phrase α} {outer : Nat → Phrase β} {wanted : α → Prop} {wrap : α → β}
    {left right : Token.Kind} {opening closing : Char} {chars rest : List Char}
    (wraps : ∀ depth first tokens value last, first.kind = left → phrase depth tokens value →
      last.kind = right → outer depth (first :: (tokens ++ [last])) (wrap value))
    (marks : (left ≠ .comment ∧ left ≠ .endOfInput) ∧ right ≠ .comment ∧ right ≠ .endOfInput)
    (opens : Finds [opening] (chars ++ [closing] ++ rest) (IsOne left [opening]))
    (inside : Finds chars (closing :: rest) (Spells phrase wanted))
    (closes : Finds [closing] rest (IsOne right [closing])) :
    Finds (opening :: (chars ++ [closing])) rest
      (Spells outer fun found => ∃ value, found = wrap value ∧ wanted value) := by
  have line := opens.append (Finds.append inside closes)
  apply line.mono
  intro tokens ⟨_, _, same, first, inner, _, tail, ⟨solid, depth, value, there, wanted⟩, last⟩
  have firstSolid := first.solid marks.1
  have lastSolid := last.solid marks.2
  obtain ⟨first, rfl, isLeft, _⟩ := first
  obtain ⟨last, rfl, isRight, _⟩ := last
  subst same tail
  have whole := wraps depth first inner value last isLeft there isRight
  exact ⟨firstSolid.append (solid.append lastSolid), depth, _, whole, value, rfl, wanted⟩

theorem finds_inParens {phrase : Nat → Phrase α} {wanted : α → Prop} {chars rest : List Char} (stops : Stops rest)
    (inside : Finds chars (')' :: rest) (Spells phrase wanted)) :
    Finds ('(' :: (chars ++ [')'])) rest (Spells (fun depth => InParens (phrase depth)) wanted) := by
  have closes : Finds [')'] rest (IsOne .rightParen [')']) :=
    finds_closing rfl (by decide) fun d first => (stops.next d first).2.2.2.1
  have wraps (depth first tokens value last) (opens : Token.kind first = .leftParen)
      (there : phrase depth tokens value) (closes : Token.kind last = .rightParen) :
      InParens (phrase depth) (first :: (tokens ++ [last])) (id value) := .mk opens there closes
  apply (finds_enclosed wraps (by decide) (finds_mark rfl (by decide)) inside closes).mono
  intro tokens ⟨solid, depth, found, there, value, same, wanted⟩
  exact ⟨solid, depth, found, there, same ▸ wanted⟩

/-! Two operands and what stands between them. -/

/-- What nests to some depth nests to any larger one. -/
def Rises (phrase : Nat → Phrase α) : Prop :=
  ∀ depth other tokens value, depth ≤ other → phrase depth tokens value → phrase other tokens value

def Between (phrase : Nat → Phrase α) (kind : Token.Kind) (leftWanted rightWanted : α → Prop)
    (tokens : List Token) : Prop :=
  Solid tokens ∧ ∃ depth front token back left right, tokens = front ++ token :: back ∧ token.kind = kind ∧
    phrase depth front left ∧ phrase depth back right ∧ leftWanted left ∧ rightWanted right

theorem finds_between {phrase : Nat → Phrase α} {kind : Token.Kind} {symbol : String}
    {leftWanted rightWanted : α → Prop} {front back rest : List Char} (rises : Rises phrase)
    (spelled : kind.symbol? = some symbol)
    (operator : kind ≠ .comment ∧ kind ≠ .endOfInput ∧ kind.endsOperand = false)
    (leftSide : Finds front (' ' :: (symbol.toList ++ ' ' :: back) ++ rest) (Spells phrase leftWanted))
    (rightSide : Finds back rest (Spells phrase rightWanted)) :
    Finds (front ++ ' ' :: (symbol.toList ++ ' ' :: back)) rest
      (Between phrase kind leftWanted rightWanted) := by
  obtain ⟨noComment, noEnd, noOperand⟩ := operator
  have sign : Finds symbol.toList (' ' :: back ++ rest) (IsOne kind symbol.toList) := by
    apply finds_symbol
    · rw [String.ofList_toList, spelled]
    · exact fun _ => by simp [isGlue]
    · exact fun _ => by simp
    · simp [noOperand]
  have line := leftSide.append (sign.append rightSide.space).space
  apply line.mono
  intro tokens found
  obtain ⟨front, _, same, ⟨leftSolid, leftDepth, left, leftThere, leftSame⟩, _, back, tail, one,
    rightSolid, rightDepth, right, rightThere, rightSame⟩ := found
  have middle := one.solid ⟨noComment, noEnd⟩
  obtain ⟨token, rfl, isKind, _⟩ := one
  subst same tail
  have first := rises _ _ _ _ (Nat.le_max_left leftDepth rightDepth) leftThere
  have second := rises _ _ _ _ (Nat.le_max_right leftDepth rightDepth) rightThere
  exact ⟨leftSolid.append (middle.append rightSolid), _, front, token, back, left, right, rfl, isKind, first,
    second, leftSame, rightSame⟩

/-! Expressions. -/

/-- The text begins with a character that no operator takes in, and with a digit only if it is a literal. -/
def BeginsApart (expr : Expr) : Prop :=
  ∃ c more, expr.text.toList = c :: more ∧ isGlue c = false ∧
    (c.isDigit = true → ∃ value span, expr = .int value span ∧ 0 ≤ value.toInt)

theorem int_beginsApart (value : Int64) (span : Span) : BeginsApart (.int value span) := by
  cases shape : value.toInt with
  | ofNat size =>
    have digits : (Expr.int value span).text.toList = Nat.toDigits 10 size := by
      rw [Expr.text, shape]
      exact Decimal.toList_toString_ofNat size
    cases written : Nat.toDigits 10 size with
    | nil => exact absurd written Nat.toDigits_ne_nil
    | cons c more =>
      have digit : c.isDigit = true :=
        Nat.isDigit_of_mem_toDigits (by decide) (by decide) (written ▸ List.mem_cons_self)
      refine ⟨c, more, digits.trans written, isGlue_of_isDigit digit, fun _ => ⟨value, span, rfl, ?_⟩⟩
      rw [shape]
      exact Int.natCast_nonneg size
  | negSucc size =>
    refine ⟨'-', Nat.toDigits 10 (size + 1), ?_, by decide, fun digit => absurd digit (by decide)⟩
    rw [Expr.text, shape]
    exact Decimal.toList_toString_negSucc size

theorem ref_beginsApart {path : Path} (readable : (Expr.ref path).Readable) : BeginsApart (.ref path) := by
  obtain ⟨segments, span⟩ := path
  cases segments with
  | nil => exact absurd rfl readable.1
  | cons first more =>
    obtain ⟨c, others, same, letter, _⟩ := (readable.2 first (by simp)).spelled
    have spelled : (Expr.ref ⟨first :: more, span⟩).text.toList = c :: (others ++ dotted more) := by
      rw [Expr.text, Path.name, toList_intercalate_dots, same]
      rfl
    refine ⟨c, _, spelled, isGlue_of_isAlpha letter, fun digit => ?_⟩
    rw [not_isDigit_of_isAlpha letter] at digit
    cases digit

theorem beginsApart {expr : Expr} (readable : expr.Readable) (floatFree : expr.FloatFree) : BeginsApart expr := by
  cases expr with
  | int value span => exact int_beginsApart value span
  | float => exact floatFree.elim
  | ref path => exact ref_beginsApart readable
  | unary op operand span =>
    refine ⟨'(', op.symbol.toList ++ (operand.text.toList ++ [')']), ?_, by decide, fun digit => absurd digit (by decide)⟩
    simp [Expr.text]
  | binary left op right =>
    refine ⟨'(', left.text.toList ++ ' ' :: (op.symbol.toList ++ ' ' :: (right.text.toList ++ [')'])), ?_,
      by decide, fun digit => absurd digit (by decide)⟩
    simp [Expr.text]

theorem factor_rises : Rises Factor :=
  fun _ _ _ _ deeper there => within_factor (.inl deeper) _ _ (Nat.le_refl _) there

theorem foldSigns_unary {op : Operator} {operand : Expr} {span : Span}
    (kept : ∀ value inner, op = .sub → operand = .int value inner → ¬ 0 ≤ value.toInt) :
    (Expr.unary op operand span).foldSigns = .unary op operand.foldSigns span := by
  by_cases literal : ∃ value inner, op = .sub ∧ operand = .int value inner
  · obtain ⟨value, inner, rfl, rfl⟩ := literal
    rw [Expr.foldSigns, if_neg (kept value inner rfl rfl)]
    rfl
  · rw [Expr.foldSigns]
    exact fun value inner minus number => literal ⟨value, inner, minus, number⟩

/-- Two operands with an operator between them. -/
theorem arithmetic_of_binary {depth : Nat} {front back : List Token} {token : Token} {op : Operator}
    {left right : Expr} (leftSide : Factor depth front left) (same : token.kind = op.kind)
    (rightSide : Factor depth back right) :
    Arithmetic depth (front ++ token :: back) (.binary left op right) := by
  by_cases before : op.IsPrefix
  · have first : Term (Factor depth) front left := .single leftSide
    have second : Term (Factor depth) back right := .single rightSide
    have next : Operation (·.IsPrefix) (Term (Factor depth)) (token :: back) (op, right) := .mk before same second
    exact Chain.more (.single first) next
  · have next : Operation (¬ ·.IsPrefix) (Factor depth) (token :: back) (op, right) := .mk before same rightSide
    have product : Term (Factor depth) (front ++ token :: back) (.binary left op right) :=
      Chain.more (.single leftSide) next
    exact .single product

theorem spells_arithmetic {wanted : Expr → Prop} {tokens : List Token} (spells : Spells Factor wanted tokens) :
    Spells Arithmetic wanted tokens := by
  obtain ⟨solid, depth, value, there, wanted⟩ := spells
  exact ⟨solid, depth, value, .single (.single there), wanted⟩

theorem finds_grouped {wanted : Expr → Prop} {chars rest : List Char} (stops : Stops rest)
    (inside : Finds chars (')' :: rest) (Spells Arithmetic wanted)) :
    Finds ('(' :: (chars ++ [')'])) rest (Spells Factor wanted) := by
  apply (finds_inParens stops inside).mono
  intro tokens ⟨solid, depth, value, there, wanted⟩
  exact ⟨solid, depth + 1, value, .grouped there, wanted⟩

/-- A minus before a literal is scanned as a part of it. -/
theorem finds_folded {value : Int64} {span : Span} {rest : List Char} (positive : 0 ≤ value.toInt)
    (stops : Stops rest) :
    Finds ('-' :: (toString value.toInt).toList) rest (Spells Factor (Expr.UpToSpans (.int (-value) span))) := by
  obtain ⟨size, shape⟩ := Int.eq_ofNat_of_zero_le positive
  have digits : (toString value.toInt).toList = Nat.toDigits 10 size := by
    rw [shape]
    exact Decimal.toList_toString_ofNat size
  have read : Decimal.int64? ('-' :: Nat.toDigits 10 size) = some (-value) := by
    rw [Decimal.int64?_negative, ← shape, Decimal.word?_neg positive]
  rw [digits]
  exact (finds_negative stops).mono fun tokens => spells_int (Decimal.int64?_eq_some.mp read)

theorem finds_signed {op : Operator} {operand : Expr} {span : Span} {rest : List Char} (before : op.IsPrefix)
    (readable : operand.Readable) (floatFree : operand.FloatFree)
    (kept : ∀ value inner, op = .sub → operand = .int value inner → ¬ 0 ≤ value.toInt)
    (inside : Finds operand.text.toList rest (Spells Factor (Expr.UpToSpans operand.foldSigns))) :
    Finds (op.symbol.toList ++ operand.text.toList) rest
      (Spells Factor (Expr.UpToSpans (Expr.unary op operand span).foldSigns)) := by
  obtain ⟨c, more, begins, loose, digit⟩ := beginsApart readable floatFree
  have sign : Finds op.symbol.toList (operand.text.toList ++ rest) (IsOne op.kind op.symbol.toList) := by
    apply finds_symbol
    · rw [String.ofList_toList, op.symbol?_kind]
    · intro _ d first
      rw [begins] at first
      cases first
      exact loose
    · intro minus d first
      rw [begins] at first
      cases first
      apply Bool.eq_false_iff.mpr
      intro isDigit
      obtain ⟨value, inner, literal, positive⟩ := digit isDigit
      exact kept value inner (Operator.sub_of_kind minus) literal positive
    · simp [op.kind_plain]
  have line := sign.append inside
  apply line.mono
  intro tokens ⟨_, back, same, one, solid, depth, found, there, wanted⟩
  have signSolid := one.solid ⟨op.kind_plain.1, op.kind_plain.2.1⟩
  obtain ⟨token, rfl, kind, _⟩ := one
  subst same
  have signed : Signed (Factor depth) (token :: back) (.unary op found (token.span.through found.span)) :=
    .mk before kind there
  refine ⟨signSolid.append solid, depth + 1, _, .signed signed, ?_⟩
  rw [Expr.UpToSpans] at wanted
  rw [Expr.UpToSpans, foldSigns_unary kept, Expr.forgetSpans, Expr.forgetSpans, wanted]

theorem finds_binary {left right : Expr} {op : Operator} {rest : List Char}
    (leftSide : Finds left.text.toList (' ' :: (op.symbol.toList ++ ' ' :: right.text.toList) ++ rest)
      (Spells Factor (Expr.UpToSpans left.foldSigns)))
    (rightSide : Finds right.text.toList rest (Spells Factor (Expr.UpToSpans right.foldSigns))) :
    Finds (left.text.toList ++ ' ' :: (op.symbol.toList ++ ' ' :: right.text.toList)) rest
      (Spells Arithmetic (Expr.UpToSpans (Expr.binary left op right).foldSigns)) := by
  apply (finds_between factor_rises op.symbol?_kind op.kind_plain leftSide rightSide).mono
  intro tokens between
  obtain ⟨solid, depth, front, token, back, first, second, same, kind, leftThere, rightThere, leftSame,
    rightSame⟩ := between
  subst same
  refine ⟨solid, depth, _, arithmetic_of_binary leftThere kind rightThere, ?_⟩
  rw [Expr.UpToSpans] at leftSame rightSame
  rw [Expr.UpToSpans, Expr.foldSigns, Expr.forgetSpans, Expr.forgetSpans, leftSame, rightSame]

theorem finds_expr {expr : Expr} (readable : expr.Readable) (floatFree : expr.FloatFree)
    {rest : List Char} (stops : Stops rest) :
    Finds expr.text.toList rest (Spells Factor (Expr.UpToSpans expr.foldSigns)) := by
  induction expr generalizing rest with
  | int value span => exact finds_int stops
  | float => exact floatFree.elim
  | ref path =>
    apply (finds_path readable.1 readable.2 stops).mono
    intro tokens ⟨solid, found, dotted, same⟩
    refine ⟨solid, 0, .ref found, .ref dotted, ?_⟩
    simp [Expr.UpToSpans, Expr.foldSigns, Expr.forgetSpans, same]
  | unary op operand span ih =>
    have closing : Stops (')' :: rest) := by simp [Stops]
    have spelled : (Expr.unary op operand span).text.toList =
        '(' :: (op.symbol.toList ++ operand.text.toList ++ [')']) := by
      simp [Expr.text]
    rw [spelled]
    apply finds_grouped stops
    by_cases literal : ∃ value inner, op = .sub ∧ operand = .int value inner ∧ 0 ≤ value.toInt
    · obtain ⟨value, inner, rfl, rfl, positive⟩ := literal
      rw [Expr.foldSigns, if_pos positive]
      exact (finds_folded positive closing).mono fun tokens => spells_arithmetic
    · have kept (value inner) (minus : op = .sub) (number : operand = .int value inner) : ¬ 0 ≤ value.toInt :=
        fun positive => literal ⟨value, inner, minus, number, positive⟩
      have inside := ih readable.2 floatFree closing
      exact (finds_signed readable.1 readable.2 floatFree kept inside).mono fun tokens => spells_arithmetic
  | binary left op right leftIh rightIh =>
    have afterLeft : Stops (' ' :: (op.symbol.toList ++ ' ' :: right.text.toList) ++ ')' :: rest) := by
      simp [Stops]
    have afterRight : Stops (')' :: rest) := by simp [Stops]
    have spelled : (Expr.binary left op right).text.toList =
        '(' :: (left.text.toList ++ ' ' :: (op.symbol.toList ++ ' ' :: right.text.toList) ++ [')']) := by
      simp [Expr.text]
    rw [spelled]
    apply finds_grouped stops
    exact finds_binary (leftIh readable.1 floatFree.1 afterLeft) (rightIh readable.2 floatFree.2 afterRight)

end RecordLayout
