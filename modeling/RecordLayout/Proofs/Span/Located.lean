import RecordLayout.Grammar.Failure
import RecordLayout.Schema

/-! Values that are made of tokens keep the spans of these, and spans that are put together from them. Each kind of
value lists its spans, those included that are computed from its parts, and can be moved to other places with
nothing else changed. -/

namespace RecordLayout

def Span.move (place : Position → Position) (span : Span) : Span :=
  ⟨place span.start, place span.stop⟩

/-- A kind of value in which there may be spans. -/
class Located (α : Type) where
  spans : α → List Span
  /-- The value with both ends of every span at another place. -/
  move : (Position → Position) → α → α
  spans_move : ∀ place value, spans (move place value) = (spans value).map (Span.move place)
  move_move : ∀ first second value, move second (move first value) = move (second ∘ first) value

namespace Located

attribute [simp] spans_move move_move

variable {α β : Type}

/-! Values in general. -/

/-- A kind of value in which there are no spans. -/
@[reducible] def plain : Located α where
  spans _ := []
  move _ value := value
  spans_move _ _ := rfl
  move_move _ _ _ := rfl

instance : Located Unit := plain
instance : Located Bool := plain
instance : Located Int64 := plain
instance : Located Float := plain
instance : Located Operator := plain
instance : Located Relation := plain
instance : Located ByteOrder := plain

instance : Located Span where
  spans span := [span]
  move := Span.move
  spans_move _ _ := rfl
  move_move _ _ _ := rfl

instance [Located α] [Located β] : Located (α × β) where
  spans pair := spans pair.1 ++ spans pair.2
  move place pair := (move place pair.1, move place pair.2)
  spans_move := by simp
  move_move := by simp

instance [Located α] : Located (Option α) where
  spans value := value.elim [] spans
  move place value := value.map (move place)
  spans_move place value := by cases value <;> simp
  move_move first second value := by cases value <;> simp

instance [Located α] : Located (List α) where
  spans values := values.flatMap spans
  move place values := values.map (move place)
  spans_move place values := by simp [List.flatMap_map, List.map_flatMap]
  move_move first second values := by simp

instance [Located α] [Located β] : Located (Except α β) where
  spans
    | .error error => spans error
    | .ok value => spans value
  move place
    | .error error => .error (move place error)
    | .ok value => .ok (move place value)
  spans_move place result := by cases result <;> simp
  move_move first second result := by cases result <;> simp

/-! Tokens and what is wrong with them. -/

instance : Located Token where
  spans token := [token.span]
  move place token := { token with span := token.span.move place }
  spans_move _ _ := rfl
  move_move _ _ _ := rfl

instance : Located SyntaxFault where
  spans
    | .unexpected _ found => spans found
    | _ => []
  move place
    | .unexpected wanted found => .unexpected wanted (move place found)
    | cause => cause
  spans_move place cause := by cases cause <;> simp
  move_move first second cause := by cases cause <;> simp

instance : Located Failure where
  spans
    | .ended _ => []
    | .fault span cause => spans span ++ spans cause
  move place
    | .ended wanted => .ended wanted
    | .fault span cause => .fault (move place span) (move place cause)
  spans_move place failure := by cases failure <;> simp
  move_move first second failure := by cases failure <;> simp

instance : Located CompileError where
  spans := CompileError.spans
  move place
    | .illegalCharacter span character => .illegalCharacter (span.move place) character
    | .expectedMore span expected => .expectedMore (span.move place) expected
    | .invalidSyntax span explanation => .invalidSyntax (span.move place) explanation
    | .unknownType span typeName structName => .unknownType (span.move place) typeName structName
    | .duplicateMember spans memberName structName => .duplicateMember (spans.map (·.move place)) memberName structName
    | .duplicateDeclaration spans name => .duplicateDeclaration (spans.map (·.move place)) name
    | .recursiveStruct spans cycle => .recursiveStruct (spans.map (·.move place)) cycle
  spans_move place error := by cases error <;> rfl
  move_move first second error := by cases error <;> simp [Span.move]

/-! Names and paths. -/

instance : Located Name where
  spans name := [name.span]
  move place name := { name with span := name.span.move place }
  spans_move _ _ := rfl
  move_move _ _ _ := rfl

instance : Located Path where
  spans path := [path.span]
  move place path := { path with span := path.span.move place }
  spans_move _ _ := rfl
  move_move _ _ _ := rfl

end Located

/-! Expressions and conditions, whose operations have spans from their first operand to their last. -/

namespace Expr

def spans : Expr → List Span
  | int _ span | float _ span => [span]
  | ref path => [path.span]
  | unary _ operand span => span :: operand.spans
  | binary left _ right => left.span.through right.span :: (left.spans ++ right.spans)

def move (place : Position → Position) : Expr → Expr
  | int value span => .int value (span.move place)
  | float value span => .float value (span.move place)
  | ref path => .ref (Located.move place path)
  | unary op operand span => .unary op (operand.move place) (span.move place)
  | binary left op right => .binary (left.move place) op (right.move place)

@[simp] theorem span_move (place : Position → Position) (expr : Expr) :
    (expr.move place).span = expr.span.move place := by
  induction expr with
  | int | float | ref | unary => rfl
  | binary left op right leftIh rightIh => simp [move, span, leftIh, rightIh, Span.through, Span.move]

instance : Located Expr where
  spans := spans
  move := move
  spans_move place expr := by
    induction expr with
    | int | float | ref => rfl
    | unary op operand span ih => simp [spans, move, ih]
    | binary left op right leftIh rightIh => simp [spans, move, leftIh, rightIh, Span.through, Span.move]
  move_move first second expr := by
    induction expr with
    | int | float | ref => rfl
    | unary op operand span ih => simp [move, ih, Span.move]
    | binary left op right leftIh rightIh => simp [move, leftIh, rightIh]

theorem span_mem_spans (expr : Expr) : expr.span ∈ expr.spans := by
  cases expr <;> exact List.mem_cons_self

end Expr

namespace Condition

def spans : Condition → List Span
  | relation left _ right => left.span.through right.span :: (left.spans ++ right.spans)
  | junction left _ right => left.span.through right.span :: (left.spans ++ right.spans)

def move (place : Position → Position) : Condition → Condition
  | relation left op right => .relation (left.move place) op (right.move place)
  | junction left op right => .junction (left.move place) op (right.move place)

@[simp] theorem span_move (place : Position → Position) (condition : Condition) :
    (condition.move place).span = condition.span.move place := by
  induction condition with
  | relation => simp [move, span, Span.through, Span.move]
  | junction left op right leftIh rightIh => simp [move, span, leftIh, rightIh, Span.through, Span.move]

theorem span_mem_spans (condition : Condition) : condition.span ∈ condition.spans := by
  cases condition <;> exact List.mem_cons_self

instance : Located Condition where
  spans := spans
  move := move
  spans_move place condition := by
    induction condition with
    | relation left op right =>
      have sides (expr : Expr) : (expr.move place).spans = expr.spans.map (Span.move place) :=
        Located.spans_move place expr
      simp [spans, move, sides, Span.through, Span.move]
    | junction left op right leftIh rightIh => simp [spans, move, leftIh, rightIh, Span.through, Span.move]
  move_move first second condition := by
    induction condition with
    | relation left op right =>
      have sides (expr : Expr) : (expr.move first).move second = expr.move (second ∘ first) :=
        Located.move_move first second expr
      simp [move, sides]
    | junction left op right leftIh rightIh => simp [move, leftIh, rightIh]

end Condition

namespace Located

variable {α : Type}

/-! Types and members. -/

instance : Located Delimiter where
  spans delimiter := [delimiter.span]
  move place
    | .string text span => .string text (span.move place)
    | .char text span => .char text (span.move place)
    | .int value span => .int value (span.move place)
    | .member path => .member (move place path)
  spans_move place delimiter := by cases delimiter <;> rfl
  move_move first second delimiter := by cases delimiter <;> rfl

instance : Located DataType where
  spans type := type.span :: spans type.delimiter
  move place type := { type with delimiter := move place type.delimiter, span := type.span.move place }
  spans_move := by simp
  move_move := by simp [Span.move]

instance : Located TypeRef where
  spans
    | .data type => spans type
    | .named path => spans path
  move place
    | .data type => .data (move place type)
    | .named path => .named (move place path)
  spans_move place type := by cases type <;> simp
  move_move first second type := by cases type <;> simp

instance [Located α] : Located (Choice α) where
  spans choice := choice.span :: (spans choice.condition ++ spans choice.ifTrue ++ spans choice.ifFalse)
  move place choice :=
    ⟨move place choice.condition, move place choice.ifTrue, move place choice.ifFalse, choice.span.move place⟩
  spans_move := by simp
  move_move := by simp [Span.move]

instance : Located OrderRule where
  spans
    | .fixed _ => []
    | .chosen choice => spans choice
  move place
    | .fixed order => .fixed order
    | .chosen choice => .chosen (move place choice)
  spans_move place order := by cases order <;> simp
  move_move first second order := by cases order <;> simp

instance : Located MemberType where
  spans
    | .plain type => spans type
    | .chosen choice => spans choice
  move place
    | .plain type => .plain (move place type)
    | .chosen choice => .chosen (move place choice)
  spans_move place type := by cases type <;> simp
  move_move first second type := by cases type <;> simp

instance : Located Repetition where
  spans
    | .untilEnd => []
    | .count amount => spans amount
    | .whileTrue condition => spans condition
  move place
    | .untilEnd => .untilEnd
    | .count amount => .count (move place amount)
    | .whileTrue condition => .whileTrue (move place condition)
  spans_move place repetition := by cases repetition <;> simp
  move_move first second repetition := by cases repetition <;> simp

instance : Located MemberInfo where
  spans info := spans info.type ++ spans info.order ++ spans info.repetition
  move place info := ⟨move place info.type, move place info.order, move place info.repetition⟩
  spans_move := by simp
  move_move := by simp

instance : Located Member where
  spans member := spans member.name ++ spans member.info
  move place member := ⟨move place member.name, move place member.info⟩
  spans_move := by simp
  move_move := by simp

/-! Selections and declarations. -/

instance [Located α] : Located (Case α) where
  spans chosen := spans chosen.value ++ spans chosen.body
  move place chosen := ⟨move place chosen.value, move place chosen.body⟩
  spans_move := by simp
  move_move := by simp

instance : Located Selected where
  spans
    | .single name cases => spans name ++ spans cases
    | .groups cases => spans cases
  move place
    | .single name cases => .single (move place name) (move place cases)
    | .groups cases => .groups (move place cases)
  spans_move place selected := by cases selected <;> simp
  move_move first second selected := by cases selected <;> simp

instance : Located Selection where
  spans selection := selection.span :: (spans selection.condition ++ spans selection.selected)
  move place selection :=
    ⟨move place selection.condition, move place selection.selected, selection.span.move place⟩
  spans_move := by simp
  move_move := by simp [Span.move]

instance : Located StructItem where
  spans
    | .member member => spans member
    | .selection selection => spans selection
  move place
    | .member member => .member (move place member)
    | .selection selection => .selection (move place selection)
  spans_move place item := by cases item <;> simp
  move_move first second item := by cases item <;> simp

instance : Located StructDef where
  spans struct := spans struct.name ++ spans struct.order ++ spans struct.items
  move place struct := ⟨move place struct.name, move place struct.order, move place struct.items⟩
  spans_move := by simp
  move_move := by simp

instance : Located BitfieldMember where
  spans member := spans member.name ++ spans member.size
  move place member := ⟨move place member.name, move place member.size⟩
  spans_move := by simp
  move_move := by simp

instance : Located BitfieldDef where
  spans bitfield := spans bitfield.name ++ spans bitfield.byteSize ++ spans bitfield.members
  move place bitfield := ⟨move place bitfield.name, move place bitfield.byteSize, move place bitfield.members⟩
  spans_move := by simp
  move_move := by simp

instance : Located Declaration where
  spans
    | .struct declared => spans declared
    | .bitfield declared => spans declared
  move place
    | .struct declared => .struct (move place declared)
    | .bitfield declared => .bitfield (move place declared)
  spans_move place declared := by cases declared <;> simp
  move_move first second declared := by cases declared <;> simp

instance : Located Schema where
  spans schema := spans schema.declarations
  move place schema := ⟨move place schema.declarations⟩
  spans_move := by simp
  move_move := by simp

end Located

end RecordLayout
