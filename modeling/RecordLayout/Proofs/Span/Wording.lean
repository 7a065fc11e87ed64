import RecordLayout.Outline
import RecordLayout.Proofs.Span.Checks

/-! What is said of values with spans does not depend on where they are. The texts of expressions, conditions and
members, the outline of a schema and the listing of tokens are made without looking at a single place. -/

namespace RecordLayout

open Located
open Writer (Op)

variable {place : Position → Position}

namespace Located

variable {α β : Type} [Located α]

theorem map_of_same {f : α → β} (same : ∀ value, f (move place value) = f value) (values : List α) :
    (move place values).map f = values.map f :=
  (List.map_map ..).trans (List.map_congr_left fun value _ => same value)

theorem flatMap_of_same {f : α → List β} (same : ∀ value, f (move place value) = f value) (values : List α) :
    (move place values).flatMap f = values.flatMap f :=
  congrArg List.flatten (map_of_same same values)

end Located

/-! Expressions and conditions. -/

namespace Expr

theorem text_move (expr : Expr) : (move place expr).text = expr.text := by
  induction expr with
  | int | float | ref => rfl
  | unary op operand span ih => simp [move, text, ih]
  | binary left op right leftIh rightIh => simp [move, text, leftIh, rightIh]

theorem constant?_move (expr : Expr) : (move place expr).constant? = expr.constant? := by
  induction expr with
  | int | float | ref => rfl
  | unary op operand span ih => simp [move, constant?, ih]
  | binary left op right leftIh rightIh => simp [move, constant?, leftIh, rightIh]

theorem foldedText_move (expr : Expr) : (move place expr).foldedText = expr.foldedText := by
  rw [foldedText, constant?_move, text_move, foldedText]

theorem sumOr_move (other : Expr) (summands : List Expr) :
    sumOr (Located.move place other) (Located.move place summands) = Located.move place (sumOr other summands) := by
  induction summands with
  | nil => rfl
  | cons summand rest ih =>
    cases rest with
    | nil => rfl
    | cons => exact congrArg (binary (Located.move place summand) .add) ih

end Expr

theorem Condition.text_move (condition : Condition) : (move place condition).text = condition.text := by
  induction condition with
  | relation left op right => simp [move, text, Expr.text_move]
  | junction left op right leftIh rightIh => simp [move, text, leftIh, rightIh]

/-! Members. -/

theorem TypeRef.text_move (type : TypeRef) : (move place type).text = type.text := by
  cases type <;> rfl

theorem Delimiter.text_move (delimiter : Delimiter) : (move place delimiter).text = delimiter.text := by
  cases delimiter <;> rfl

theorem Choice.text_move {α : Type} [Located α] (choice : Choice α) {alternative : α → String}
    (same : ∀ value, alternative (move place value) = alternative value) :
    (move place choice).text alternative = choice.text alternative := by
  have condition : (move place choice.condition).text = choice.condition.text := choice.condition.text_move
  have parts : move place choice =
    ⟨move place choice.condition, move place choice.ifTrue, move place choice.ifFalse, choice.span.move place⟩ := rfl
  simp only [text, parts, condition, same]

theorem OrderRule.text_move (order : OrderRule) : (move place order).text = order.text := by
  cases order with
  | fixed => rfl
  | chosen choice => exact choice.text_move fun _ => rfl

namespace MemberType

theorem text_move (type : MemberType) : (move place type).text = type.text := by
  cases type with
  | plain type => exact type.text_move
  | chosen choice => exact choice.text_move TypeRef.text_move

theorem delimiter?_move (type : MemberType) : (move place type).delimiter? = move place type.delimiter? := by
  rcases type with (_ | _) | _ <;> rfl

end MemberType

theorem Repetition.text_move (repetition : Repetition) : (move place repetition).text = repetition.text := by
  cases repetition with
  | untilEnd => rfl
  | count amount => exact congrArg ("[" ++ · ++ "]") amount.text_move
  | whileTrue condition => exact congrArg ("[while " ++ · ++ "]") condition.text_move

theorem MemberInfo.text_move (info : MemberInfo) : (move place info).text = info.text := by
  have parts : move place info = ⟨move place info.type, move place info.order, move place info.repetition⟩ := rfl
  have repeated : (move place info.repetition).map Repetition.text = info.repetition.map Repetition.text := by
    cases info.repetition with
    | none => rfl
    | some repetition => exact congrArg some repetition.text_move
  simp only [text, parts, MemberType.text_move, OrderRule.text_move, MemberType.delimiter?_move, repeated]
  cases info.type.delimiter? with
  | none => rfl
  | some delimiter => exact congrArg (fun text => _ ++ (" until " ++ text)) delimiter.text_move

/-! Outlines. -/

theorem Member.outline_move (member : Member) : (move place member).outline = member.outline :=
  congrArg (fun text => Op.line (member.name.text ++ ": " ++ text)) member.info.text_move

theorem Selection.outline_move (selection : Selection) : (move place selection).outline = selection.outline := by
  obtain ⟨condition, selected, span⟩ := selection
  have head : (move place condition).text = condition.text := condition.text_move
  cases selected with
  | single name cases =>
    have lines (type : Case MemberInfo) :
        Op.line ((move place type).value.text ++ " => " ++ (move place type).body.text) =
          Op.line (type.value.text ++ " => " ++ type.body.text) :=
      congrArg₂ (fun value body => Op.line (value ++ " => " ++ body)) type.value.text_move type.body.text_move
    change [Op.line ("match " ++ (move place condition).text ++ " -> " ++ name.text),
      Op.indented ((move place cases).map _)] = _
    rw [head, map_of_same lines]
    rfl
  | groups cases =>
    have lines (group : Case (List Member)) :
        [Op.line ((move place group).value.text ++ " =>"),
            Op.indented ((move place group).body.map Member.outline)] =
          [Op.line (group.value.text ++ " =>"), Op.indented (group.body.map Member.outline)] :=
      congrArg₂ (fun value body => [Op.line (value ++ " =>"), Op.indented body]) group.value.text_move
        (map_of_same Member.outline_move group.body)
    change [Op.line ("match " ++ (move place condition).text), Op.indented ((move place cases).flatMap _)] = _
    rw [head, flatMap_of_same lines]
    rfl

theorem StructItem.outline_move (item : StructItem) : (move place item).outline = item.outline := by
  cases item with
  | member plain => exact congrArg ([·]) plain.outline_move
  | selection cases => exact cases.outline_move

theorem BitfieldMember.outline_move (member : BitfieldMember) : (move place member).outline = member.outline :=
  congrArg (fun text => Op.line (member.name.text ++ ": " ++ text)) member.size.foldedText_move

theorem BitfieldDef.text_size_move (bitfield : BitfieldDef) :
    (move place bitfield).size.text = bitfield.size.text := by
  obtain ⟨name, _ | amount, members⟩ := bitfield
  · have sizes : (move place members).map BitfieldMember.size = move place (members.map BitfieldMember.size) :=
      map_move BitfieldMember.size (fun _ => rfl) members
    have bits := @Expr.sumOr_move place (.int 0 name.span) (members.map BitfieldMember.size)
    rw [← sizes] at bits
    exact congrArg (· ++ " bits") ((congrArg Expr.foldedText bits).trans (Expr.foldedText_move _))
  · exact congrArg (· ++ " bytes") amount.foldedText_move

theorem Declaration.outline_move (declared : Declaration) : (move place declared).outline = declared.outline := by
  cases declared with
  | struct struct =>
    exact congrArg₂ (fun order items => [Op.line ("struct " ++ struct.name.text ++ " " ++ order), Op.indented items])
      struct.order.text_move (flatMap_of_same StructItem.outline_move struct.items)
  | bitfield bitfield =>
    exact congrArg₂ (fun size members => [Op.line ("bitfield " ++ bitfield.name.text ++ " (" ++ size ++ ")"),
      Op.indented members]) bitfield.text_size_move (map_of_same BitfieldMember.outline_move bitfield.members)

theorem Schema.outlineText_move (schema : Schema) : (move place schema).outlineText = schema.outlineText :=
  congrArg (fun ops => (Writer.runAll ops .new).writer.text)
    (flatMap_of_same Declaration.outline_move schema.declarations)

/-! Tokens and mistakes. -/

theorem Token.listing_move (tokens : List Token) : listing (move place tokens) = listing tokens :=
  congrArg String.join (map_of_same (fun _ => rfl) tokens)

theorem CompileError.message_move (error : CompileError) : (move place error).message = error.message := by
  cases error <;> rfl

end RecordLayout
