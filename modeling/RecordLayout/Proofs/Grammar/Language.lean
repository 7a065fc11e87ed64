import RecordLayout.Grammar.Declaration
import RecordLayout.Proofs.Grammar.Phrase

/-! The language of layout descriptions, as phrases. Parentheses, operators before operands, conditions
and choices nest, and a depth bounds how far; what nests at all nests to some depth. Left factors of
alternatives and the order in which they are tried are no part of it: a phrase is one for any split of
its tokens that a rule allows. Signs are told by the kinds of their tokens, words and numbers by how they
are spelled. -/

namespace RecordLayout.Grammar

open Phrase

/-! Expressions. -/

/-- Names with dots between them. -/
inductive Dotted : Phrase Path where
  | mk {first back others} (start : first.kind = .identifier)
      (more : Many (After .dot fun tokens segment => tokens = [segment] ∧ segment.kind = .identifier)
        back others) :
      Dotted (first :: back) ⟨(first :: others).map Token.content,
        first.span.through (others.getLastD first).span⟩

/-- An operator before an operand. -/
inductive Signed (operand : Phrase Expr) : Phrase Expr where
  | mk {token op tokens value} (allowed : op.IsPrefix) (sign : token.kind = op.kind)
      (before : operand tokens value) :
      Signed operand (token :: tokens) (.unary op value (token.span.through value.span))

/-- Literals, paths, and two forms in which factors nest. -/
inductive FactorOf (signed grouped : Phrase Expr) : Phrase Expr where
  | int {token value} (literal : token.kind = .integer)
      (number : Decimal.Numeral 10 token.content.toList value) :
      FactorOf signed grouped [token] (.int value token.span)
  | float {token value} (literal : token.kind = .float)
      (read : Decimal.float? token.content.toList = some value) :
      FactorOf signed grouped [token] (.float value token.span)
  | ref {tokens path} (dotted : Dotted tokens path) : FactorOf signed grouped tokens (.ref path)
  | signed {tokens value} (there : signed tokens value) : FactorOf signed grouped tokens value
  | grouped {tokens value} (there : grouped tokens value) : FactorOf signed grouped tokens value

/-- An operation on what stands before an operator and its right operand. -/
def applied (left : Expr) (next : Operator × Expr) : Expr :=
  .binary left next.1 next.2

/-- Operands between which stand operators of a sort, grouped to the left. -/
def Operations (among : Operator → Prop) (operand : Phrase Expr) : Phrase Expr :=
  Chain operand (Operation among operand) applied

/-- Factors between operators that stand only between operands. -/
def Term (factor : Phrase Expr) : Phrase Expr :=
  Operations (¬ ·.IsPrefix) factor

/-- Terms between the other operators. -/
def Sum (factor : Phrase Expr) : Phrase Expr :=
  Operations (·.IsPrefix) (Term factor)

/-- An operator before a factor and parentheses around a sum nest. -/
def Factor : Nat → Phrase Expr
  | 0 => FactorOf nothing nothing
  | depth + 1 => FactorOf (Signed (Factor depth)) (InParens (Sum (Factor depth)))

def Arithmetic (depth : Nat) : Phrase Expr :=
  Sum (Factor depth)

/-! Conditions. -/

/-- Two expressions with a relation between them, or a condition in parentheses. -/
inductive RelationOf (operand : Phrase Expr) (condition : Phrase Condition) : Phrase Condition where
  | compared {front token op back left right} (leftSide : operand front left)
      (related : token.kind = op.kind) (rightSide : operand back right) :
      RelationOf operand condition (front ++ token :: back) (.relation left op right)
  | grouped {tokens value} (inside : InParens condition tokens value) :
      RelationOf operand condition tokens value

/-- Items between which stands a connective, grouped to the left. -/
def Junction (op : Connective) (kind : Token.Kind) (item : Phrase Condition) : Phrase Condition :=
  Chain item (After kind item) fun left right => .junction left op right

def Logic : Nat → Phrase Condition
  | 0 => nothing
  | depth + 1 => Junction .or .or (Junction .and .and (RelationOf (Arithmetic depth) (Logic depth)))

/-! Choices between two alternatives. -/

inductive ChoiceOf (condition : Phrase Condition) (arm : Phrase α) : Phrase (Choice α) where
  | mk {opening front asked question ifTrue yes colon ifFalse no closing}
      (opens : opening.kind = .leftParen) (test : condition front asked)
      (asks : question.kind = .question) (first : arm ifTrue yes) (parts : colon.kind = .colon)
      (second : arm ifFalse no) (closes : closing.kind = .rightParen) :
      ChoiceOf condition arm
        (opening :: (front ++ question :: (ifTrue ++ colon :: (ifFalse ++ [closing]))))
        ⟨asked, yes, no, opening.span.through closing.span⟩

def Chosen (arm : Phrase α) : Nat → Phrase (Choice α)
  | 0 => nothing
  | depth + 1 => ChoiceOf (Logic depth) arm

/-! Byte orders. -/

inductive OrderWord : Phrase ByteOrder where
  | mk {token order} (keyword : token.IsWord order.keyword) : OrderWord [token] order

inductive Order (depth : Nat) : Phrase OrderRule where
  | fixed {tokens order} (word : OrderWord tokens order) : Order depth tokens (.fixed order)
  | chosen {tokens choice} (choosing : Chosen OrderWord depth tokens choice) :
      Order depth tokens (.chosen choice)

/-! Types. -/

inductive Ending : Phrase Delimiter where
  | string {token} (literal : token.kind = .string) : Ending [token] (.string token.content token.span)
  | char {token} (literal : token.kind = .char) : Ending [token] (.char token.content token.span)
  | int {token value} (literal : token.kind = .integer)
      (number : Decimal.Numeral 10 token.content.toList value) :
      Ending [token] (.int value token.span)
  | hex {backslash digits value} (escape : backslash.kind = .backslash)
      (word : digits.kind = .identifier) (byte : Token.SpellsByte digits.content.toList value) :
      Ending [backslash, digits] (.int value (backslash.span.through digits.span))
  | member {tokens path} (dotted : Dotted tokens path) : Ending tokens (.member path)

/-- A primitive type, with its delimiter if that directly follows. -/
inductive Primary : Phrase DataType where
  | bare {token primitive} (word : token.kind = .dataType) (spelled : token.content = primitive.name) :
      Primary [token] ⟨primitive, none, token.span⟩
  | delimited {token primitive tokens delimiter} (word : token.kind = .dataType)
      (spelled : token.content = primitive.name) (takes : primitive.IsDelimited)
      (ending : InParens Ending tokens delimiter) :
      Primary (token :: tokens) ⟨primitive, some delimiter, token.span⟩

/-- A type as it is when no delimiter follows any more: strings end at a zero byte unless something
else is written, and raw bytes always have a delimiter written. -/
inductive Completed : DataType → DataType → Prop where
  | fixedSize {type} (sized : ¬ type.primitive.IsDelimited) : Completed type type
  | written {type delimiter} (given : type.delimiter = some delimiter) : Completed type type
  | zeroByte {span} : Completed ⟨.string, none, span⟩ ⟨.string, some (.int 0 span), span⟩

/-- One of the types of a choice. -/
inductive Arm : Phrase TypeRef where
  | data {tokens type whole} (primary : Primary tokens type) (completed : Completed type whole) :
      Arm tokens (.data whole)
  | named {tokens path} (dotted : Dotted tokens path) : Arm tokens (.named path)

/-! Members. -/

inductive Repeated (depth : Nat) : Phrase Repetition where
  | untilEnd {opening closing} (opens : opening.kind = .leftBracket)
      (closes : closing.kind = .rightBracket) : Repeated depth [opening, closing] .untilEnd
  | count {opening tokens amount closing} (opens : opening.kind = .leftBracket)
      (inside : Arithmetic depth tokens amount) (closes : closing.kind = .rightBracket) :
      Repeated depth (opening :: (tokens ++ [closing])) (.count amount)
  | whileTrue {opening tokens condition closing} (opens : opening.kind = .leftBracket)
      (inside : Logic depth tokens condition) (closes : closing.kind = .rightBracket) :
      Repeated depth (opening :: (tokens ++ [closing])) (.whileTrue condition)

/-- A type, a repetition, and at most one delimiter, before the repetition or after it. -/
inductive Typed (depth : Nat) : Phrase (MemberType × Option Repetition) where
  | data {front type back repetition whole} (primary : Primary front type)
      (repeated : Optional (Repeated depth) back repetition) (completed : Completed type whole) :
      Typed depth (front ++ back) (.plain (.data whole), repetition)
  | late {token primitive back repetition last delimiter} (word : token.kind = .dataType)
      (spelled : token.content = primitive.name) (takes : primitive.IsDelimited)
      (repeated : Optional (Repeated depth) back repetition) (ending : InParens Ending last delimiter) :
      Typed depth (token :: (back ++ last))
        (.plain (.data ⟨primitive, some delimiter, token.span⟩), repetition)
  | named {front path back repetition} (dotted : Dotted front path)
      (repeated : Optional (Repeated depth) back repetition) :
      Typed depth (front ++ back) (.plain (.named path), repetition)
  | chosen {front choice back repetition} (choosing : Chosen Arm depth front choice)
      (repeated : Optional (Repeated depth) back repetition) :
      Typed depth (front ++ back) (.chosen choice, repetition)

/-- All of a member but its name. Without a byte order it has the one inherited. -/
inductive Info (depth : Nat) (inherited : OrderRule) : Phrase MemberInfo where
  | mk {front order back type repetition} (ordered : Optional (Order depth) front order)
      (typed : Typed depth back (type, repetition)) :
      Info depth inherited (front ++ back) ⟨type, order.getD inherited, repetition⟩

inductive MemberLine (depth : Nat) (inherited : OrderRule) : Phrase Member where
  | mk {tokens info name comma} (body : Info depth inherited tokens info)
      (named : name.kind = .identifier) (ends : comma.kind = .comma) :
      MemberLine depth inherited (tokens ++ [name, comma]) ⟨⟨name.content, name.span⟩, info⟩

/-! Selections. -/

/-- A value, a colon and what the value selects. -/
inductive CaseLine (depth : Nat) (body : Phrase α) : Phrase (Case α) where
  | mk {front value colon back selected comma} (chosen : Arithmetic depth front value)
      (parts : colon.kind = .colon) (there : body back selected) (ends : comma.kind = .comma) :
      CaseLine depth body (front ++ colon :: (back ++ [comma])) ⟨value, selected⟩

/-- At least one item in braces. -/
inductive Braced (item : Phrase α) : Phrase (List α) where
  | mk {opening tokens values closing} (opens : opening.kind = .leftBrace)
      (items : Many item tokens values) (some : values ≠ []) (closes : closing.kind = .rightBrace) :
      Braced item (opening :: (tokens ++ [closing])) values

inductive Selecting (depth : Nat) (inherited : OrderRule) : Phrase Selected where
  | single {tokens cases name} (body : Braced (CaseLine depth (Info depth inherited)) tokens cases)
      (named : name.kind = .identifier) :
      Selecting depth inherited (tokens ++ [name]) (.single ⟨name.content, name.span⟩ cases)
  | groups {tokens cases}
      (body : Braced (CaseLine depth (Braced (MemberLine depth inherited))) tokens cases) :
      Selecting depth inherited tokens (.groups cases)

inductive SelectionLine (depth : Nat) (inherited : OrderRule) : Phrase Selection where
  | mk {word front condition back selected comma} (keyword : word.IsWord "match")
      (asked : InParens (Arithmetic depth) front condition)
      (body : Selecting depth inherited back selected) (ends : comma.kind = .comma) :
      SelectionLine depth inherited (word :: (front ++ (back ++ [comma])))
        ⟨condition, selected, word.span⟩

/-! Declarations. -/

inductive Item (depth : Nat) (inherited : OrderRule) : Phrase StructItem where
  | member {tokens member} (line : MemberLine depth inherited tokens member) :
      Item depth inherited tokens (.member member)
  | selection {tokens selection} (line : SelectionLine depth inherited tokens selection) :
      Item depth inherited tokens (.selection selection)

/-- Without a byte order the most significant byte comes first. -/
inductive StructBlock (depth : Nat) : Phrase StructDef where
  | mk {front order word name opening tokens items closing}
      (ordered : Optional (Order depth) front order) (keyword : word.IsWord "struct")
      (named : name.kind = .identifier) (opens : opening.kind = .leftBrace)
      (body : Many (Item depth (order.getD (.fixed .big))) tokens items)
      (closes : closing.kind = .rightBrace) :
      StructBlock depth (front ++ word :: name :: opening :: (tokens ++ [closing]))
        ⟨⟨name.content, name.span⟩, order.getD (.fixed .big), items⟩

/-- A member of a bitfield. Without a size it is one bit wide. -/
inductive BitfieldLine (depth : Nat) : Phrase BitfieldMember where
  | mk {name tokens size comma} (named : name.kind = .identifier)
      (sized : Optional (InParens (Arithmetic depth)) tokens size) (ends : comma.kind = .comma) :
      BitfieldLine depth (name :: (tokens ++ [comma]))
        ⟨⟨name.content, name.span⟩, size.getD (.int 1 name.span)⟩

inductive BitfieldBlock (depth : Nat) : Phrase BitfieldDef where
  | mk {word name front byteSize opening tokens members closing}
      (keyword : word.IsWord "bitfield") (named : name.kind = .identifier)
      (sized : Optional (InParens (Arithmetic depth)) front byteSize)
      (opens : opening.kind = .leftBrace) (body : Many (BitfieldLine depth) tokens members)
      (closes : closing.kind = .rightBrace) :
      BitfieldBlock depth (word :: name :: (front ++ opening :: (tokens ++ [closing])))
        ⟨⟨name.content, name.span⟩, byteSize, members⟩

inductive Declared (depth : Nat) : Phrase Declaration where
  | struct {tokens struct} (block : StructBlock depth tokens struct) :
      Declared depth tokens (.struct struct)
  | bitfield {tokens bitfield} (block : BitfieldBlock depth tokens bitfield) :
      Declared depth tokens (.bitfield bitfield)

def Description (depth : Nat) : Phrase (List Declaration) :=
  Many (Declared depth)

end RecordLayout.Grammar
