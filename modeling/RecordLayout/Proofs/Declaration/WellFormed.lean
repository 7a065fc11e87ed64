import RecordLayout.Compile
import RecordLayout.Proofs.Expr.Readable
import RecordLayout.Proofs.Grammar.Description
import RecordLayout.Proofs.Outcome

/-! What is accepted is well formed, whichever way a part of it was written: words of the language name nothing, types
are those of one table and end where they have to, and no selection and no group is empty. -/

namespace RecordLayout

open Grammar Phrase RecordLayout.Parser

namespace Primitive

/-- Name, size in bytes and whether values have a sign. -/
def table : List (String × Option Nat × Bool) :=
  [("uint8", some 1, false), ("uint16", some 2, false), ("uint24", some 3, false), ("uint32", some 4, false),
   ("uint40", some 5, false), ("uint48", some 6, false), ("uint64", some 8, false), ("uint128", some 16, false),
   ("int8", some 1, true), ("int16", some 2, true), ("int24", some 3, true), ("int32", some 4, true),
   ("int40", some 5, true), ("int48", some 6, true), ("int64", some 8, true), ("int128", some 16, true),
   ("float", some 4, true), ("double", some 8, true), ("string", none, false), ("bytes", none, false)]

theorem find?_table (primitive : Primitive) :
    table.find? (·.1 == primitive.name) = some (primitive.name, primitive.byteSize, primitive.isSigned) := by
  cases primitive with
  | unsigned width | signed width => cases width <;> rfl
  | _ => rfl

theorem isDelimited_iff_name {primitive : Primitive} :
    primitive.IsDelimited ↔ primitive.name = "string" ∨ primitive.name = "bytes" := by
  cases primitive with
  | unsigned width | signed width => cases width <;> simp [IsDelimited, name]
  | _ => simp [IsDelimited, name]

end Primitive

/-- At least one segment, and each is a name. -/
def Path.WellNamed (path : Path) : Prop :=
  path.segments ≠ [] ∧ ∀ segment ∈ path.segments, Token.IsName segment

/-- The type is the entry of the table with its name, and just `string` and `bytes` have a delimiter. -/
structure DataType.WellFormed (type : DataType) : Prop where
  entry : Primitive.table.find? (·.1 == type.primitive.name) =
    some (type.primitive.name, type.primitive.byteSize, type.primitive.isSigned)
  delimited : type.delimiter.isSome ↔ type.primitive.name = "string" ∨ type.primitive.name = "bytes"
  member : ∀ path, type.delimiter = some (.member path) → path.WellNamed

/-- `&&` and `||` join conditions, the other operators join expressions. -/
def Condition.WellFormed : Condition → Prop
  | relation left op right => op.symbol ∈ ["==", "!=", "<", ">", "<=", ">="] ∧ left.Readable ∧ right.Readable
  | junction left op right => op.symbol ∈ ["&&", "||"] ∧ left.WellFormed ∧ right.WellFormed

theorem Condition.wellFormed_iff {condition : Condition} : condition.WellFormed ↔ condition.Readable := by
  induction condition with
  | relation left op right => cases op <;> simp [WellFormed, Readable, Relation.symbol]
  | junction left op right leftIH rightIH =>
    cases op <;> simp [WellFormed, Readable, Connective.symbol, leftIH, rightIH]

/-- Names are names, references and expressions are made of names, and operators and types are where they belong. -/
def Demands.wellFormed : Demands where
  name name := Token.IsName name.text
  path := Path.WellNamed
  expr := Expr.Readable
  condition := Condition.WellFormed
  type := DataType.WellFormed

theorem hereditary_wellFormed : Demands.wellFormed.Hereditary where
  operand readable := readable.2
  binary readable := readable
  junction wellFormed := wellFormed.2
  relation wellFormed := wellFormed.2

theorem yields_ending : Yields Token.WellNamed Ending fun delimiter =>
    ∀ path, delimiter = .member path → path.WellNamed := by
  intro tokens delimiter named there path shape
  cases there with
  | member dotted =>
    cases shape
    exact yields_dotted _ _ named dotted
  | _ => cases shape

theorem isSome_of_completed {tokens : List Token} {type whole : DataType} (there : Primary tokens type)
    (completed : Completed type whole) : whole.delimiter.isSome ↔ whole.primitive.IsDelimited := by
  cases completed with
  | fixedSize sized =>
    cases there with
    | bare => simp [sized]
    | delimited _ _ takes => exact absurd takes sized
  | written given =>
    cases there with
    | bare => cases given
    | delimited _ _ takes => simp [takes]
  | zeroByte => simp [Primitive.IsDelimited]

/-- A delimiter that names a member has been written. -/
theorem written_of_completed {type whole : DataType} {path : Path} (completed : Completed type whole)
    (shape : whole.delimiter = some (.member path)) : type.delimiter = some (.member path) := by
  cases completed with
  | fixedSize => exact shape
  | written => exact shape
  | zeroByte => cases shape

theorem yields_primary (whole : DataType) :
    Yields Token.WellNamed Primary fun type => Completed type whole → whole.WellFormed := by
  intro tokens type named there completed
  refine ⟨whole.primitive.find?_table, ?_, ?_⟩
  · rw [← Primitive.isDelimited_iff_name]
    exact isSome_of_completed there completed
  · intro path shape
    have written := written_of_completed completed shape
    cases there with
    | bare => cases written
    | delimited _ _ _ ending =>
      cases written
      exact yields_ending.inParens _ _ (List.forall_mem_cons.mp named).2 ending path rfl

theorem supplies_wellFormed (depth : Nat) : Supplies Token.WellNamed depth .wellFormed where
  name _ named identifier := named identifier
  path := yields_dotted
  expr := readable_arithmetic depth
  oneBit _ := trivial
  condition inner _ := (readable_logic inner).mono fun _ => Condition.wellFormed_iff.mpr
  type := yields_primary

section

variable {depth : Nat} {tokens : List Token} {declared : List Declaration}

theorem readable_condition (named : WellNamed tokens) (there : Description depth tokens declared)
    {condition : Condition} (occurs : condition.Occurs declared) : condition.Readable :=
  Condition.wellFormed_iff.mp
    (occurs.meets hereditary_wellFormed (yields_description (supplies_wellFormed depth) _ _ named there))

theorem readable_expr (named : WellNamed tokens) (there : Description depth tokens declared)
    {expr : Expr} (occurs : expr.Occurs declared) : expr.Readable :=
  occurs.meets hereditary_wellFormed (yields_description (supplies_wellFormed depth) _ _ named there)

end

theorem wellNamed_meaningful {source : Source} {tokens : List Token} (scanned : tokenize source = .ok tokens) :
    WellNamed (Token.meaningful tokens) :=
  fun token member => isName_of_tokenize scanned token ((Token.meaningful_sublist tokens).subset member)

theorem description_of_parse {limit : Nat} {source : Source} {declared : List Declaration}
    (accepted : parse limit source = .ok declared) :
    ∃ tokens, WellNamed tokens ∧ Description limit tokens declared := by
  obtain ⟨tokens, scanned, there⟩ := parse_eq_ok.mp accepted
  exact ⟨Token.meaningful tokens, wellNamed_meaningful scanned, there⟩

theorem wellFormed_of_parse {limit : Nat} {source : Source} {declared : List Declaration}
    (accepted : parse limit source = .ok declared) :
    ∀ declaration ∈ declared, declaration.Meets .wellFormed := by
  obtain ⟨tokens, named, there⟩ := description_of_parse accepted
  exact yields_description (supplies_wellFormed limit) _ _ named there

/-- A type that a condition chooses, a group, a delimiter behind a length, and a size that is not written. -/
def variedSource : Source :=
  ⟨"", "struct s\x7b(1<x?bytes(a.b):t)c,match(1)\x7b2:\x7bstring[]('|')d,\x7d,\x7d,\x7dbitfield g\x7bh,\x7d"⟩

def variedSpan (start stop : Nat) : Span :=
  ⟨⟨start, 0, start, variedSource⟩, ⟨stop, 0, stop, variedSource⟩⟩

def variedChoice : Choice TypeRef where
  condition := .relation (.int 1 (variedSpan 10 11)) .less (.ref ⟨["x"], variedSpan 12 13⟩)
  ifTrue := .data ⟨.bytes, some (.member ⟨["a", "b"], variedSpan 20 23⟩), variedSpan 14 19⟩
  ifFalse := .named ⟨["t"], variedSpan 25 26⟩
  span := variedSpan 9 27

def variedText : MemberInfo where
  type := .plain (.data ⟨.string, some (.char "|" (variedSpan 50 53)), variedSpan 41 47⟩)
  order := .fixed .big
  repetition := some .untilEnd

def variedGroups : Selection where
  condition := .int 1 (variedSpan 35 36)
  selected := .groups [⟨.int 2 (variedSpan 38 39), [⟨⟨"d", variedSpan 54 55⟩, variedText⟩]⟩]
  span := variedSpan 29 34

def variedStruct : StructDef :=
  ⟨⟨"s", variedSpan 7 8⟩, .fixed .big,
    [.member ⟨⟨"c", variedSpan 27 28⟩, .chosen variedChoice, .fixed .big, none⟩, .selection variedGroups]⟩

def variedBitfield : BitfieldDef :=
  ⟨⟨"g", variedSpan 70 71⟩, none, [⟨⟨"h", variedSpan 72 73⟩, .int 1 (variedSpan 72 73)⟩]⟩

theorem wellFormed_of_variedSource :
    parse 2 variedSource = .ok [.struct variedStruct, .bitfield variedBitfield] ∧
      variedStruct.Meets .wellFormed ∧ variedBitfield.Meets .wellFormed := by
  have accepted : parse 2 variedSource = .ok [.struct variedStruct, .bitfield variedBitfield] := by cbv
  have meets := wellFormed_of_parse accepted
  exact ⟨accepted, meets (.struct variedStruct) (by simp), meets (.bitfield variedBitfield) (by simp)⟩

end RecordLayout
