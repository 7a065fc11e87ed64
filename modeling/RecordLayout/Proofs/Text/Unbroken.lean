import RecordLayout.Proofs.Declaration.WellFormed
import RecordLayout.Proofs.Decimal.Word

/-! Texts on one line. What is shown of well-formed declarations holds no line break: names and signs cannot, numbers
are digits and marks, and apart from these there are only the delimiters, which show what is written in them. -/

namespace RecordLayout

/-- The text is on one line. -/
def Text.Unbroken (text : String) : Prop :=
  '\n' ∉ text.toList

instance (text : String) : Decidable (Text.Unbroken text) :=
  inferInstanceAs (Decidable (_ ∉ _))

open Text (Unbroken)

@[simp] theorem Text.unbroken_append {front back : String} :
    Unbroken (front ++ back) ↔ Unbroken front ∧ Unbroken back := by
  simp [Unbroken]

theorem Text.unbroken_ofList {chars : List Char} : Unbroken (String.ofList chars) ↔ '\n' ∉ chars := by
  rw [Unbroken, String.toList_ofList]

/-! Words and signs. -/

theorem Token.IsName.unbroken {word : String} (name : Token.IsName word) : Unbroken word := by
  obtain ⟨c, more, spelled, letter, wordlike⟩ := name.spelled
  intro member
  rw [spelled] at member
  rcases List.mem_cons.mp member with rfl | member
  · exact absurd letter (by decide)
  · exact absurd (wordlike _ member) (by decide)

theorem Path.WellNamed.unbroken {path : Path} (named : path.WellNamed) : Unbroken path.name := by
  have each := named.2
  rw [Path.name]
  generalize path.segments = segments at each
  induction segments with
  | nil => exact List.not_mem_nil
  | cons first others ih =>
    rw [List.forall_mem_cons] at each
    cases others with
    | nil => exact String.intercalate_singleton ▸ each.1.unbroken
    | cons next others =>
      rw [String.intercalate_cons_cons, Text.unbroken_append, Text.unbroken_append]
      exact ⟨⟨each.1.unbroken, by decide⟩, ih each.2⟩

theorem Operator.unbroken_symbol (op : Operator) : Unbroken op.symbol := by
  cases op <;> decide

theorem Relation.unbroken_symbol (op : Relation) : Unbroken op.symbol := by
  cases op <;> decide

theorem Connective.unbroken_symbol (op : Connective) : Unbroken op.symbol := by
  cases op <;> decide

theorem ByteOrder.unbroken_keyword (order : ByteOrder) : Unbroken order.keyword := by
  cases order <;> decide

theorem Primitive.unbroken_name (primitive : Primitive) : Unbroken primitive.name := by
  have each : ∀ primitive ∈ Primitive.all, Unbroken primitive.name := by decide
  exact each primitive primitive.mem_all

/-! Numbers. -/

theorem newline_not_mem_toDigits {base : Nat} (wide : 1 < base) (size : Nat) : '\n' ∉ Nat.toDigits base size := by
  have digit (size : Nat) : '\n' ∉ [Nat.digitChar size] := by simp
  induction size using Nat.strongRecOn with
  | ind size ih =>
    rw [Nat.toDigits_eq_if wide]
    split
    next => exact digit size
    next large =>
      have smaller : size / base < size := Nat.div_lt_self (by omega) wide
      rw [List.mem_append]
      exact not_or.mpr ⟨ih _ smaller, digit _⟩

theorem unbroken_toString (value : Int) : Unbroken (toString value) := by
  cases value with
  | ofNat size =>
    have digits := newline_not_mem_toDigits (by decide : 1 < 10) size
    rw [← Decimal.toList_toString_ofNat] at digits
    exact digits
  | negSucc size =>
    rw [Unbroken, Decimal.toList_toString_negSucc]
    exact List.not_mem_cons_of_ne_of_not_mem (by decide) (newline_not_mem_toDigits (by decide) (size + 1))

theorem unbroken_padded {count : Nat} {digits : List Char} (plain : '\n' ∉ digits) :
    Unbroken (String.ofList (List.replicate count '0' ++ digits)) := by
  rw [Text.unbroken_ofList, List.mem_append, List.mem_replicate]
  exact not_or.mpr ⟨fun zero => absurd zero.2 (by decide), plain⟩

section

variable {digits : List Char} (plain : '\n' ∉ digits)

include plain

theorem unbroken_positional (exponent : Int) : Unbroken (floatStyle.positional digits exponent) := by
  have front (count : Nat) : '\n' ∉ digits.take count := fun member => plain (List.mem_of_mem_take member)
  have back (count : Nat) : '\n' ∉ digits.drop count := fun member => plain (List.mem_of_mem_drop member)
  have zeros (count : Nat) : '\n' ∉ List.replicate count '0' := fun member =>
    absurd (List.mem_replicate.mp member).2 (by decide)
  rw [Decimal.Style.positional]
  split
  · refine Text.unbroken_append.mpr ⟨Text.unbroken_ofList.mpr ?_, by decide⟩
    exact fun member => (List.mem_append.mp member).elim plain (zeros _)
  · split
    · refine Text.unbroken_ofList.mpr fun member => ?_
      exact (List.mem_append.mp member).elim (front _) (List.not_mem_cons_of_ne_of_not_mem (by decide) (back _))
    · exact Text.unbroken_append.mpr ⟨by decide, unbroken_padded plain⟩

theorem unbroken_scientific (lead : Int) : Unbroken (floatStyle.scientific digits lead) := by
  have front : '\n' ∉ digits.take 1 := fun member => plain (List.mem_of_mem_take member)
  have back : '\n' ∉ digits.drop 1 := fun member => plain (List.mem_of_mem_drop member)
  have fraction : '\n' ∉ if (digits.drop 1).isEmpty then [] else '.' :: digits.drop 1 := by
    split
    · exact List.not_mem_nil
    · exact List.not_mem_cons_of_ne_of_not_mem (by decide) back
  refine Text.unbroken_append.mpr ⟨Text.unbroken_append.mpr ⟨Text.unbroken_ofList.mpr ?_, by decide⟩, ?_⟩
  · exact fun member => (List.mem_append.mp member).elim front fraction
  · exact unbroken_toString lead

end

theorem unbroken_float (value : Float) : Unbroken (floatStyle.write value) := by
  have digits (value : Decimal) := newline_not_mem_toDigits (by decide : 1 < 10) value.digits
  have magnitude (value : Decimal) : Unbroken (floatStyle.magnitude value) := by
    rw [Decimal.Style.magnitude]
    split
    · exact unbroken_positional (digits value) _
    · exact unbroken_scientific (digits value) _
  have sign (negative : Prop) [Decidable negative] : Unbroken (if negative then "" else "-") := by
    split <;> decide
  rw [Decimal.Style.write]
  split
  · decide
  · split
    · exact Text.unbroken_append.mpr ⟨sign _, by decide⟩
    · split
      · exact Text.unbroken_append.mpr ⟨Text.unbroken_append.mpr ⟨sign _, by decide⟩, by decide⟩
      · exact Text.unbroken_append.mpr ⟨sign _, magnitude _⟩

theorem Delimiter.unbroken_hexText (value : Int64) : Unbroken (hexText value) := by
  have digits := newline_not_mem_toDigits (by decide : 1 < 16) value.toUInt64.toNat
  exact Text.unbroken_append.mpr ⟨by decide, unbroken_padded digits⟩

/-! What declarations show. -/

theorem Expr.Readable.unbroken {expr : Expr} (readable : expr.Readable) : Unbroken expr.text := by
  induction expr with
  | int value => exact unbroken_toString value.toInt
  | float value => exact unbroken_float value
  | ref path => exact Path.WellNamed.unbroken readable
  | unary op operand span ih =>
    simp only [Expr.text, Text.unbroken_append]
    exact ⟨⟨⟨by decide, op.unbroken_symbol⟩, ih readable.2⟩, by decide⟩
  | binary left op right leftIh rightIh =>
    simp only [Expr.text, Text.unbroken_append]
    exact ⟨⟨⟨⟨⟨⟨by decide, leftIh readable.1⟩, by decide⟩, op.unbroken_symbol⟩, by decide⟩, rightIh readable.2⟩,
      by decide⟩

theorem Expr.Readable.unbroken_folded {expr : Expr} (readable : expr.Readable) : Unbroken expr.foldedText := by
  rw [Expr.foldedText]
  split
  next value _ =>
    cases value with
    | int value => exact unbroken_toString value.toInt
    | float value => exact unbroken_float value
  next => exact readable.unbroken

theorem Condition.Readable.unbroken {condition : Condition} (readable : condition.Readable) :
    Unbroken condition.text := by
  induction condition with
  | relation left op right =>
    simp only [Condition.text, Text.unbroken_append]
    exact ⟨⟨⟨⟨⟨⟨by decide, readable.1.unbroken⟩, by decide⟩, op.unbroken_symbol⟩, by decide⟩, readable.2.unbroken⟩,
      by decide⟩
  | junction left op right leftIh rightIh =>
    simp only [Condition.text, Text.unbroken_append]
    exact ⟨⟨⟨⟨⟨⟨by decide, leftIh readable.1⟩, by decide⟩, op.unbroken_symbol⟩, by decide⟩, rightIh readable.2⟩,
      by decide⟩

theorem Choice.Meets.unbroken {arm : α → Prop} {choice : Choice α} {alternative : α → String}
    (meets : choice.Meets .wellFormed arm) (arms : ∀ value, arm value → Unbroken (alternative value)) :
    Unbroken (choice.text alternative) := by
  have test : Unbroken choice.condition.text := (Condition.wellFormed_iff.mp meets.condition).unbroken
  simp only [Choice.text, Text.unbroken_append]
  exact ⟨⟨⟨⟨⟨⟨by decide, test⟩, by decide⟩, arms _ meets.ifTrue⟩, by decide⟩, arms _ meets.ifFalse⟩, by decide⟩

theorem OrderRule.Meets.unbroken {order : OrderRule} (meets : order.Meets .wellFormed) : Unbroken order.text := by
  cases order with
  | fixed order => exact order.unbroken_keyword
  | chosen choice => exact Choice.Meets.unbroken meets fun order _ => order.unbroken_keyword

theorem TypeRef.Meets.unbroken {type : TypeRef} (meets : type.Meets .wellFormed) : Unbroken type.text := by
  cases type with
  | data type => exact type.primitive.unbroken_name
  | named path => exact Path.WellNamed.unbroken meets

theorem MemberType.Meets.unbroken {type : MemberType} (meets : type.Meets .wellFormed) : Unbroken type.text := by
  cases type with
  | plain type => exact TypeRef.Meets.unbroken meets
  | chosen choice => exact Choice.Meets.unbroken meets fun _ => TypeRef.Meets.unbroken

theorem Repetition.Meets.unbroken {repetition : Repetition} (meets : repetition.Meets .wellFormed) :
    Unbroken repetition.text := by
  cases repetition with
  | untilEnd => decide
  | count amount =>
    simp only [Repetition.text, Text.unbroken_append]
    exact ⟨⟨by decide, Expr.Readable.unbroken meets⟩, by decide⟩
  | whileTrue condition =>
    simp only [Repetition.text, Text.unbroken_append]
    exact ⟨⟨by decide, (Condition.wellFormed_iff.mp meets).unbroken⟩, by decide⟩

/-- What a literal delimiter has written in it is on one line. -/
def Delimiter.Unbroken : Delimiter → Prop
  | string text _ | char text _ => Text.Unbroken text
  | int _ _ | member _ => True

instance (delimiter : Delimiter) : Decidable delimiter.Unbroken :=
  match delimiter with
  | .string text _ | .char text _ => inferInstanceAs (Decidable (Text.Unbroken text))
  | .int _ _ | .member _ => inferInstanceAs (Decidable True)

theorem Delimiter.Unbroken.text {delimiter : Delimiter} (unbroken : delimiter.Unbroken)
    (named : ∀ path, delimiter = .member path → path.WellNamed) : Text.Unbroken delimiter.text := by
  cases delimiter with
  | string text span | char text span =>
    simp only [Delimiter.text, Text.unbroken_append]
    exact ⟨⟨by decide, unbroken⟩, by decide⟩
  | int value span => exact unbroken_hexText value
  | member path => exact (named path rfl).unbroken

/-- The delimiter that a member shows, if it shows one, is on one line. -/
def MemberInfo.Unbroken (info : MemberInfo) : Prop :=
  ∀ delimiter ∈ info.type.delimiter?, delimiter.Unbroken

instance (info : MemberInfo) : Decidable info.Unbroken :=
  inferInstanceAs (Decidable (∀ delimiter ∈ info.type.delimiter?, delimiter.Unbroken))

theorem MemberType.delimiter?_eq_some {type : MemberType} {delimiter : Delimiter}
    (found : type.delimiter? = some delimiter) : ∃ known, type = .plain (.data known) ∧ known.delimiter = delimiter := by
  unfold MemberType.delimiter? at found
  split at found
  next known => exact ⟨known, rfl, found⟩
  next => cases found

theorem MemberInfo.Unbroken.text {info : MemberInfo} (unbroken : info.Unbroken) (meets : info.Meets .wellFormed) :
    Text.Unbroken info.text := by
  have repetition : Text.Unbroken ((info.repetition.map Repetition.text).getD "") := by
    cases shape : info.repetition with
    | none => decide
    | some repetition => exact (meets.repetition repetition shape).unbroken
  simp only [MemberInfo.text, Text.unbroken_append]
  refine ⟨⟨⟨⟨meets.type.unbroken, repetition⟩, by decide⟩, meets.order.unbroken⟩, ?_⟩
  cases found : info.type.delimiter? with
  | none => exact List.not_mem_nil
  | some delimiter =>
    obtain ⟨known, type, ends⟩ := MemberType.delimiter?_eq_some found
    have wellFormed : known.WellFormed := by
      have meets := meets.type
      rw [type] at meets
      exact meets
    have shown := (unbroken delimiter found).text fun path same => wellFormed.member path (same ▸ ends)
    exact Text.unbroken_append.mpr ⟨by decide, shown⟩

end RecordLayout
