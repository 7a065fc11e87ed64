import RecordLayout.Proofs.Expr.Reparse
import RecordLayout.Proofs.Text.Pieces
import RecordLayout.Proofs.Token.Lexeme

/-! Strings that end at what a literal says. The scan passes over a literal piece by piece, as decoding does, so
the bytes of the delimiter are those of the pieces. -/

namespace RecordLayout

open Grammar Phrase RecordLayout.Parser Token Text

/-! Literals. -/

namespace Token

/-- The characters are passed over on the way to the quote that closes a literal. -/
def Passes (chars : List Char) : Prop :=
  ∀ count rest, closing? '\x22' count (chars ++ rest) = closing? '\x22' (count + chars.length) rest

theorem passes_nil : Passes [] := fun _ _ => rfl

theorem passes_plain {c : Char} (raw : c ≠ '\\' ∧ c ≠ '\x22') : Passes [c] := by
  intro count rest
  rw [List.singleton_append, closing?_cons raw.1, if_neg raw.2]
  rfl

theorem passes_escape (c : Char) : Passes ['\\', c] := fun _ _ => rfl

theorem Passes.append {front back : List Char} (first : Passes front) (second : Passes back) : Passes (front ++ back) := by
  intro count rest
  rw [List.append_assoc, first, second, List.length_append, Nat.add_assoc]

theorem passes_piece (piece : Piece) : Passes piece.text := by
  cases piece with
  | plain c raw => exact passes_plain raw
  | escape letter => exact passes_escape _
  | pair high low => exact (passes_escape 'x').append ((passes_plain high.plain).append (passes_plain low.plain))
  | single digit => exact (passes_escape 'x').append (passes_plain digit.plain)

theorem passes_pieces (pieces : List Piece) : Passes (pieces.flatMap Piece.text) := by
  induction pieces with
  | nil => exact passes_nil
  | cons piece pieces ih => exact (passes_piece piece).append ih

theorem Passes.finds {content rest : List Char} (passes : Passes content) :
    Finds ('\x22' :: (content ++ ['\x22'])) rest (IsOne .string ('\x22' :: (content ++ ['\x22']))) := by
  apply finds_token _ fun ends => by cases ends
  have closed : closing? '\x22' 0 (content ++ ['\x22'] ++ rest) = some (content ++ ['\x22']).length := by
    rw [List.append_assoc, passes]
    simp [closing?_cons]
  have read : quoted '\x22' .string (content ++ ['\x22'] ++ rest) = .token .string (content ++ ['\x22']).length := by
    rw [quoted, closed]
    simp
  exact front_eq_token.mpr (.quoted (.inl ⟨rfl, rfl⟩) read)

end Token

/-! Descriptions. -/

/-- A struct with one member, a string that ends at what the pieces stand for. -/
def delimitedSource (id : String) (pieces : List Piece) : Source :=
  ⟨id, "struct s \x7b string(\"" ++ String.ofList (pieces.flatMap Piece.text) ++ "\") m, \x7d"⟩

/-- The declarations are a struct `s` with one member `m`, a string with a delimiter of these bytes. -/
inductive IsDelimited (bytes : List UInt8) : List Declaration → Prop where
  | mk {struct member span type delimiter order} (declared : struct = ⟨⟨"s", span⟩, order, [.member member]⟩)
      (named : member.name.text = "m") (plain : member.info.type = .plain (.data type))
      (sort : type.primitive = .string) (ends : type.delimiter = some delimiter)
      (decoded : delimiter.literalBytes? = some bytes) : IsDelimited bytes [.struct struct]

def delimitedStart : List Char :=
  ['s', 't', 'r', 'u', 'c', 't'] ++ ' ' :: (['s'] ++ ' ' :: (['\x7b'] ++ ' ' :: (['s', 't', 'r', 'i', 'n', 'g'] ++ ['('])))

def delimitedEnd : List Char :=
  [')'] ++ ' ' :: (['m'] ++ ([','] ++ ' ' :: ['\x7d']))

/-- The tokens of such a struct, but for the literal. -/
theorem description_of_delimited {pieces : List Piece} (separate : pieces.IsChain Piece.Separate)
    {word name opening type first literal last field comma closing : Token} (keyword : word.IsWord "struct")
    (isName : name.kind = .identifier ∧ name.content = "s") (opens : opening.kind = .leftBrace)
    (isType : type.kind = .dataType ∧ type.content = "string") (begins : first.kind = .leftParen)
    (quoted : literal.kind = .string ∧ literal.content = String.ofList (pieces.flatMap Piece.text))
    (ends : last.kind = .rightParen) (isField : field.kind = .identifier ∧ field.content = "m")
    (separates : comma.kind = .comma) (closes : closing.kind = .rightBrace) :
    ∃ declared, Description 0 [word, name, opening, type, first, literal, last, field, comma, closing] declared ∧
      IsDelimited (pieces.flatMap Piece.bytes) declared := by
  have spelled : type.content = Primitive.string.name := isType.2
  have primary : Primary (type :: first :: ([literal] ++ [last])) _ :=
    .delimited isType.1 spelled (.inl rfl) (.mk begins (.string quoted.1) ends)
  have typed : Typed 0 (type :: first :: ([literal] ++ [last]) ++ []) _ := .data primary .absent (.written rfl)
  have info : Info 0 (.fixed .big) ([] ++ (type :: first :: ([literal] ++ [last]) ++ [])) _ := .mk .absent typed
  have item : Item 0 (.fixed .big) ([] ++ (type :: first :: ([literal] ++ [last]) ++ []) ++ [field, comma]) _ :=
    .member (.mk info isField.1 separates)
  have block : StructBlock 0 ([] ++ word :: name :: opening ::
      ([] ++ (type :: first :: ([literal] ++ [last]) ++ []) ++ [field, comma] ++ [] ++ [closing])) _ :=
    .mk .absent keyword isName.1 opens (.cons item .nil) closes
  have description := Many.cons (Declared.struct block) .nil
  refine ⟨_, by simpa [Description] using description, .mk (by rw [isName.2]) isField.2 rfl rfl rfl ?_⟩
  rw [Delimiter.literalBytes?, quoted.2, String.toList_ofList, unescape_pieces separate]

theorem finds_delimitedStart {rest : List Char} : Finds delimitedStart rest fun tokens => Solid tokens ∧
    ∃ word name opening type first, tokens = [word, name, opening, type, first] ∧ word.IsWord "struct" ∧
      (name.kind = .identifier ∧ name.content = "s") ∧ opening.kind = .leftBrace ∧
      (type.kind = .dataType ∧ type.content = "string") ∧ first.kind = .leftParen := by
  have word (rest) : Finds ['s', 't', 'r', 'u', 'c', 't'] (' ' :: rest) (IsOne .keyword _) :=
    finds_lexeme (by decide) (by decide) (by decide) fun d first => by cases first; decide
  have name (rest) : Finds ['s'] (' ' :: rest) (IsOne .identifier _) :=
    finds_lexeme (by decide) (by decide) (by decide) fun d first => by cases first; decide
  have opening (rest) : Finds ['\x7b'] rest (IsOne .leftBrace _) := finds_mark rfl (by decide)
  have type (rest) : Finds ['s', 't', 'r', 'i', 'n', 'g'] ('(' :: rest) (IsOne .dataType _) :=
    finds_lexeme (by decide) (by decide) (by decide) fun d first => by cases first; decide
  have first (rest) : Finds ['('] rest (IsOne .leftParen _) := finds_mark rfl (by decide)
  have line := (word _).append ((name _).append ((opening _).append ((type _).append (first rest)).space).space).space
  apply line.mono
  intro tokens ⟨_, _, same, word, _, _, nameNext, name, _, _, openingNext, opening, _, _, typeNext, type, first⟩
  obtain ⟨word, rfl, isWord, wordText⟩ := word
  obtain ⟨name, rfl, isName, nameText⟩ := name
  obtain ⟨opening, rfl, opens, _⟩ := opening
  obtain ⟨type, rfl, isType, typeText⟩ := type
  obtain ⟨first, rfl, begins, _⟩ := first
  subst same nameNext openingNext typeNext
  have keyword : word.IsWord "struct" := by
    simp [IsWord, content, isWord, wordText, textOf]
  exact ⟨by simp [Solid, isWord, isName, opens, isType, begins], word, name, opening, type, first, rfl, keyword,
    ⟨isName, by simp [content, nameText, textOf]⟩, opens, ⟨isType, by simp [content, typeText, textOf]⟩, begins⟩

theorem finds_delimitedEnd : Finds delimitedEnd [] fun tokens => Solid tokens ∧
    ∃ last field comma closing, tokens = [last, field, comma, closing] ∧ last.kind = .rightParen ∧
      (field.kind = .identifier ∧ field.content = "m") ∧ comma.kind = .comma ∧ closing.kind = .rightBrace := by
  have last (rest) : Finds [')'] (' ' :: rest) (IsOne .rightParen [')']) :=
    finds_closing rfl (by decide) (by simp)
  have field (rest) : Finds ['m'] (',' :: rest) (IsOne .identifier _) :=
    finds_lexeme (by decide) (by decide) (by decide) fun d first => by cases first; decide
  have comma (rest) : Finds [','] rest (IsOne .comma _) := finds_mark rfl (by decide)
  have closing : Finds ['\x7d'] [] (IsOne .rightBrace _) := finds_mark rfl (by decide)
  have line := (last _).append ((field _).append ((comma _).append closing.space)).space
  apply line.mono
  intro tokens ⟨_, _, same, last, _, _, fieldNext, field, _, _, commaNext, comma, closing⟩
  obtain ⟨last, rfl, ends, _⟩ := last
  obtain ⟨field, rfl, isField, fieldText⟩ := field
  obtain ⟨comma, rfl, separates, _⟩ := comma
  obtain ⟨closing, rfl, closes, _⟩ := closing
  subst same fieldNext commaNext
  exact ⟨by simp [Solid, ends, isField, separates, closes], last, field, comma, closing, rfl, ends,
    ⟨isField, by simp [content, fieldText, textOf]⟩, separates, closes⟩

theorem finds_delimited {id : String} {pieces : List Piece} (separate : pieces.IsChain Piece.Separate) :
    Finds (delimitedSource id pieces).text.toList [] fun tokens => Solid tokens ∧
      ∃ declared, Description 0 tokens declared ∧ IsDelimited (pieces.flatMap Piece.bytes) declared := by
  have literal := @Passes.finds _ (delimitedEnd ++ []) (passes_pieces pieces)
  have line := finds_delimitedStart.append (literal.append finds_delimitedEnd)
  have spelled : (delimitedSource id pieces).text.toList =
      delimitedStart ++ ('\x22' :: (pieces.flatMap Piece.text ++ ['\x22']) ++ delimitedEnd) := by
    simp [delimitedSource, delimitedStart, delimitedEnd]
  rw [spelled]
  apply line.mono
  intro tokens ⟨_, _, same, ⟨startSolid, word, name, opening, type, first, front, keyword, isName, opens, isType,
    begins⟩, _, _, next, literal, endSolid, last, field, comma, closing, back, ends, isField, separates, closes⟩
  have literalSolid := literal.solid ⟨by decide, by decide⟩
  obtain ⟨literal, rfl, isLiteral, literalText⟩ := literal
  subst same next front back
  have content : literal.content = String.ofList (pieces.flatMap Piece.text) := by
    simp [content, literalText, textOf]
  exact ⟨startSolid.append (literalSolid.append endSolid), description_of_delimited separate keyword isName opens
    isType begins ⟨isLiteral, content⟩ ends isField separates closes⟩

/-- The limit plays no part, as nothing is nested. -/
theorem parse_delimitedSource {pieces : List Piece} (separate : pieces.IsChain Piece.Separate) (nesting : Nat)
    (id : String) : ∃ declared, parse nesting (delimitedSource id pieces) = .ok declared ∧
      IsDelimited (pieces.flatMap Piece.bytes) declared := by
  obtain ⟨tokens, last, scanned, ⟨solid, declared, there, delimited⟩, ends⟩ :=
    tokenize_of_finds (@finds_delimited id pieces separate)
  exact ⟨declared, parse_of_solid scanned ends solid there (Nat.zero_le nesting), delimited⟩

/-- Every literal that is written piece by piece parses and stands for its bytes, and every delimiter can be
written so. -/
theorem literalBytes_of_delimitedSource (nesting : Nat) (id : String) :
    (∀ pieces : List Piece, pieces.IsChain Piece.Separate →
      ∃ declared, parse nesting (delimitedSource id pieces) = .ok declared ∧
        IsDelimited (pieces.flatMap Piece.bytes) declared) ∧
    ∀ bytes : List UInt8, ∃ pieces declared, pieces.IsChain Piece.Separate ∧
      parse nesting (delimitedSource id pieces) = .ok declared ∧ IsDelimited bytes declared := by
  constructor
  · exact fun pieces separate => parse_delimitedSource separate nesting id
  · intro bytes
    obtain ⟨pieces, separate, same⟩ := exists_pieces bytes
    obtain ⟨declared, parsed, delimited⟩ := parse_delimitedSource separate nesting id
    exact ⟨pieces, declared, separate, parsed, same ▸ delimited⟩

/-- An escaped quote and an escaped backslash, a digit that stands alone before a letter, a byte with both digits,
and a character of two bytes. -/
def mixedPieces : List Piece :=
  [.escape .quote, .escape .backslash, .single ⟨⟨10, by decide⟩, true⟩, .plain 'g' (by decide),
    .pair ⟨⟨4, by decide⟩, false⟩ ⟨⟨15, by decide⟩, false⟩, .plain 'é' (by decide)]

theorem separate_mixedPieces : mixedPieces.IsChain Piece.Separate := by
  have noDigit (other : HexDigit) : 'g' ≠ other.char := by
    intro same
    have read := other.hexDigit?_char
    rw [← same] at read
    cases read
  simpa [mixedPieces, Piece.Separate, Piece.text] using noDigit

theorem literalBytes_of_mixedPieces :
    (delimitedSource "" mixedPieces).text = "struct s \x7b string(\"\\\"\\\\\\xAg\\x4fé\") m, \x7d" ∧
    (∃ declared, parse 0 (delimitedSource "" mixedPieces) = .ok declared ∧
      IsDelimited [0x22, 0x5C, 0x0A, 0x67, 0x4F, 0xC3, 0xA9] declared) ∧
    ∃ pieces declared, pieces.IsChain Piece.Separate ∧
      parse 0 (delimitedSource "" pieces) = .ok declared ∧ IsDelimited [0x00, 0xFF] declared := by
  have bytes : mixedPieces.flatMap Piece.bytes = [0x22, 0x5C, 0x0A, 0x67, 0x4F, 0xC3, 0xA9] := by decide
  obtain ⟨written, writable⟩ := literalBytes_of_delimitedSource 0 ""
  exact ⟨by decide, bytes ▸ written mixedPieces separate_mixedPieces, writable [0x00, 0xFF]⟩

end RecordLayout
