import RecordLayout.Proofs.Span.Faithful
import RecordLayout.Proofs.Token.Faults
import RecordLayout.Proofs.Token.Readable

/-! What the scan keeps from parsers. A parser that finds a float or the name of a type malformed has a token before it
that its reader does not take, and among the tokens of a source there is none. For the same reason an escape that is
accepted as a delimiter is one byte. -/

namespace RecordLayout

open Grammar Located RecordLayout.Parser

/-! Messages. -/

theorem Text.head?_toList_append {front back : String} {c : Char} (first : front.toList.head? = some c) :
    (front ++ back).toList.head? = some c := by
  rw [String.toList_append, List.head?_append, first]
  rfl

namespace SyntaxFault

/-- What the message begins with. -/
def initial : SyntaxFault → Char
  | unexpected .. => 'e'
  | nestingTooDeep => 'n'
  | integerOutOfRange _ | malformedHexEscape _ => 'i'
  | malformedFloat | noCases | mixedCases | emptyGroup => 'm'
  | unknownDataType _ => 'u'
  | secondDelimiter _ => 'd'
  | bytesWithoutDelimiter => '\x27'
  | notByteOrders => 's'
  | namedGroups => 'a'

theorem head?_message (fault : SyntaxFault) : fault.message.toList.head? = some fault.initial := by
  cases fault with
  | unexpected => exact Text.head?_toList_append (Text.head?_toList_append (Text.head?_toList_append rfl))
  | integerOutOfRange | unknownDataType | secondDelimiter | malformedHexEscape =>
    exact Text.head?_toList_append (Text.head?_toList_append rfl)
  | _ => rfl

variable {fault other : SyntaxFault}

theorem initial_of_message (same : fault.message = other.message) : fault.initial = other.initial := by
  rw [← Option.some.injEq, ← head?_message, same, head?_message]

theorem eq_malformedFloat (same : fault.message = malformedFloat.message) : fault = malformedFloat := by
  have first := initial_of_message same
  cases fault with
  | malformedFloat => rfl
  | noCases | mixedCases | emptyGroup => exact absurd same (by decide)
  | _ => simp [initial] at first

theorem exists_unknownDataType {text : String} (same : fault.message = (unknownDataType text).message) :
    ∃ word, fault = unknownDataType word := by
  have first := initial_of_message same
  cases fault with
  | unknownDataType word => exact ⟨word, rfl⟩
  | _ => simp [initial] at first

/-- Of tokens that can be read nothing is said of how they are written. -/
theorem Concerns.readable {tokens : List Token} (concerns : fault.Concerns tokens)
    (readable : ∀ token ∈ tokens, token.IsReadable) :
    fault ≠ malformedFloat ∧ ∀ text, fault ≠ unknownDataType text := by
  cases concerns with
  | structural built => constructor <;> intros <;> rintro rfl <;> cases built
  | unexpected | integer | hexEscape => constructor <;> intros <;> rintro ⟨⟩
  | float there literal unread =>
    have taken := (readable _ there).float literal
    rw [unread] at taken
    cases taken
  | dataType there word unknown =>
    have taken := (readable _ there).dataType word
    rw [unknown] at taken
    cases taken

end SyntaxFault

/-- Whatever is wrong with the syntax of tokens is wrong with one of them, or with how they are put together. -/
theorem Declaration.exists_concerns {nesting : Nat} {tokens : List Token} {span : Span} {message : String}
    (refused : ofTokens nesting tokens = .error (.invalidSyntax span message)) :
    ∃ fault : SyntaxFault, fault.message = message ∧ fault.Concerns (Token.meaningful tokens) := by
  rw [ofTokens_eq] at refused
  split at refused
  next => cases refused
  next failure failed =>
    have blames := (@Parser.declarations_tracks id [] nesting).blames failed
    cases failure with
    | ended wanted => cases refused
    | fault known cause =>
      cases refused
      exact ⟨cause, rfl, blames.concerns _ _ rfl⟩

/-- What a scan says of syntax it says of char literals. -/
theorem head?_of_tokenize_error {source : Source} {span : Span} {message : String}
    (failed : tokenize source = .error (.invalidSyntax span message)) : message.toList.head? = some 'c' := by
  obtain ⟨_, _, _, _, cause, _, _, _, same, _⟩ := Token.fault_of_scanFrom failed
  cases cause with
  | illegal | unfinished => cases same
  | notOneChar content =>
    cases same
    exact Text.head?_toList_append (Text.head?_toList_append rfl)

/-- A fault that a source is refused for concerns tokens that can be read. -/
theorem readable_of_parse {nesting : Nat} {source : Source} {span : Span} {fault : SyntaxFault}
    (refused : parse nesting source = .error (.invalidSyntax span fault.message)) (other : fault.initial ≠ 'c') :
    ∃ cause : SyntaxFault, cause.message = fault.message ∧ cause ≠ .malformedFloat ∧
      ∀ text, cause ≠ .unknownDataType text := by
  rcases Outcome.bind_eq_error.mp refused with unscanned | ⟨tokens, scanned, unread⟩
  · have first := head?_of_tokenize_error unscanned
    rw [SyntaxFault.head?_message, Option.some.injEq] at first
    exact absurd first other
  · obtain ⟨cause, same, concerns⟩ := Declaration.exists_concerns unread
    refine ⟨cause, same, concerns.readable fun token member => ?_⟩
    exact Token.isReadable_of_tokenize scanned token ((Token.meaningful_sublist tokens).subset member)

/-! Escapes. -/

namespace Delimiter

/-- The delimiter is written with a backslash in front. -/
def IsEscape (delimiter : Delimiter) : Prop :=
  ∃ rest, delimiter.span.text? = some ("\\" ++ rest)

/-- The delimiter is a number that fits a byte, and that byte alone is what to look for. -/
inductive IsByte : Delimiter → Prop where
  | mk {value span} (low : 0 ≤ value.toInt) (high : value.toInt ≤ 255)
      (bytes : (int value span).literalBytes? = some [value.toInt.toNat.toUInt8]) : IsByte (.int value span)

theorem isByte_int {value : Int64} {span : Span} (fits : 0 ≤ value.toInt ∧ value.toInt < 256) :
    (int value span).IsByte :=
  ⟨fits.1, Int.le_of_lt_add_one fits.2, if_pos fits⟩

end Delimiter

theorem Token.exists_backslash {id rest : String} {tokens : List Token}
    (scanned : tokenize ⟨id, "\\" ++ rest⟩ = .ok tokens) : ∃ span more, tokens = ⟨.backslash, none, span⟩ :: more := by
  have shape : front false '\\' rest.toList = .token .backslash 0 := by
    simp [front, isSpace, operator?, punctuation?]
  have whole : ("\\" ++ rest).toList = '\\' :: rest.toList := String.toList_append
  rw [tokenize, whole, scanFrom_token shape] at scanned
  obtain ⟨more, rfl, _⟩ := covers_of_scanFrom scanned
  exact ⟨_, more, rfl⟩

/-- What begins with a backslash is scanned to a backslash first. -/
theorem Span.Scans.head?_eq {span : Span} {wanted : List (Token.Kind × Option String)} (scans : span.Scans wanted)
    {rest : String} (begins : span.text? = some ("\\" ++ rest)) : wanted.head? = some (.backslash, none) := by
  obtain ⟨text, covered, rescans⟩ := scans
  rw [begins, Option.some.injEq] at covered
  subst covered
  obtain ⟨tokens, scanned, rfl⟩ := rescans ""
  obtain ⟨place, more, rfl⟩ := Token.exists_backslash scanned
  rw [Token.meaningful_cons (by simp) (by simp)]
  rfl

/-- A number does not begin with a backslash. -/
theorem Decimal.int64?_backslash (rest : List Char) : int64? ('\\' :: rest) = none := by
  have unsigned : splitSign ('\\' :: rest) = (false, '\\' :: rest) := splitSign_of_unsigned (by simp)
  have other : natural? ('\\' :: rest) = none := if_neg fun digits => by simpa using digits.2
  simp only [int64?, signed?, unsigned, other]
  rfl

namespace Delimiter

variable {source : Source} {delimiter : Delimiter}

/-- Of the delimiters that are written as they are only an escape has a backslash in front. -/
theorem Faithful.isByte (faithful : delimiter.Faithful source) (escape : delimiter.IsEscape) : delimiter.IsByte := by
  obtain ⟨rest, begins⟩ := escape
  cases faithful with
  | string shows | char shows =>
    rw [span, shows.covered, Option.some.injEq] at begins
    have first := congrArg (·.toList.head?) begins
    simp at first
  | decimal shows =>
    obtain ⟨text, shows, read⟩ := shows
    rw [span, shows.covered, Option.some.injEq] at begins
    rw [begins, String.toList_append] at read
    exact absurd read (by simp [Decimal.int64?_backslash])
  | @hex value digits place valid scans read =>
    obtain ⟨text, _, rescans⟩ := scans
    obtain ⟨tokens, scanned, said⟩ := rescans ""
    obtain ⟨token, member, same⟩ : ∃ token ∈ Token.meaningful tokens, token.said = (.identifier, some digits) :=
      List.mem_map.mp (said ▸ List.mem_cons_of_mem _ List.mem_cons_self)
    obtain ⟨kind, text, span⟩ := token
    cases same
    have readable := Token.isReadable_of_tokenize scanned _ ((Token.meaningful_sublist tokens).subset member)
    exact isByte_int (readable.escape rfl value read)
  | @member path faithful =>
    -- A backslash would be scanned first where the path has the name of its first segment.
    have first := faithful.scans.head?_eq begins
    rcases segments : path.segments with _ | ⟨segment, _ | others⟩ <;> simp [segments] at first

end Delimiter

/-- Escapes among delimiters are bytes, whatever else is in the declarations. -/
def Demands.escapes : Demands where
  name _ := True
  path _ := True
  expr _ := True
  condition _ := True
  type type := ∀ delimiter ∈ type.delimiter, delimiter.IsEscape → delimiter.IsByte

theorem Grammar.supplies_escapes {source : Source} {tokens : List Token} (scanned : tokenize source = .ok tokens)
    (depth : Nat) : SuppliesIn (Adjoin tokens) depth .escapes where
  divides := divides_adjoin
  name _ _ _ := trivial
  path _ _ _ _ := trivial
  expr _ _ _ _ := trivial
  condition _ _ _ _ _ _ := trivial
  bare _ _ _ _ _ _ := by simp [Demands.escapes]
  zeroByte token _ _ _ delimiter given _ := by
    obtain rfl := Option.some.inj given
    exact Delimiter.isByte_int (by decide)
  delimited _ _ stretch delimiter _ _ _ _ behind ending found given escape := by
    obtain rfl := Option.some.inj given
    exact ((faithful_ending scanned).inParens divides_adjoin _ _ behind ending).isByte escape

/-- No source is refused because a float is malformed or a type unknown to the scan. In one that is accepted every
delimiter with a backslash in front is a byte, and what to look for is this byte. -/
theorem literals_of_parse (nesting : Nat) (source : Source) :
    (∀ error, parse nesting source = .error error → ∀ span,
      error ≠ .invalidSyntax span SyntaxFault.malformedFloat.message ∧
        ∀ text, error ≠ .invalidSyntax span (SyntaxFault.unknownDataType text).message) ∧
    ∀ declared, parse nesting source = .ok declared → ∀ declaration ∈ declared, declaration.Meets .escapes := by
  constructor
  · intro error refused span
    constructor
    · rintro rfl
      obtain ⟨cause, same, other, _⟩ := readable_of_parse refused (by decide)
      exact other (SyntaxFault.eq_malformedFloat same)
    · rintro text rfl
      obtain ⟨cause, same, _, other⟩ := readable_of_parse refused (by simp [SyntaxFault.initial])
      obtain ⟨word, rfl⟩ := SyntaxFault.exists_unknownDataType same
      exact other word rfl
  · intro declared accepted declaration present
    obtain ⟨tokens, scanned, there⟩ := parse_eq_ok.mp accepted
    have meets := yieldsIn_description (supplies_escapes scanned nesting) _ _ List.infix_rfl there declaration present
    exact meets.meets fun _ => trivial

/-- Raw bytes up to the byte of an escape. -/
def byteSource : Source :=
  ⟨"", "struct s\x7bbytes(\\xfE)x,\x7d"⟩

def byteSpan (start stop : Nat) : Span :=
  ⟨⟨start, 0, start, byteSource⟩, ⟨stop, 0, stop, byteSource⟩⟩

def byteDelimiter : Delimiter :=
  .int 254 (byteSpan 15 19)

def byteStruct : Declaration :=
  .struct ⟨⟨"s", byteSpan 7 8⟩, .fixed .big,
    [.member ⟨⟨"x", byteSpan 20 21⟩, .plain (.data ⟨.bytes, some byteDelimiter, byteSpan 9 14⟩), .fixed .big, none⟩]⟩

/-- A float where a name is wanted. -/
def unnamedSource : Source :=
  ⟨"", "struct -1."⟩

def unnamedToken : Token :=
  ⟨.float, some "-1.", ⟨⟨7, 0, 7, unnamedSource⟩, ⟨10, 0, 10, unnamedSource⟩⟩⟩

def unnamedTokens : List Token :=
  [⟨.keyword, some "struct", ⟨⟨0, 0, 0, unnamedSource⟩, ⟨6, 0, 6, unnamedSource⟩⟩⟩, unnamedToken,
   ⟨.endOfInput, none, .empty ⟨10, 0, 10, unnamedSource⟩⟩]

def unnamedError : CompileError :=
  .invalidSyntax unnamedToken.span (SyntaxFault.unexpected .structName unnamedToken).message

theorem literals_of_byteSource :
    parse 16 byteSource = .ok [byteStruct] ∧ byteDelimiter.IsEscape ∧ byteDelimiter.IsByte ∧
      parse 16 unnamedSource = .error unnamedError ∧
      ∀ span, unnamedError ≠ .invalidSyntax span SyntaxFault.malformedFloat.message := by
  have accepted : parse 16 byteSource = .ok [byteStruct] := by cbv
  have escape : byteDelimiter.IsEscape := ⟨"xfE", by cbv⟩
  have scanned : tokenize unnamedSource = .ok unnamedTokens := by cbv
  have failed : Parser.declarations 16 (Token.meaningful unnamedTokens) =
      .error (.fault (some unnamedToken.span) (.unexpected .structName unnamedToken)) := by cbv
  have refused : parse 16 unnamedSource = .error unnamedError := by
    rw [parse, scanned]
    exact Declaration.ofTokens_of_error failed
  obtain ⟨_, passing⟩ := literals_of_parse 16 byteSource
  obtain ⟨failing, _⟩ := literals_of_parse 16 unnamedSource
  have struct := passing _ accepted _ List.mem_cons_self
  have member := (struct.items _ List.mem_cons_self).info.type
  exact ⟨accepted, escape, member byteDelimiter rfl escape, refused, fun span => (failing _ refused span).1⟩

end RecordLayout
