import RecordLayout.Diagnostic
import RecordLayout.Primitive
import RecordLayout.Token

/-!
From text to tokens. What stands at the front of a text is decided from its characters and from
whether an operand ends right before it, since a minus that touches an operand is never the sign of
a number. A front is a kind and an extent; the text of a token is a function of its kind and of the
characters it covers, so tokens and the characters skipped between them make up the whole source.
-/

namespace RecordLayout

namespace Token

/-- Characters that may stand between tokens. -/
def isSpace (c : Char) : Bool :=
  c == ' ' || c == '\t' || c == '\r' || c == '\n'

/-- Characters that go on with a word. -/
def isWordChar (c : Char) : Bool :=
  c.isAlphanum || c == '_'

/-- Kinds written as one character that never begins a longer token. -/
def punctuation? : Char → Option Kind
  | '+' => some .plus
  | '-' => some .minus
  | '*' => some .star
  | '^' => some .caret
  | '~' => some .tilde
  | '(' => some .leftParen
  | ')' => some .rightParen
  | '\x7b' => some .leftBrace
  | '\x7d' => some .rightBrace
  | '[' => some .leftBracket
  | ']' => some .rightBracket
  | ',' => some .comma
  | '.' => some .dot
  | ':' => some .colon
  | '?' => some .question
  | '\\' => some .backslash
  | _ => none

/-- Kinds written as the given character, alone or with the one that follows it. -/
def operator? (c : Char) (next : Option Char) : Option (Kind × Nat) :=
  match c, next with
  | '&', some '&' => some (.and, 1)
  | '&', _ => some (.ampersand, 0)
  | '|', some '|' => some (.or, 1)
  | '|', _ => some (.pipe, 0)
  | '<', some '=' => some (.lessEqual, 1)
  | '<', some '<' => some (.shiftLeft, 1)
  | '<', _ => some (.less, 0)
  | '>', some '=' => some (.greaterEqual, 1)
  | '>', some '>' => some (.shiftRight, 1)
  | '>', _ => some (.greater, 0)
  | '=', some '=' => some (.equal, 1)
  | '!', some '=' => some (.notEqual, 1)
  | '/', _ => some (.slash, 0)
  | _, _ => (punctuation? c).map (·, 0)

/-- The kind of a word. -/
def wordKind (word : String) : Kind :=
  if keywords.contains word then .keyword
  else if (Primitive.ofName? word).isSome then .dataType
  else .identifier

/-- The text of a token of the kind that covers the characters: what stands between the quotes of a
literal and after the slashes of a comment, all of a name or number, and none of an operator. -/
def textOf : Kind → List Char → Option String
  | .integer, chars | .float, chars | .identifier, chars | .keyword, chars | .dataType, chars =>
    some (String.ofList chars)
  | .string, chars | .char, chars => some (String.ofList (chars.drop 1).dropLast)
  | .comment, chars => some (String.ofList (chars.dropWhile (· = '/')))
  | _, _ => none

/-- What is wrong with characters that make up no token. -/
inductive ScanFault where
  | illegal (c : Char)
  /-- A token that has begun goes on with this character. -/
  | unfinished (wanted : Char)
  /-- A char literal holds neither one character nor a short escape. -/
  | notOneChar (content : String)
deriving DecidableEq

def ScanFault.toError (fault : ScanFault) (span : Span) : CompileError :=
  match fault with
  | illegal c => .illegalCharacter span c
  | unfinished wanted => .expectedMore span [wanted.toString]
  | notOneChar content =>
    .invalidSyntax span
      ("char literal must hold one character or a short escape, found '" ++ content ++ "'")

/-- What the characters at the front of a text are, and how many belong to it after the first. -/
inductive Front where
  | space
  | token (kind : Kind) (extent : Nat)
  | fault (cause : ScanFault) (extent : Nat)
deriving DecidableEq

/-- How many characters go on with a number after its first digit or its sign: digits, and one
point with the digits after it. -/
def numeralExtent (rest : List Char) : Nat :=
  let whole := rest.takeWhile Char.isDigit
  match rest.drop whole.length with
  | '.' :: fraction => whole.length + 1 + (fraction.takeWhile Char.isDigit).length
  | _ => whole.length

def numeral (rest : List Char) : Front :=
  let extent := numeralExtent rest
  .token (if (rest.take extent).contains '.' then .float else .integer) extent

def word (c : Char) (rest : List Char) : Front :=
  let more := rest.takeWhile isWordChar
  .token (wordKind (String.ofList (c :: more))) more.length

/-- How many characters there are up to the quote that closes a literal, that one included, when
`count` have been passed. A backslash keeps the character after it. -/
def closing? (quote : Char) (count : Nat) : List Char → Option Nat
  | [] => none
  | ['\\'] => none
  | '\\' :: _ :: rest => closing? quote (count + 2) rest
  | c :: rest => if c = quote then some (count + 1) else closing? quote (count + 1) rest

/-- Whether the text of a char literal is one character, or a backslash and one or two more. -/
def isOneChar : List Char → Bool
  | '\\' :: escaped => escaped.length == 1 || escaped.length == 2
  | chars => chars.length == 1

def quoted (quote : Char) (kind : Kind) (rest : List Char) : Front :=
  match closing? quote 0 rest with
  | none => .fault (.unfinished quote) rest.length
  | some extent =>
    let content := (rest.take extent).dropLast
    if kind = .char ∧ ¬ isOneChar content then
      .fault (.notOneChar (String.ofList content)) extent
    else
      .token kind extent

/-- What the text `c :: rest` begins with. A minus is a sign only if no operand touches it. -/
def front (touching : Bool) (c : Char) (rest : List Char) : Front :=
  if isSpace c then .space
  else if c.isDigit then numeral rest
  else if c = '-' ∧ rest.head?.any Char.isDigit ∧ ¬ touching then numeral rest
  else if c.isAlpha then word c rest
  else if c = '\x22' then quoted c .string rest
  else if c = '\x27' then quoted c .char rest
  else if c = '/' ∧ rest.head? = some '/' then
    .token .comment (rest.takeWhile (· ≠ '\n')).length
  else
    match operator? c rest.head? with
    | some (kind, extent) => .token kind extent
    | none => if c = '=' ∨ c = '!' then .fault (.unfinished '=') 0 else .fault (.illegal c) 0

/-- The tokens of what is left of a source from a position on, after those already found, which
are kept in reverse. -/
def scanFrom (here : Position) (touching : Bool) (found : List Token) :
    List Char → Except CompileError (List Token)
  | [] => .ok (⟨.endOfInput, none, .empty here⟩ :: found).reverse
  | c :: rest =>
    match front touching c rest with
    | .space => scanFrom (here.step c) false found rest
    | .token kind extent =>
      let covered := c :: rest.take extent
      let stop := here.past covered
      scanFrom stop kind.endsOperand (⟨kind, textOf kind covered, ⟨here, stop⟩⟩ :: found)
        (rest.drop extent)
    | .fault cause extent => .error (cause.toError ⟨here, here.past (c :: rest.take extent)⟩)
termination_by chars => chars.length

end Token

/-- The tokens of a source, the last of which is the end of input. -/
def tokenize (source : Source) : Except CompileError (List Token) :=
  Token.scanFrom (.start source) false [] source.text.toList

end RecordLayout
