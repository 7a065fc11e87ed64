import RecordLayout.Position

/-!
Tokens: what a layout description is made of. A token has a kind, a span and, where the kind alone
does not say what was written, a text. The listing of tokens shows one on each line.
-/

namespace RecordLayout

namespace Token

inductive Kind where
  | integer | float | string | char
  | identifier | keyword | dataType
  | plus | minus | star | slash
  | ampersand | pipe | caret | tilde | shiftLeft | shiftRight
  | equal | notEqual | less | greater | lessEqual | greaterEqual | and | or
  | leftParen | rightParen | leftBrace | rightBrace | leftBracket | rightBracket
  | comma | dot | colon | question | backslash
  | comment | endOfInput
deriving DecidableEq

namespace Kind

def all : List Kind :=
  [integer, float, string, char, identifier, keyword, dataType, plus, minus, star, slash,
   ampersand, pipe, caret, tilde, shiftLeft, shiftRight, equal, notEqual, less, greater,
   lessEqual, greaterEqual, and, or, leftParen, rightParen, leftBrace, rightBrace, leftBracket,
   rightBracket, comma, dot, colon, question, backslash, comment, endOfInput]

/-- The name of the kind in a listing. -/
def name : Kind → String
  | integer => "NUM_INT"
  | float => "NUM_FLOAT"
  | string => "STRING"
  | char => "CHAR"
  | identifier => "IDENTIFIER"
  | keyword => "KEYWORD"
  | dataType => "DATA_TYPE"
  | plus => "PLUS"
  | minus => "MINUS"
  | star => "MULT"
  | slash => "DIV"
  | ampersand => "BIT_AND"
  | pipe => "BIT_OR"
  | caret => "BIT_XOR"
  | tilde => "BIT_NOT"
  | shiftLeft => "SHIFT_LEFT"
  | shiftRight => "SHIFT_RIGHT"
  | equal => "COMP_EQ"
  | notEqual => "COMP_NE"
  | less => "COMP_LT"
  | greater => "COMP_GT"
  | lessEqual => "COMP_LEQ"
  | greaterEqual => "COMP_GEQ"
  | and => "AND"
  | or => "OR"
  | leftParen => "LPAREN"
  | rightParen => "RPAREN"
  | leftBrace => "LCURLY"
  | rightBrace => "RCURLY"
  | leftBracket => "LBRACK"
  | rightBracket => "RBRACK"
  | comma => "COMMA"
  | dot => "DOT"
  | colon => "COLON"
  | question => "QUESTION"
  | backslash => "BACKSLASH"
  | comment => "COMMENT"
  | endOfInput => "EOF"

def ofName? (name : String) : Option Kind :=
  all.find? (·.name == name)

/-- What is written for a token of the kind, where that is always the same. -/
def symbol? : Kind → Option String
  | plus => some "+"
  | minus => some "-"
  | star => some "*"
  | slash => some "/"
  | ampersand => some "&"
  | pipe => some "|"
  | caret => some "^"
  | tilde => some "~"
  | shiftLeft => some "<<"
  | shiftRight => some ">>"
  | equal => some "=="
  | notEqual => some "!="
  | less => some "<"
  | greater => some ">"
  | lessEqual => some "<="
  | greaterEqual => some ">="
  | and => some "&&"
  | or => some "||"
  | leftParen => some "("
  | rightParen => some ")"
  | leftBrace => some "\x7b"
  | rightBrace => some "\x7d"
  | leftBracket => some "["
  | rightBracket => some "]"
  | comma => some ","
  | dot => some "."
  | colon => some ":"
  | question => some "?"
  | backslash => some "\\"
  | integer | float | string | char | identifier | keyword | dataType | comment | endOfInput => none

/-- How a message speaks of the kind. -/
def describe : Kind → String
  | integer => "integer"
  | float => "float"
  | string => "string literal"
  | char => "char literal"
  | identifier => "identifier"
  | keyword => "keyword"
  | dataType => "data type"
  | comment => "comment"
  | endOfInput => "end of input"
  | kind => "'" ++ kind.symbol?.getD "" ++ "'"

/-- Whether a token of the kind can be the left side of a binary operator. -/
def endsOperand : Kind → Bool
  | integer | float | identifier | dataType | rightParen | rightBracket => true
  | _ => false

theorem mem_all (kind : Kind) : kind ∈ all := by
  cases kind <;> decide

theorem ofName?_name (kind : Kind) : ofName? kind.name = some kind := by
  cases kind <;> rfl

end Kind

end Token

/-- The words that cannot be names because declarations begin with or contain them. -/
def keywords : List String :=
  ["struct", "bitfield", "match", "LE", "BE"]

structure Token where
  kind : Token.Kind
  text : Option String
  span : Span
deriving DecidableEq

namespace Token

/-- The text, empty for a token that has none. -/
def content (token : Token) : String :=
  token.text.getD ""

def isKeyword (word : String) (token : Token) : Bool :=
  token.kind == .keyword && token.content == word

/-- How a message speaks of the token. -/
def describe (token : Token) : String :=
  match token.text with
  | some text =>
    if token.kind = .comment then token.kind.describe
    else token.kind.describe ++ " '" ++ text ++ "'"
  | none => token.kind.describe

/-- The token on its line of a listing. -/
def entry (token : Token) : String :=
  match token.text with
  | some text => token.kind.name ++ ":" ++ text
  | none => token.kind.name

/-- All tokens, one on each line. -/
def listing (tokens : List Token) : String :=
  String.join (tokens.map fun token => token.entry ++ "\n")

/-- Where the tokens end: at the first end of input, or else after the last token. -/
def endSpan (tokens : List Token) : Span :=
  match tokens.find? (·.kind = .endOfInput), tokens.getLast? with
  | some token, _ => token.span
  | none, some last => .empty last.span.stop
  | none, none => .empty (.start ⟨"", ""⟩)

end Token

end RecordLayout
