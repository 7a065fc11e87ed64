import RecordLayout.Expr
import RecordLayout.Grammar.Failure

/-!
Parsers. A parser reads some tokens from the front of a source and leaves the others; one that fails
has read nothing, so a second one can be tried on the same source. How deep constructs may still nest
is an argument, `room`, and not part of the state.
-/

namespace RecordLayout

/-- What gives tokens one after another. -/
class TokenSource (σ : Type) where
  /-- The next token, unless there is none left. -/
  next? : σ → Option Token
  /-- What is left behind the next token. -/
  advance : σ → σ
  /-- At least as many tokens as are left. -/
  bound : σ → List Token

/-- A list gives all of its tokens. -/
instance : TokenSource (List Token) where
  next? := List.head?
  advance := List.tail
  bound tokens := tokens

namespace TokenSource

@[simp] theorem next?_list (tokens : List Token) : next? tokens = tokens.head? := rfl

@[simp] theorem advance_list (tokens : List Token) : advance tokens = tokens.tail := rfl

@[simp] theorem bound_list (tokens : List Token) : bound tokens = tokens := rfl

end TokenSource

abbrev ParserOn (σ : Type) := StateT σ (Except Failure)

/-- Parsers of tokens in a list. -/
abbrev Parser := ParserOn (List Token)

namespace Parser

variable {σ : Type} [TokenSource σ]

open TokenSource

/-- The next token, left where it is. -/
def peek? : ParserOn σ (Option Token) :=
  fun source => .ok (next? source, source)

/-- Passes over one token. -/
def skip : ParserOn σ Unit :=
  fun source => .ok ((), advance source)

/-- Reads the next token if it is one of those picked out. -/
def accept? (pick : Token → Option α) : ParserOn σ (Option α) :=
  fun source =>
    match (next? source).bind pick with
    | some value => .ok (some value, advance source)
    | none => .ok (none, source)

/-- Fails at the next token, or at the end. -/
def fail (fault : SyntaxFault) : ParserOn σ α :=
  fun source => .error (.fault ((next? source).map Token.span) fault)

def failAt (span : Span) (fault : SyntaxFault) : ParserOn σ α :=
  fun _ => .error (.fault (some span) fault)

/-- Fails because something else is wanted here. -/
def unexpected (wanted : Expectation) : ParserOn σ α :=
  fun source =>
    match next? source with
    | none => .error (.ended wanted)
    | some token => .error (.fault (some token.span) (.unexpected wanted token))

/-- Reads the next token, which has to be one of those picked out. -/
def expect (wanted : Expectation) (pick : Token → Option α) : ParserOn σ α := do
  match ← accept? pick with
  | some value => return value
  | none => unexpected wanted

/-- A token of the kind. -/
def ofKind? (kind : Token.Kind) (token : Token) : Option Token :=
  if token.kind = kind then some token else none

def token (kind : Token.Kind) : ParserOn σ Token :=
  expect (.kind kind) (ofKind? kind)

def keyword (word : String) : ParserOn σ Token :=
  expect (.keyword word) fun token => if token.isKeyword word then some token else none

def name (wanted : Expectation) : ParserOn σ Name :=
  expect wanted fun token => (ofKind? .identifier token).map fun found =>
    ⟨found.content, found.span⟩

/-- Whether the next token satisfies a test; false at the end. -/
def nextIs (test : Token → Bool) : ParserOn σ Bool :=
  fun source => .ok ((next? source).any test, source)

def nextIsKind (kind : Token.Kind) : ParserOn σ Bool :=
  nextIs (·.kind == kind)

def isAtEnd : ParserOn σ Bool :=
  fun source => .ok ((next? source).isNone, source)

/-- Whether the next token is of the kind, and reads it if so. -/
def eat (kind : Token.Kind) : ParserOn σ Bool := do
  return (← accept? (ofKind? kind)).isSome

/-- Reads items until one is absent, at most as many as there are tokens in the bound, after those
already found, which are kept in reverse. -/
def manyFrom (item : ParserOn σ (Option α)) (bound : List Token) (found : List α) :
    ParserOn σ (List α) :=
  fun source =>
    match bound with
    | [] => .ok (found.reverse, source)
    | _ :: bound =>
      match item source with
      | .ok (some value, rest) => manyFrom item bound (value :: found) rest
      | .ok (none, rest) => .ok (found.reverse, rest)
      | .error failure => .error failure

/-- Reads items until one is absent. An item that is there takes at least one token, so there are
no more items than tokens. -/
def many (item : ParserOn σ (Option α)) : ParserOn σ (List α) :=
  fun source => manyFrom item (bound source) [] source

/-- Reads items up to a closing brace or the end; neither is read. -/
def manyInBraces (item : ParserOn σ α) : ParserOn σ (List α) :=
  many do
    if (← isAtEnd) || (← nextIsKind .rightBrace) then
      return none
    else
      return some (← item)

def inParens (inner : ParserOn σ α) : ParserOn σ α := do
  let _ ← token .leftParen
  let value ← inner
  let _ ← token .rightParen
  return value

/-- Reads something that nests one level deeper, if there is room for it. -/
def nested (room : Nat) (body : Nat → ParserOn σ α) : ParserOn σ α :=
  match room with
  | 0 => fail .nestingTooDeep
  | room + 1 => body room

end Parser

end RecordLayout
