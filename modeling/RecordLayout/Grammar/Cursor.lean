import RecordLayout.Grammar.Parser

/-!
Places in a list of tokens. Parsers move through the list from one to the next, and one that has
tried something in vain goes back to where it began. Comments are passed over on the way, and what is
behind the first end of input is never reached.
-/

namespace RecordLayout

/-- A place among tokens where a parser may stand, which is never before a comment. -/
structure Cursor where
  /-- The tokens from there on. -/
  ahead : List Token
  solid : ∀ token ∈ ahead.head?, token.kind ≠ .comment

namespace Cursor

/-- The first such place. -/
def start (tokens : List Token) : Cursor where
  ahead := tokens.dropWhile (·.kind = .comment)
  solid token first := by
    have absent := List.head?_dropWhile_not (fun token : Token => decide (token.kind = .comment)) tokens
    rw [Option.mem_def.mp first] at absent
    simpa using absent

/-- The token there, unless it is the end of input. -/
def next? (cursor : Cursor) : Option Token :=
  cursor.ahead.head?.filter (·.kind ≠ .endOfInput)

/-- The place behind the next token. The end of input is not left. -/
def advance (cursor : Cursor) : Cursor :=
  match cursor.ahead with
  | [] => cursor
  | token :: rest => if token.kind = .endOfInput then cursor else start rest

instance : TokenSource Cursor where
  next? := next?
  advance := advance
  bound := ahead

end Cursor

end RecordLayout
