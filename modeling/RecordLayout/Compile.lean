import RecordLayout.Grammar.Declaration
import RecordLayout.Schema.Check
import RecordLayout.Token.Scan

/-!
From source to schema. How deep parentheses, operators before operands, conditions and choices may
nest is a limit that the caller can set.
-/

namespace RecordLayout

/-- The nesting that is allowed unless the caller says otherwise. -/
def defaultNesting : Nat := 128

/-- The declarations of a source, whether or not they make up a schema. -/
def parse (nesting : Nat) (source : Source) : Except CompileError (List Declaration) := do
  Declaration.ofTokens nesting (← tokenize source)

def compile (nesting : Nat) (source : Source) : Except CompileError Schema := do
  Schema.ofDeclarations (← parse nesting source)

end RecordLayout
