/-!
Text in which every line is indented by the level in force when its first character is written; a
line without characters gets no indentation. Text is written line by line, and a line may come in
several parts. Operations form programs, and a program stops at the first operation that fails,
with all levels it has entered left again.
-/

namespace RecordLayout

@[ext]
structure Writer where
  text : String
  level : Nat
  /-- What a line begins with, once for every level. -/
  unit : String
  atLineStart : Bool
deriving DecidableEq

namespace Writer

def withUnit (unit : String) : Writer :=
  ⟨"", 0, unit, true⟩

/-- Nothing written yet, and two spaces for a level. -/
def new : Writer :=
  withUnit "  "

def indent (writer : Writer) : Writer :=
  { writer with level := writer.level + 1 }

def dedent (writer : Writer) : Writer :=
  { writer with level := writer.level - 1 }

/-- The lines of a text, each with the line break that ends it. The last one may end without. -/
def pieces : List Char → List (List Char)
  | [] => []
  | c :: rest =>
    if c = '\n' then
      [c] :: pieces rest
    else
      match pieces rest with
      | [] => [[c]]
      | piece :: others => (c :: piece) :: others

/-- What a line begins with at a level. -/
def indentation (unit : String) (level : Nat) : String :=
  String.join (List.replicate level unit)

/-- Writes a line, or a part of one. A line that is no more than its line break is not indented. -/
def putPiece (writer : Writer) (piece : List Char) : Writer :=
  let before :=
    if writer.atLineStart ∧ piece ≠ ['\n'] then indentation writer.unit writer.level else ""
  { writer with
    text := writer.text ++ before ++ String.ofList piece
    atLineStart := piece.getLast? = some '\n' }

def write (writer : Writer) (text : String) : Writer :=
  (pieces text.toList).foldl putPiece writer

def blankLine (writer : Writer) : Writer :=
  writer.write "\n"

def line (writer : Writer) (text : String) : Writer :=
  (writer.write text).blankLine

inductive Op where
  | indent
  | dedent
  | line (text : String)
  | write (text : String)
  | blankLine
  /-- Operations one level deeper. -/
  | indented (body : List Op)
  | fail

/-- A writer after some operations, and whether none of them failed. -/
structure Outcome where
  writer : Writer
  ok : Bool

mutual

def Op.run : Op → Writer → Outcome
  | .indent, writer => ⟨writer.indent, true⟩
  | .dedent, writer => ⟨writer.dedent, true⟩
  | .line text, writer => ⟨writer.line text, true⟩
  | .write text, writer => ⟨writer.write text, true⟩
  | .blankLine, writer => ⟨writer.blankLine, true⟩
  | .indented body, writer =>
    let inner := runAll body writer.indent
    ⟨inner.writer.dedent, inner.ok⟩
  | .fail, writer => ⟨writer, false⟩

/-- Runs operations one after another up to the first that fails. -/
def runAll : List Op → Writer → Outcome
  | [], writer => ⟨writer, true⟩
  | op :: rest, writer =>
    let first := op.run writer
    if first.ok then runAll rest first.writer else first

end

/-- What one operation did: the level after it, the text it added, and whether it succeeded. -/
structure Step where
  level : Nat
  added : String
  ok : Bool
deriving DecidableEq

def Op.step (op : Op) (writer : Writer) : Step :=
  let outcome := op.run { writer with text := "" }
  ⟨outcome.writer.level, outcome.writer.text, outcome.ok⟩

mutual

/-- The steps inside an operation and then that of the operation itself. -/
def Op.steps : Op → Writer → List Step
  | .indented body, writer => stepsAll body writer.indent ++ [(Op.indented body).step writer]
  | op, writer => [op.step writer]

def stepsAll : List Op → Writer → List Step
  | [], _ => []
  | op :: rest, writer =>
    let outcome := op.run writer
    op.steps writer ++ if outcome.ok then stepsAll rest outcome.writer else []

end

end Writer

end RecordLayout
