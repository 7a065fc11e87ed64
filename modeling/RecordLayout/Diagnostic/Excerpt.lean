import RecordLayout.Diagnostic

/-!
Reports for readers: the lines of the source that a mistake touches, each over a row with a `~`
under every character that is part of it. A mistake at the end of the text is shown where the last
text stands and not on blank lines after it.
-/

namespace RecordLayout

namespace Excerpt

/-- The characters of a line in order, each with whether it is marked. -/
abbrev Row := List (Char × Bool)

/-- The lines from the start of one line on, which begins at byte `index`, to the end of the line
that holds the last byte before `stop`. Characters between the two bounds are marked. The line
under way is kept in reverse. -/
def rows (start stop : Nat) (index : Nat) (line : Row) : List Char → List Row
  | [] => [line.reverse]
  | c :: rest =>
    if c = '\n' then
      if stop ≤ index then [line.reverse]
      else line.reverse :: rows start stop (index + c.utf8Size) [] rest
    else
      rows start stop (index + c.utf8Size) ((c, decide (start ≤ index ∧ index < stop)) :: line) rest

def Row.text (row : Row) : List Char :=
  row.map Prod.fst

/-- Blanks and marks, up to the last mark. -/
def Row.marks (row : Row) : List Char :=
  Text.trimRight (row.map fun cell => if cell.2 then '~' else ' ')

def Row.render (row : Row) : List Char :=
  row.text ++ '\n' :: row.marks ++ ['\n']

end Excerpt

namespace Span

/-- A span of no characters moves before the blank characters at the end of the text. -/
def anchored (span : Span) : Span :=
  if span.start.Coincides span.stop then empty span.start.beforeTrailingBlanks else span

/-- The lines that the span touches, with their marks. A span of no characters has one mark where
it stands. -/
def underline (span : Span) : Except SourceMismatch String :=
  if span.start.Coincides span.stop then
    .ok (String.ofList (span.start.lineText ++ '\n' :: List.replicate span.start.column ' ' ++
      ['~', '\n']))
  else do
    let first := span.start.lineStart
    if first.after ≠ [] then
      let _ ← first.compare span.stop
    return String.ofList
      ((Excerpt.rows span.start.index span.stop.index first.index [] first.after).flatMap
        Excerpt.Row.render)

end Span

namespace CompileError

/-- The report: where the mistake is, the underlined lines, and the message. It fails only for a
span whose ends lie in different sources. -/
def render (error : CompileError) : Except SourceMismatch String := do
  match error.spans.map Span.anchored with
  | [] => return error.message ++ "\n"
  | [span] =>
    let lines ← span.underline
    return s!"File {span.start.source.id}, on line {span.start.line + 1}\n" ++ lines ++
      "\n" ++ error.message ++ "\n"
  | first :: others =>
    let parts ← (first :: others).mapM fun span => do
      let lines ← span.underline
      return s!"\non line {span.start.line + 1},\n" ++ lines
    return s!"File {first.start.source.id},\n" ++ String.join parts ++ "\n" ++ error.message ++ "\n"

end CompileError

end RecordLayout
