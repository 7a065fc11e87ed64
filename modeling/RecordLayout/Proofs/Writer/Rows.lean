import RecordLayout.Proofs.Text.Unbroken
import RecordLayout.Proofs.Writer.Strokes

/-! Programs that write one line after another. Each line is a row: a text and how much deeper it stands than the
program began. Such a program runs to its end and leaves everything but the text of the writer as it found it. -/

namespace RecordLayout.Writer

open Text (Unbroken)

structure Row where
  depth : Nat
  text : String
deriving DecidableEq

/-- The row as a line of text, on a writer with some levels already. -/
def Row.line (unit : String) (level : Nat) (row : Row) : String :=
  String.join (List.replicate (level + row.depth) unit) ++ row.text ++ "\n"

def Row.deeper (row : Row) : Row :=
  { row with depth := row.depth + 1 }

/-- The writer with rows added, and where it was before otherwise. -/
def added (writer : Writer) (rows : List Row) : Writer :=
  { writer with text := writer.text ++ String.join (rows.map (Row.line writer.unit writer.level)) }

/-- The program adds the rows and does nothing else, if it begins where a line does. Each row is one line. -/
structure Writes (ops : List Op) (rows : List Row) : Prop where
  lines : ∀ row ∈ rows, Unbroken row.text ∧ row.text ≠ ""
  run : ∀ writer, writer.atLineStart = true → runAll ops writer = ⟨writer.added rows, true⟩

theorem runAll_append (ops others : List Op) (writer : Writer) :
    runAll (ops ++ others) writer =
      if (runAll ops writer).ok then runAll others (runAll ops writer).writer else runAll ops writer := by
  induction ops generalizing writer with
  | nil => rfl
  | cons op rest ih =>
    rw [List.cons_append, runAll, runAll, ih]
    cases done : (op.run writer).ok with
    | true => rfl
    | false => simp [done]

theorem pieces_unbroken {text : List Char} (unbroken : '\n' ∉ text) (some : text ≠ []) : pieces text = [text] := by
  induction text with
  | nil => exact absurd rfl some
  | cons c rest ih =>
    rw [List.mem_cons, not_or] at unbroken
    rw [pieces, if_neg (Ne.symm unbroken.1)]
    cases rest with
    | nil => rfl
    | cons next rest => rw [ih unbroken.2 (List.cons_ne_nil next rest)]

theorem added_line {writer : Writer} {text : String} (starts : writer.atLineStart = true) (unbroken : Unbroken text)
    (some : text ≠ "") : writer.line text = writer.added [⟨0, text⟩] := by
  have more : text.toList ≠ [] := by simpa using some
  obtain ⟨c, rest, shape⟩ := List.exists_cons_of_ne_nil more
  have first : c ≠ '\n' := fun same => unbroken (by simp [shape, same])
  have whole : String.ofList (c :: rest) = text := by rw [← shape, String.ofList_toList]
  have written : (writer.write text).blankLine = (writer.putPiece (c :: rest)).putPiece ['\n'] := by
    rw [blankLine_eq_draw, write, pieces_unbroken unbroken more, shape]
    rfl
  rw [line, written, putPiece_break, putPiece_unbroken writer first, if_pos starts, whole]
  refine Writer.ext ?_ rfl rfl starts.symm
  simp only [added, Row.line, List.map_cons, List.map_nil, String.join_cons, String.join_nil, Nat.add_zero,
    String.append_empty, String.append_assoc]

namespace Writes

variable {ops others : List Op} {rows more : List Row}

theorem nil : Writes [] [] where
  lines := by simp
  run writer _ := by
    have same : writer.added [] = writer := Writer.ext String.append_empty rfl rfl rfl
    rw [runAll, same]

theorem append (first : Writes ops rows) (second : Writes others more) : Writes (ops ++ others) (rows ++ more) where
  lines := List.forall_mem_append.mpr ⟨first.lines, second.lines⟩
  run writer starts := by
    have both : (writer.added rows).added more = writer.added (rows ++ more) := by
      refine Writer.ext ?_ rfl rfl rfl
      simp only [added, List.map_append, String.join_append, String.append_assoc]
    have after : runAll others (writer.added rows) = ⟨writer.added (rows ++ more), true⟩ :=
      both ▸ second.run (writer.added rows) starts
    rw [runAll_append, first.run writer starts]
    exact after

theorem line {text : String} (unbroken : Unbroken text) (some : text ≠ "") : Writes [.line text] [⟨0, text⟩] where
  lines := by simpa using ⟨unbroken, some⟩
  run writer starts := by
    rw [runAll, Op.run, added_line starts unbroken some]
    rfl

theorem indented (body : Writes ops rows) : Writes [.indented ops] (rows.map Row.deeper) where
  lines := List.forall_mem_map.mpr body.lines
  run writer starts := by
    have inner : (writer.indent.added rows).dedent = writer.added (rows.map Row.deeper) := by
      have lines : rows.map (Row.line writer.unit (writer.level + 1)) =
          (rows.map Row.deeper).map (Row.line writer.unit writer.level) := by
        rw [List.map_map]
        refine List.map_congr_left fun row _ => ?_
        rw [Row.line, Function.comp_apply, Row.line, Row.deeper, Nat.add_assoc, Nat.add_comm 1 row.depth]
      exact Writer.ext (congrArg (writer.text ++ String.join ·) lines) rfl rfl rfl
    rw [runAll, Op.run, body.run writer.indent starts, inner]
    rfl

theorem flatMap {items : List α} {program : α → List Op} {layout : α → List Row}
    (each : ∀ item ∈ items, Writes (program item) (layout item)) :
    Writes (items.flatMap program) (items.flatMap layout) := by
  induction items with
  | nil => exact .nil
  | cons item items ih =>
    rw [List.forall_mem_cons] at each
    rw [List.flatMap_cons, List.flatMap_cons]
    exact each.1.append (ih each.2)

/-- A program for one line, and one for the lines below it. -/
theorem below {text : String} {ops : List Op} {rows : List Row} (unbroken : Unbroken text) (some : text ≠ "")
    (body : Writes ops rows) : Writes [.line text, .indented ops] (⟨0, text⟩ :: rows.map Row.deeper) :=
  (Writes.line unbroken some).append body.indented

theorem map {items : List α} {program : α → Op} {layout : α → Row}
    (each : ∀ item ∈ items, Writes [program item] [layout item]) : Writes (items.map program) (items.map layout) := by
  rw [List.map_eq_flatMap, List.map_eq_flatMap]
  exact Writes.flatMap each

end Writes

end RecordLayout.Writer
