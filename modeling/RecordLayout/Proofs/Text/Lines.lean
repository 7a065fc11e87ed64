import Mathlib.Data.List.Induction
import RecordLayout.Proofs.Position

/-! Lines of a text, by what has been read of it. The number of the line is how many newlines were passed, the column
how many characters since the last of them, and the line is those characters and the others up to the next newline. -/

namespace RecordLayout

namespace Text

/-- What stands after the last newline. -/
def lastLine (chars : List Char) : List Char :=
  (chars.reverse.takeWhile (· ≠ '\n')).reverse

variable {front chars : List Char} {c : Char}

theorem lastLine_newline : lastLine (front ++ ['\n']) = [] := by
  simp [lastLine]

theorem lastLine_concat (other : c ≠ '\n') : lastLine (front ++ [c]) = lastLine front ++ [c] := by
  simp [lastLine, other]

/-- Characters that hold no newline only go on with the line. -/
theorem lastLine_append (inside : '\n' ∉ chars) : lastLine (front ++ chars) = lastLine front ++ chars := by
  have plain : ∀ d ∈ chars.reverse, decide (d ≠ '\n') = true := fun d member =>
    decide_eq_true fun newline => inside (newline ▸ List.mem_reverse.mp member)
  rw [lastLine, List.reverse_append, List.takeWhile_append_of_pos plain, List.reverse_append, List.reverse_reverse,
    lastLine]

/-- A text is lines with their newlines, and a line. -/
theorem exists_lastLine (chars : List Char) :
    ∃ above, chars = above ++ lastLine chars ∧ lastLine above = [] ∧ '\n' ∉ lastLine chars := by
  induction chars using List.reverseRecOn with
  | nil => exact ⟨[], rfl, rfl, List.not_mem_nil⟩
  | append_singleton front c ih =>
    by_cases newline : c = '\n'
    · rw [newline, lastLine_newline]
      exact ⟨front ++ ['\n'], (List.append_nil _).symm, lastLine_newline, List.not_mem_nil⟩
    · obtain ⟨above, parts, ends, inside⟩ := ih
      rw [lastLine_concat newline]
      refine ⟨above, by rw [← List.append_assoc, ← parts], ends, ?_⟩
      simpa using ⟨inside, Ne.symm newline⟩

theorem line_newline (number : Nat) : line (number + 1) ('\n' :: chars) = line number chars := rfl

theorem line_cons (number : Nat) (other : c ≠ '\n') : line (number + 1) (c :: chars) = line (number + 1) chars := by
  simp [line, other]

/-- Behind a newline the lines are counted on. -/
theorem line_below (front chars : List Char) :
    line (front.count '\n' + 1) (front ++ '\n' :: chars) = line 0 chars := by
  induction front with
  | nil => rfl
  | cons c front ih =>
    by_cases newline : c = '\n'
    · rw [newline, List.count_cons_self, List.cons_append, line_newline, ih]
    · rw [List.count_cons_of_ne newline, List.cons_append, line_cons _ newline, ih]

/-- The line that reading has come to. -/
theorem line_append (front chars : List Char) :
    line (front.count '\n') (front ++ chars) = lastLine front ++ chars.takeWhile (· ≠ '\n') := by
  induction front using List.reverseRecOn generalizing chars with
  | nil => rfl
  | append_singleton front c ih =>
    rw [List.append_assoc, List.singleton_append, List.count_append]
    by_cases newline : c = '\n'
    · rw [newline, lastLine_newline, List.count_singleton_self, line_below]
      rfl
    · rw [List.count_singleton, if_neg (by simpa using newline), lastLine_concat newline, Nat.add_zero, ih]
      simp [newline]

end Text

namespace Position

variable {source : Source} {here there : Position}

theorem line_start_past (chars : List Char) : ((start source).past chars).line = chars.count '\n' := by
  rw [line_past]
  exact Nat.zero_add _

theorem column_start_past (chars : List Char) : ((start source).past chars).column = (Text.lastLine chars).length := by
  induction chars using List.reverseRecOn with
  | nil => rfl
  | append_singleton front c ih =>
    rw [past_append, past_cons, past_nil, step]
    split
    next newline => rw [newline, Text.lastLine_newline, List.length_nil]
    next other => rw [Text.lastLine_concat other, List.length_append, List.length_singleton, ← ih]

/-- What reading comes to. -/
theorem start_past (chars : List Char) :
    (start source).past chars =
      ⟨Text.utf8Length chars, chars.count '\n', (Text.lastLine chars).length, source⟩ := by
  rw [← @index_start_past source, ← @line_start_past source, ← @column_start_past source, Position.mk.injEq]
  exact ⟨rfl, rfl, rfl, source_past ..⟩

/-- A line and a column are those of one place at most. -/
theorem Reached.eq_of_line_column (first : Reached source here) (second : Reached source there)
    (line : here.line = there.line) (column : here.column = there.column) : here = there := by
  obtain ⟨front, before, rfl⟩ := reached_iff.mp first
  obtain ⟨other, behind, rfl⟩ := reached_iff.mp second
  simp only [line_start_past] at line
  simp only [column_start_past] at column
  -- Of two different fronts with as many newlines, the longer one goes on in the last line.
  have none {front more : List Char} (line : front.count '\n' = (front ++ more).count '\n')
      (column : (Text.lastLine front).length = (Text.lastLine (front ++ more)).length) : more = [] := by
    rw [List.count_append, Nat.left_eq_add, List.count_eq_zero] at line
    rw [Text.lastLine_append line, List.length_append] at column
    exact List.length_eq_zero_iff.mp (by omega)
  rcases List.prefix_or_prefix_of_prefix before behind with ⟨more, rfl⟩ | ⟨more, rfl⟩
  · rw [none line column, List.append_nil]
  · rw [none line.symm column.symm, List.append_nil]

variable {front chars : List Char}

/-- The line of a place, by what stands before and after the place. -/
theorem line_of_whole (whole : source.text.toList = front ++ chars) :
    Text.line ((start source).past front).line source.text.toList =
      Text.lastLine front ++ chars.takeWhile (· ≠ '\n') := by
  rw [line_start_past, whole, Text.line_append]

/-- The first place of a line is where nothing of it has been read. -/
theorem lineStart_past (whole : source.text.toList = front ++ chars) :
    ∃ above, front = above ++ Text.lastLine front ∧ Text.lastLine above = [] ∧
      source.text.toList = above ++ (Text.lastLine front ++ chars) ∧
        ((start source).past front).lineStart = (start source).past above := by
  obtain ⟨above, parts, ends, inside⟩ := Text.exists_lastLine front
  have width : Text.utf8Length (front.reverse.takeWhile (· ≠ '\n')) = Text.utf8Length (Text.lastLine front) := by
    rw [Text.lastLine, Text.utf8Length_reverse]
  have index : Text.utf8Length front = Text.utf8Length above + Text.utf8Length (Text.lastLine front) := by
    rw [← Text.utf8Length_append, ← parts]
  have line : front.count '\n' = above.count '\n' := by
    rw [parts, List.count_append, List.count_eq_zero.mpr inside, Nat.add_zero]
  refine ⟨above, parts, ends, by rw [whole, ← List.append_assoc, ← parts], ?_⟩
  rw [lineStart, before_start_past whole, width, start_past, start_past, ends, line, index, Nat.add_sub_cancel, List.length_nil]

end Position

end RecordLayout
