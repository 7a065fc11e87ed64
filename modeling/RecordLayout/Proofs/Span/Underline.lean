import Mathlib.Data.List.DropRight
import Mathlib.Data.List.Infix
import RecordLayout.Diagnostic.Excerpt
import RecordLayout.Proofs.Span.Valid
import RecordLayout.Proofs.Text.Lines

/-! Underlined lines. The rows of a report go on in step with the places of the source, so every line that a span
touches is there as it is in the source, and its marks are under the characters of the span and under no others. -/

namespace RecordLayout

open Position

namespace Span

/-- The span holds the character at the line and column. -/
def Holds (span : Span) (line column : Nat) : Prop :=
  ∃ here, Reached span.start.source here ∧ here.line = line ∧ here.column = column ∧
    span.start.index ≤ here.index ∧ here.index < span.stop.index

/-- The lines that the span touches, by their numbers. -/
def lineNumbers (span : Span) : List Nat :=
  List.range' span.start.line (span.stop.line + 1 - span.start.line)

theorem holds_iff {span : Span} {line column : Nat} :
    span.Holds line column ↔ ∃ front ∈ span.start.source.text.toList.inits,
      ((Position.start span.start.source).past front).line = line ∧
        ((Position.start span.start.source).past front).column = column ∧
        span.start.index ≤ ((Position.start span.start.source).past front).index ∧
          ((Position.start span.start.source).past front).index < span.stop.index := by
  simp only [Holds, reached_iff, List.mem_inits]
  constructor
  · rintro ⟨_, ⟨front, before, rfl⟩, holds⟩
    exact ⟨front, before, holds⟩
  · rintro ⟨front, before, holds⟩
    exact ⟨_, ⟨front, before, rfl⟩, holds⟩

instance (span : Span) (line column : Nat) : Decidable (span.Holds line column) :=
  decidable_of_iff _ holds_iff.symm

/-- What is below each character of a line. -/
def markRow (span : Span) (number : Nat) : List Char :=
  (Text.line number span.start.source.text.toList).mapIdx fun column _ =>
    if span.Holds number column then '~' else ' '

/-- What is below a line, without the spaces behind the last mark. -/
def marks (span : Span) (number : Nat) : List Char :=
  (span.markRow number).rdropWhile (· = ' ')

/-- A place that is reached is the only one with its line and column. -/
theorem holds_of_reached {span : Span} {here : Position} (reached : Reached span.start.source here) :
    span.Holds here.line here.column ↔ span.start.index ≤ here.index ∧ here.index < span.stop.index := by
  constructor
  · rintro ⟨there, also, line, column, between⟩
    rwa [also.eq_of_line_column reached line column] at between
  · intro between
    exact ⟨here, reached, rfl, rfl, between⟩

end Span

namespace Excerpt

/-- A piece of a line from its start, with the characters marked that the span holds. -/
def marked (span : Span) (number : Nat) (chars : List Char) : Row :=
  chars.mapIdx fun column c => (c, decide (span.Holds number column))

theorem marked_concat {span : Span} {number : Nat} (chars : List Char) (c : Char) :
    marked span number (chars ++ [c]) = marked span number chars ++ [(c, decide (span.Holds number chars.length))] := by
  simp [marked]

theorem text_marked (span : Span) (number : Nat) (chars : List Char) : (marked span number chars).text = chars := by
  apply List.ext_getElem <;> simp [marked, Row.text]

variable {source : Source} {span : Span} {front chars : List Char}

/-- Where the span stops in the line that has been read, that line is the last one. -/
theorem lastRow_of_reached (whole : source.text.toList = front ++ chars)
    (ends : chars.takeWhile (· ≠ '\n') = []) (ahead : ((start source).past front).line ≤ span.stop.line)
    (behind : span.stop.line ≤ ((start source).past front).line) :
    (List.range' ((start source).past front).line (span.stop.line + 1 - ((start source).past front).line)).map
        (fun number => marked span number (Text.line number source.text.toList)) =
      [marked span ((start source).past front).line (Text.lastLine front)] := by
  have one : span.stop.line + 1 - ((start source).past front).line = 1 := by omega
  rw [one, List.range'_one, List.map_singleton, line_of_whole whole, ends, List.append_nil]

/-- The rows go on with the line that reading has come to, up to the line that the span stops in. -/
theorem rows_of_reached (valid : span.Valid source) (whole : source.text.toList = front ++ chars)
    (ahead : ((start source).past front).line ≤ span.stop.line) :
    rows span.start.index span.stop.index ((start source).past front).index
        (marked span ((start source).past front).line (Text.lastLine front)).reverse chars =
      (List.range' ((start source).past front).line (span.stop.line + 1 - ((start source).past front).line)).map
        fun number => marked span number (Text.line number source.text.toList) := by
  induction chars generalizing front with
  | nil =>
    have reached : Reached source ((start source).past front) := reached_iff.mpr ⟨front, ⟨[], whole.symm⟩, rfl⟩
    have ending : span.stop.index ≤ ((start source).past front).index := by
      have bound := valid.inside
      rwa [← Text.utf8Length_toList, whole, List.append_nil, ← @index_start_past source] at bound
    rw [rows, List.reverse_reverse, lastRow_of_reached whole rfl ahead (valid.stop.line_le reached ending)]
  | cons c chars ih =>
    have reached : Reached source ((start source).past front) := reached_iff.mpr ⟨front, ⟨c :: chars, whole.symm⟩, rfl⟩
    have wholeNext : source.text.toList = (front ++ [c]) ++ chars := by simp [whole]
    have next : (start source).past (front ++ [c]) = ((start source).past front).step c := past_append ..
    have goes := @ih (front ++ [c]) wholeNext
    rw [next] at goes
    rw [rows]
    split
    next newline =>
      subst newline
      split
      next behind =>
        rw [List.reverse_reverse, lastRow_of_reached whole (by simp) ahead (valid.stop.line_le reached behind)]
      next before =>
        have further : ((start source).past front).line + 1 ≤ span.stop.line := by
          have reachedNext : Reached source (((start source).past front).step '\n') :=
            next ▸ reached_iff.mpr ⟨front ++ ['\n'], ⟨chars, wholeNext.symm⟩, rfl⟩
          exact reachedNext.line_le valid.stop (Nat.lt_of_not_le before)
        have line : Text.line ((start source).past front).line source.text.toList = Text.lastLine front := by
          simp [line_of_whole whole]
        have count : span.stop.line + 1 - ((start source).past front).line =
            (span.stop.line + 1 - (((start source).past front).line + 1)) + 1 := by omega
        rw [Text.lastLine_newline] at goes
        rw [count, List.range'_succ, List.map_cons, line, List.reverse_reverse]
        exact congrArg _ (goes further)
    next other =>
      have sameLine : (((start source).past front).step c).line = ((start source).past front).line := by
        rw [step, if_neg other]
      have cell : decide (span.start.index ≤ ((start source).past front).index ∧
          ((start source).past front).index < span.stop.index) =
            decide (span.Holds ((start source).past front).line (Text.lastLine front).length) := by
        rw [← @column_start_past source, decide_eq_decide]
        exact (Span.holds_of_reached (valid.start.source_eq ▸ reached)).symm
      rw [sameLine, Text.lastLine_concat other, marked_concat, List.reverse_append, List.reverse_singleton,
        List.singleton_append, index_step] at goes
      rw [cell]
      exact goes ahead

/-! How many characters are marked. -/

/-- How many characters are at offsets that are marked, newlines apart. -/
def held (start stop index : Nat) : List Char → Nat
  | [] => 0
  | c :: rest => (if c ≠ '\n' ∧ start ≤ index ∧ index < stop then 1 else 0) + held start stop (index + c.utf8Size) rest

variable {start stop index : Nat}

theorem held_append (front back : List Char) :
    held start stop index (front ++ back) =
      held start stop index front + held start stop (index + Text.utf8Length front) back := by
  induction front generalizing index with
  | nil => simp [held, Text.utf8Length]
  | cons c front ih => simp only [List.cons_append, held, ih, Text.utf8Length, Nat.add_assoc]

theorem held_before (early : index + Text.utf8Length chars ≤ start) : held start stop index chars = 0 := by
  induction chars generalizing index with
  | nil => rfl
  | cons c chars ih =>
    have width := c.utf8Size_pos
    rw [Text.utf8Length] at early
    rw [held, if_neg (by omega), ih (by omega)]

theorem held_behind (late : stop ≤ index) : held start stop index chars = 0 := by
  induction chars generalizing index with
  | nil => rfl
  | cons c chars ih => rw [held, if_neg (by omega), ih (by omega)]

theorem held_between (early : start ≤ index) (late : index + Text.utf8Length chars ≤ stop) :
    held start stop index chars = chars.countP (· ≠ '\n') := by
  induction chars generalizing index with
  | nil => rfl
  | cons c chars ih =>
    have width := c.utf8Size_pos
    rw [Text.utf8Length] at late
    rw [held, ih (by omega) (by omega), List.countP_cons, Nat.add_comm]
    have between : index < stop := by omega
    simp [early, between]

/-- The rows mark what is held, each character once. -/
theorem countP_rows (line : Row) :
    (rows start stop index line chars).flatten.countP Prod.snd =
      line.countP Prod.snd + held start stop index chars := by
  fun_induction rows start stop index line chars with
  | case1 index line => simp [held]
  | case2 index line rest behind =>
    rw [held_behind behind]
    simp
  | case3 index line rest before ih =>
    rw [List.flatten_cons, List.countP_append, ih, held]
    simp
  | case4 index line c rest other ih =>
    rw [ih, held, List.countP_cons]
    simp [other, Nat.add_assoc]

theorem dropWhile_congr {test good : Char → Bool} (same : ∀ c ∈ chars, test c = good c) :
    chars.dropWhile test = chars.dropWhile good := by
  induction chars with
  | nil => rfl
  | cons c chars ih =>
    rw [List.forall_mem_cons] at same
    rw [List.dropWhile_cons, List.dropWhile_cons, same.1, ih same.2]

theorem trimRight_congr {good : Char → Bool} (same : ∀ c ∈ chars, Text.isBlank c = good c) :
    Text.trimRight chars = chars.rdropWhile good :=
  congrArg List.reverse (dropWhile_congr fun c member => same c (List.mem_reverse.mp member))

theorem markRow_eq (span : Span) (number : Nat) :
    span.markRow number = (marked span number (Text.line number span.start.source.text.toList)).map
      fun cell => if cell.2 then '~' else ' ' := by
  apply List.ext_getElem <;> simp [Span.markRow, marked]

theorem marks_marked (span : Span) (number : Nat) :
    (marked span number (Text.line number span.start.source.text.toList)).marks = span.marks number := by
  rw [Span.marks, markRow_eq, Row.marks]
  -- Of the two characters of a row only the space is blank.
  refine trimRight_congr fun mark member => ?_
  obtain ⟨cell, _, rfl⟩ := List.mem_map.mp member
  split <;> decide

theorem count_marks (span : Span) (number : Nat) :
    (span.marks number).count '~' =
      (marked span number (Text.line number span.start.source.text.toList)).countP Prod.snd := by
  have spaces : ((span.markRow number).rtakeWhile (· = ' ')).count '~' = 0 := by
    rw [List.count_eq_zero]
    intro member
    have space := List.mem_rtakeWhile_imp member
    simp at space
  have whole : (span.markRow number).count '~' = (span.marks number).count '~' := by
    conv_lhs => rw [← @List.rdropWhile_append_rtakeWhile _ (· = ' ') (span.markRow number), List.count_append, spaces]
    rfl
  rw [← whole, markRow_eq, List.count, List.countP_map]
  refine List.countP_congr fun cell _ => ?_
  cases held : cell.2 <;> simp [held]

/-- From the start of the line that the span starts in, the rows are the lines that it touches. -/
theorem rows_of_valid (valid : span.Valid source) :
    rows span.start.index span.stop.index span.start.lineStart.index [] span.start.lineStart.after =
      span.lineNumbers.map fun number => marked span number (Text.line number source.text.toList) := by
  obtain ⟨front, middle, back, whole, begins, _⟩ := valid.exists_pieces
  obtain ⟨above, _, fresh, wholeLine, lineStart⟩ := lineStart_past whole
  rw [← begins] at lineStart
  have sameLine : ((start source).past above).line = span.start.line := by
    rw [← lineStart]
    rfl
  have ahead : span.start.line ≤ span.stop.line := valid.start.line_le valid.stop valid.ordered
  have drawn := rows_of_reached valid wholeLine (sameLine ▸ ahead)
  rw [fresh, sameLine] at drawn
  rw [lineStart, after_start_past wholeLine]
  exact drawn

/-- As many characters are marked in the rows as the span holds. -/
theorem countP_rows_of_valid (valid : span.Valid source) :
    ∃ text, span.text? = some text ∧
      (rows span.start.index span.stop.index span.start.lineStart.index [] span.start.lineStart.after).flatten.countP
        Prod.snd = text.toList.countP (· ≠ '\n') := by
  obtain ⟨first, last⟩ := span
  obtain ⟨front, middle, back, whole, rfl, rfl⟩ := valid.exists_pieces
  obtain ⟨above, parts, _, wholeLine, lineStart⟩ := lineStart_past whole
  have width : Text.utf8Length above + Text.utf8Length (Text.lastLine front) = Text.utf8Length front := by
    rw [← Text.utf8Length_append, ← parts]
  refine ⟨_, Span.text?_past whole, ?_⟩
  rw [countP_rows, lineStart, after_start_past wholeLine, held_append, held_append, ← past_append,
    index_start_past, index_start_past, index_start_past, width, Text.utf8Length_append, held_before width.le,
    held_between le_rfl le_rfl, held_behind le_rfl, String.toList_ofList]
  simp

end Excerpt

theorem Span.underline_of_apart {span : Span} (same : span.start.source = span.stop.source)
    (apart : span.start.index ≠ span.stop.index) :
    span.underline = .ok (String.ofList ((Excerpt.rows span.start.index span.stop.index span.start.lineStart.index []
      span.start.lineStart.after).flatMap Excerpt.Row.render)) := by
  have compared : span.start.lineStart.compare span.stop =
      .ok (Ord.compare span.start.lineStart.index span.stop.index) :=
    if_pos same
  rw [underline, if_neg fun both => apart both.1]
  simp only [compared]
  split <;> rfl

/-- The underlined lines are those that the span touches, each as it is in the source and over its marks. There are as
many marks as characters in the span, newlines apart. -/
theorem underline_of_reached {source : Source} {start stop : Position} (first : Reached source start)
    (last : Reached source stop) (before : start.compare stop = .ok .lt) :
    let span : Span := ⟨start, stop⟩
    span.underline = .ok (String.ofList (span.lineNumbers.flatMap fun number =>
        Text.line number source.text.toList ++ '\n' :: span.marks number ++ ['\n'])) ∧
      ∃ text, span.text? = some text ∧
        (span.lineNumbers.flatMap span.marks).count '~' = text.toList.countP (· ≠ '\n') := by
  intro span
  have same : start.source = stop.source := first.source_eq.trans last.source_eq.symm
  have less : start.index < stop.index := by
    rw [Position.compare, if_pos same, Except.ok.injEq] at before
    exact Nat.compare_eq_lt.mp before
  have valid : span.Valid source := ⟨first, last, less.le, last.index_le⟩
  have drawn := Excerpt.rows_of_valid valid
  have row (number : Nat) : (Excerpt.marked span number (Text.line number source.text.toList)).render =
      Text.line number source.text.toList ++ '\n' :: span.marks number ++ ['\n'] := by
    rw [← first.source_eq, Excerpt.Row.render, Excerpt.text_marked, Excerpt.marks_marked]
  constructor
  · rw [Span.underline_of_apart same less.ne, drawn, List.flatMap_map]
    simp only [row]
  · obtain ⟨text, covered, count⟩ := Excerpt.countP_rows_of_valid valid
    refine ⟨text, covered, ?_⟩
    rw [← count, drawn, List.countP_flatten, List.map_map, List.count_flatMap, ← first.source_eq]
    congr 2
    funext number
    exact Excerpt.count_marks span number

/-- Three lines, the second one empty, with a character of two bytes in the first one. -/
def accentedSource : Source :=
  ⟨"", " aé\n\nb c"⟩

/-- From the accent to before the space. -/
def accentedSpan : Span :=
  ⟨⟨2, 0, 2, accentedSource⟩, ⟨7, 2, 1, accentedSource⟩⟩

theorem underline_accentedSpan :
    accentedSpan.start.compare accentedSpan.stop = .ok .lt ∧
      accentedSpan.underline = .ok " aé\n  ~\n\n\nb c\n~\n" ∧
      ∃ text, accentedSpan.text? = some text ∧ 2 = text.toList.countP (· ≠ '\n') := by
  have first : Reached accentedSource accentedSpan.start := reached_iff.mpr ⟨[' ', 'a'], by decide, by decide⟩
  have last : Reached accentedSource accentedSpan.stop :=
    reached_iff.mpr ⟨[' ', 'a', 'é', '\n', '\n', 'b'], by decide, by decide⟩
  have before : accentedSpan.start.compare accentedSpan.stop = .ok .lt := by decide
  have lines : (accentedSpan.lineNumbers.flatMap fun number =>
      Text.line number accentedSource.text.toList ++ '\n' :: accentedSpan.marks number ++ ['\n']) =
        " aé\n  ~\n\n\nb c\n~\n".toList := by decide +kernel
  have two : (accentedSpan.lineNumbers.flatMap accentedSpan.marks).count '~' = 2 := by decide +kernel
  obtain ⟨drawn, text, covered, count⟩ := underline_of_reached first last before
  exact ⟨before, by rw [drawn, lines, String.ofList_toList], text, covered, two ▸ count⟩

end RecordLayout
