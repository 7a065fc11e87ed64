import Mathlib.Data.List.DropRight
import Mathlib.Logic.Function.Iterate
import RecordLayout.Proofs.Text.Lines

/-! Positions that are moved about. However a position is moved over a text, it is a place that reading comes to: its
offset cuts the text between characters, its line is the number of newlines before it, and its column the number of
characters since the last of them. Where it is thus settles all of it. -/

namespace RecordLayout

namespace Text

theorem trimRight_prefix (chars : List Char) : trimRight chars <+: chars :=
  List.rdropWhile_prefix isBlank chars

/-- A whole line, by what is above it and what is below it. -/
structure IsLine (above line below : List Char) : Prop where
  begins : ∀ c ∈ above.getLast?, c = '\n'
  unbroken : '\n' ∉ line
  ends : ∀ c ∈ below.head?, c = '\n'

theorem exists_isLine (front back : List Char) :
    ∃ above, front = above ++ lastLine front ∧
      IsLine above (lastLine front ++ back.takeWhile (· ≠ '\n')) (back.dropWhile (· ≠ '\n')) := by
  obtain ⟨above, parts, fresh, inside⟩ := exists_lastLine front
  refine ⟨above, parts, ?_, ?_, ?_⟩
  · intro c last
    obtain ⟨some, rfl⟩ := List.mem_getLast?_eq_getLast last
    have newline := List.rtakeWhile_eq_nil_iff.mp fresh some
    simpa using newline
  · intro member
    rcases List.mem_append.mp member with before | after
    · exact inside before
    · simpa using List.mem_takeWhile_imp after
  · intro c first
    have stops := List.head?_dropWhile_not (· ≠ '\n') back
    rw [Option.mem_def.mp first] at stops
    simpa using stops

end Text

namespace Position

/-- The ways to move a position over its text. -/
inductive Move where
  | advance
  | lineStart
  | beforeTrailingBlanks

def Move.apply : Move → Position → Position
  | advance => Position.advance
  | lineStart => Position.lineStart
  | beforeTrailingBlanks => Position.beforeTrailingBlanks

/-- The place after some moves, one after another. -/
def moved (here : Position) (moves : List Move) : Position :=
  moves.foldl (fun here move => move.apply here) here

/-- Offset, line and column are those of one place between two characters. -/
structure Coherent (here : Position) : Prop where
  boundary : Text.utf8Length here.before = here.index
  inside : here.index ≤ here.source.text.utf8ByteSize
  line : here.line = here.before.count '\n'
  column : here.column = (Text.lastLine here.before).length

variable {source : Source} {here there : Position} {front back : List Char}

theorem Reached.lineStart (reached : Reached source here) : Reached source here.lineStart := by
  obtain ⟨front, ⟨back, whole⟩, rfl⟩ := reached_iff.mp reached
  obtain ⟨above, _, _, wholeLine, start⟩ := lineStart_past whole.symm
  exact reached_iff.mpr ⟨above, ⟨_, wholeLine.symm⟩, start⟩

theorem Reached.beforeTrailingBlanks (reached : Reached source here) : Reached source here.beforeTrailingBlanks := by
  rw [Position.beforeTrailingBlanks]
  split
  · exact reached
  · obtain ⟨front, ⟨back, whole⟩, rfl⟩ := reached_iff.mp reached
    rw [before_start_past whole.symm, source_past, source_start]
    exact reached_iff.mpr ⟨_, (Text.trimRight_prefix front).trans ⟨back, whole⟩, rfl⟩

/-- Each move ends where reading comes to. -/
theorem Reached.apply (reached : Reached source here) (move : Move) : Reached source (move.apply here) := by
  cases move with
  | advance => exact reached.advance
  | lineStart => exact reached.lineStart
  | beforeTrailingBlanks => exact reached.beforeTrailingBlanks

theorem Reached.moved (reached : Reached source here) (moves : List Move) : Reached source (here.moved moves) := by
  induction moves generalizing here with
  | nil => exact reached
  | cons move moves ih => exact ih (reached.apply move)

theorem Reached.coherent (reached : Reached source here) : here.Coherent := by
  have inside : here.index ≤ here.source.text.utf8ByteSize := reached.source_eq ▸ reached.index_le
  obtain ⟨front, ⟨back, whole⟩, rfl⟩ := reached_iff.mp reached
  have before := before_start_past whole.symm
  exact ⟨by rw [before, index_start_past], inside, by rw [before, line_start_past], by rw [before, column_start_past]⟩

/-- Two places that are equally far into the text are one. -/
theorem Reached.eq_of_index (first : Reached source here) (second : Reached source there)
    (same : here.index = there.index) : here = there := by
  obtain ⟨front, middle, back, _, rfl, rfl⟩ := first.exists_between second same.le
  have none : middle = [] := by
    by_contra some
    have positive := Text.utf8Length_pos some
    rw [index_past ((Position.start source).past front) middle] at same
    omega
  rw [none, past_nil]

/-- Advancing reads one character after another. -/
theorem iterate_advance {chars : List Char} (whole : source.text.toList = front ++ (chars ++ back)) :
    Position.advance^[chars.length] ((start source).past front) = (start source).past (front ++ chars) := by
  induction chars generalizing front with
  | nil => simp
  | cons c chars ih =>
    rw [List.length_cons, Function.iterate_succ_apply, advance_start_past whole, ih (by simpa using whole),
      List.append_assoc, List.singleton_append]

/-- The line of a place holds the place, or ends at it. -/
theorem Reached.exists_line (reached : Reached source here) :
    ∃ above below, source.text.toList = above ++ (here.lineText ++ below) ∧ Text.IsLine above here.lineText below ∧
      Text.utf8Length above ≤ here.index ∧ here.index ≤ Text.utf8Length (above ++ here.lineText) := by
  obtain ⟨front, ⟨back, whole⟩, rfl⟩ := reached_iff.mp reached
  obtain ⟨above, parts, isLine⟩ := Text.exists_isLine front back
  have line : ((Position.start source).past front).lineText = Text.lastLine front ++ back.takeWhile (· ≠ '\n') := by
    rw [Position.lineText, source_past, source_start, line_of_whole whole.symm]
  have index : ((Position.start source).past front).index =
      Text.utf8Length above + Text.utf8Length (Text.lastLine front) := by
    rw [index_start_past, ← Text.utf8Length_append, ← parts]
  rw [line, index]
  refine ⟨above, _, ?_, isLine, Nat.le_add_right .., ?_⟩
  · rw [← whole, List.append_assoc, List.takeWhile_append_dropWhile, ← List.append_assoc, ← parts]
  · rw [Text.utf8Length_append, Text.utf8Length_append]
    omega

/-- From the start of its line a place is as many characters on as its column says. -/
theorem Reached.iterate_lineStart (reached : Reached source here) :
    Position.advance^[here.column] here.lineStart = here := by
  obtain ⟨front, ⟨back, whole⟩, rfl⟩ := reached_iff.mp reached
  obtain ⟨above, parts, _, wholeLine, start⟩ := lineStart_past whole.symm
  rw [start, column_start_past, iterate_advance wholeLine, ← parts]

/-- After any moves from the start of a text, the position is coherent, its offset settles it, and its line is the one
that the offset is in, from whose start as many steps lead to it as its column says. -/
theorem coherent_of_moves (source : Source) (moves : List Move) :
    let here := (start source).moved moves
    here.source = source ∧ here.Coherent ∧
      (∀ others, ((start source).moved others).index = here.index ↔ (start source).moved others = here) ∧
      (∃ above below, source.text.toList = above ++ (here.lineText ++ below) ∧ Text.IsLine above here.lineText below ∧
        Text.utf8Length above ≤ here.index ∧ here.index ≤ Text.utf8Length (above ++ here.lineText)) ∧
      Position.advance^[here.column] here.lineStart = here := by
  intro here
  have reached : Reached source here := Reached.start.moved moves
  refine ⟨reached.source_eq, reached.coherent, fun others => ⟨?_, congrArg index⟩, reached.exists_line,
    reached.iterate_lineStart⟩
  exact (Reached.start.moved others).eq_of_index reached

end Position

end RecordLayout
