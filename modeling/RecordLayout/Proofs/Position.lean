import Mathlib.Data.String.Basic
import RecordLayout.Position

/-! Places that are reached by reading a source from its start. They cut the source between characters, and
two of them in order cut a piece out of it. -/

namespace RecordLayout

namespace Text

theorem utf8Length_eq_utf8Len (chars : List Char) : utf8Length chars = String.utf8Len chars := by
  induction chars with
  | nil => rfl
  | cons c chars ih => simp [utf8Length, ih, Nat.add_comm]

theorem utf8Length_toList (text : String) : utf8Length text.toList = text.utf8ByteSize := by
  rw [utf8Length_eq_utf8Len, ← String.utf8ByteSize_ofList, String.ofList_toList]

theorem utf8Length_pos {chars : List Char} (some : chars ≠ []) : 0 < utf8Length chars := by
  cases chars with
  | nil => exact absurd rfl some
  | cons c chars =>
    have positive := c.utf8Size_pos
    simp only [utf8Length]
    omega

theorem utf8Length_reverse (chars : List Char) : utf8Length chars.reverse = utf8Length chars := by
  induction chars with
  | nil => rfl
  | cons c chars ih => simp [utf8Length, ih, Nat.add_comm]

theorem slice?_append (front middle back : List Char) :
    slice? (utf8Length front) (utf8Length (front ++ middle)) (front ++ (middle ++ back)) = some middle := by
  have upTo : takeBytes (utf8Length (front ++ middle)) (front ++ (middle ++ back)) = front ++ middle := by
    rw [← List.append_assoc]
    exact takeBytes_utf8Length_append _ back
  have width : utf8Length (front ++ middle) - utf8Length front = utf8Length middle := by simp
  rw [slice?, takeBytes_utf8Length_append, upTo, dropBytes_utf8Length_append, width, takeBytes_utf8Length_append,
    if_pos (by simp)]

end Text

namespace Position

/-- What advancing from the start of a source comes to. -/
inductive Reached (source : Source) : Position → Prop where
  | start : Reached source (.start source)
  | advance {here} (before : Reached source here) : Reached source here.advance

variable {source : Source} {here : Position} {front back : List Char}

@[simp] theorem source_start : (start source).source = source := rfl

@[simp] theorem index_start_past (chars : List Char) : ((start source).past chars).index = Text.utf8Length chars := by
  rw [index_past]
  exact Nat.zero_add _

theorem line_past (here : Position) (chars : List Char) : (here.past chars).line = here.line + chars.count '\n' := by
  induction chars generalizing here with
  | nil => rfl
  | cons c chars ih =>
    rw [past_cons, ih, step]
    split
    next line =>
      rw [line, List.count_cons_self]
      exact Nat.add_right_comm ..
    next other => rw [List.count_cons_of_ne other]

theorem before_start_past (whole : source.text.toList = front ++ back) : ((start source).past front).before = front := by
  rw [before, index_start_past, source_past, source_start, whole, Text.takeBytes_utf8Length_append]

theorem after_start_past (whole : source.text.toList = front ++ back) : ((start source).past front).after = back := by
  rw [after, index_start_past, source_past, source_start, whole, Text.dropBytes_utf8Length_append]

theorem advance_start_past {c : Char} (whole : source.text.toList = front ++ c :: back) :
    ((start source).past front).advance = (start source).past (front ++ [c]) := by
  rw [advance, advanceBy, after_start_past whole, past_append]
  rfl

theorem reached_past {chars : List Char} (reached : Reached source ((start source).past front))
    (whole : source.text.toList = front ++ (chars ++ back)) : Reached source (((start source).past front).past chars) := by
  induction chars generalizing front with
  | nil => exact reached
  | cons c chars ih =>
    have next := @ih (front ++ [c]) (advance_start_past whole ▸ reached.advance) (by simpa using whole)
    rwa [past_append] at next

theorem reached_iff : Reached source here ↔ ∃ front, front <+: source.text.toList ∧ here = (start source).past front := by
  constructor
  · intro reached
    induction reached with
    | start => exact ⟨[], List.nil_prefix, rfl⟩
    | advance _ ih =>
      obtain ⟨front, ⟨back, whole⟩, rfl⟩ := ih
      refine ⟨front ++ back.take 1, ⟨back.drop 1, by rw [List.append_assoc, List.take_append_drop, whole]⟩, ?_⟩
      rw [Position.advance, advanceBy, after_start_past whole.symm, past_append]
  · rintro ⟨front, ⟨back, whole⟩, rfl⟩
    exact @reached_past source [] back front .start whole.symm

theorem Reached.source_eq (reached : Reached source here) : here.source = source := by
  obtain ⟨front, _, rfl⟩ := reached_iff.mp reached
  simp

theorem Reached.index_le (reached : Reached source here) : here.index ≤ source.text.utf8ByteSize := by
  obtain ⟨front, ⟨back, whole⟩, rfl⟩ := reached_iff.mp reached
  rw [index_start_past, ← Text.utf8Length_toList, ← whole, Text.utf8Length_append]
  omega

/-- Of two places the earlier one is reached on the way to the later one. -/
theorem Reached.exists_between {there : Position} (first : Reached source here) (second : Reached source there)
    (ordered : here.index ≤ there.index) : ∃ front middle back,
      source.text.toList = front ++ (middle ++ back) ∧ here = (Position.start source).past front ∧ there = here.past middle := by
  obtain ⟨front, before, rfl⟩ := reached_iff.mp first
  obtain ⟨whole, ⟨back, same⟩, rfl⟩ := reached_iff.mp second
  rw [index_start_past, index_start_past] at ordered
  rcases List.prefix_or_prefix_of_prefix before ⟨back, same⟩ with ⟨middle, rfl⟩ | ⟨middle, rfl⟩
  · exact ⟨front, middle, back, by simp [← same], rfl, past_append ..⟩
  · have none : middle = [] := by
      by_contra some
      have positive := Text.utf8Length_pos some
      rw [Text.utf8Length_append] at ordered
      omega
    subst none
    exact ⟨whole, [], back, by simp [← same], by simp, by simp⟩

theorem Reached.line_le {there : Position} (first : Reached source here) (second : Reached source there)
    (ordered : here.index ≤ there.index) : here.line ≤ there.line := by
  obtain ⟨front, middle, back, _, _, rfl⟩ := first.exists_between second ordered
  rw [line_past]
  exact Nat.le_add_right ..

end Position

namespace Span

/-- From a place that has been read up to, further characters are the piece up to where they end. -/
theorem text?_past {source : Source} {front middle back : List Char}
    (whole : source.text.toList = front ++ (middle ++ back)) :
    text? ⟨(Position.start source).past front, ((Position.start source).past front).past middle⟩ =
      some (String.ofList middle) := by
  simp only [← Position.past_append, text?, Position.index_start_past, Position.source_past, Position.source_start,
    whole, Text.slice?_append, Option.map_some]

end Span

end RecordLayout
