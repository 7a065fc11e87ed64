import RecordLayout.Proofs.Position.Moves
import RecordLayout.Proofs.Span.Valid

/-! Blank characters at the end of a text. Where nothing else follows, a position goes back to behind the last
character that is not blank, wherever in the blanks it was. So what is missing at the end of a text is marked in the
last line in which there is anything, right behind it. -/

namespace RecordLayout

namespace Text

/-- The last character of a text that is not blank, with what stands before and after it. -/
structure LastSolid (chars front : List Char) (c : Char) (blanks : List Char) : Prop where
  whole : chars = front ++ c :: blanks
  solid : isBlank c = false
  blank : ∀ d ∈ blanks, isBlank d = true

/-- The last line in which there is anything, cut behind the last character that is not blank. -/
structure LastShown (chars above shown blanks below : List Char) : Prop where
  whole : chars = above ++ (shown ++ (blanks ++ below))
  line : IsLine above (shown ++ blanks) below
  solid : ∃ c ∈ shown.getLast?, isBlank c = false
  blank : ∀ c ∈ blanks ++ below, isBlank c = true

variable {chars front back blanks above shown below : List Char} {c : Char}

theorem trimRight_append (blank : ∀ d ∈ blanks, isBlank d = true) : trimRight (front ++ blanks) = trimRight front := by
  have gone : blanks.reverse.dropWhile isBlank = [] := by simpa using blank
  rw [trimRight, List.reverse_append, List.dropWhile_append, gone]
  rfl

theorem trimRight_concat (solid : isBlank c = false) : trimRight (front ++ [c]) = front ++ [c] :=
  List.rdropWhile_concat_neg isBlank front c (by simp [solid])

theorem trimRight_trimRight (chars : List Char) : trimRight (trimRight chars) = trimRight chars :=
  List.rdropWhile_idempotent isBlank chars

theorem LastSolid.trimRight_eq (last : LastSolid chars front c blanks) : trimRight chars = front ++ [c] := by
  have parts : chars = (front ++ [c]) ++ blanks := by simp [last.whole]
  rw [parts, trimRight_append last.blank, trimRight_concat last.solid]

theorem exists_lastSolid (some : ∃ c ∈ chars, isBlank c = false) :
    ∃ front c blanks, LastSolid chars front c blanks := by
  induction chars using List.reverseRecOn with
  | nil => simp at some
  | append_singleton front c ih =>
    cases shape : isBlank c with
    | false => exact ⟨front, c, [], rfl, shape, by simp⟩
    | true =>
      obtain ⟨d, member, solid⟩ := some
      have before : d ∈ front := by
        rcases List.mem_append.mp member with before | same
        · exact before
        · rw [List.mem_singleton.mp same, shape] at solid
          cases solid
      obtain ⟨start, e, blanks, last⟩ := ih ⟨d, before, solid⟩
      refine ⟨start, e, blanks ++ [c], by simp [last.whole], last.solid, ?_⟩
      exact List.forall_mem_append.mpr ⟨last.blank, by simp [shape]⟩

theorem lastLine_concat_solid (solid : isBlank c = false) : lastLine (front ++ [c]) = lastLine front ++ [c] := by
  apply lastLine_concat
  rintro rfl
  exact absurd solid (by decide)

theorem IsLine.lastLine_above {line : List Char} (isLine : IsLine above line below) : lastLine above = [] := by
  rcases List.eq_nil_or_concat' above with rfl | ⟨front, c, rfl⟩
  · rfl
  · rw [isLine.begins c (by simp), lastLine_newline]

/-- Up to the newline the end of a line is all there is. -/
theorem IsLine.takeWhile_eq {line : List Char} (isLine : IsLine above line below) (plain : '\n' ∉ blanks) :
    (blanks ++ below).takeWhile (· ≠ '\n') = blanks := by
  have inside : ∀ c ∈ blanks, decide (c ≠ '\n') = true := fun c member =>
    decide_eq_true fun newline => plain (newline ▸ member)
  rw [List.takeWhile_append_of_pos inside]
  cases below with
  | nil => rw [List.takeWhile_nil, List.append_nil]
  | cons c below => simp [isLine.ends c rfl]

theorem exists_lastShown (some : ∃ c ∈ chars, isBlank c = false) :
    ∃ above shown blanks below, LastShown chars above shown blanks below := by
  -- The line is that of the last solid character, up to the first newline among the blanks behind it.
  obtain ⟨front, c, rest, last⟩ := exists_lastSolid some
  obtain ⟨above, parts, line⟩ := exists_isLine (front ++ [c]) rest
  refine ⟨above, lastLine (front ++ [c]), _, _, ?_, line, ⟨c, ?_, last.solid⟩, ?_⟩
  · rw [List.takeWhile_append_dropWhile, ← List.append_assoc, ← parts, last.whole]
    simp
  · simp [lastLine_concat_solid last.solid]
  · rw [List.takeWhile_append_dropWhile]
    exact last.blank

theorem LastShown.trimRight_eq (last : LastShown chars above shown blanks below) :
    trimRight chars = above ++ shown := by
  obtain ⟨c, ends, solid⟩ := last.solid
  obtain ⟨front, rfl⟩ := List.getLast?_eq_some_iff.mp ends
  rw [last.whole, ← List.append_assoc, trimRight_append last.blank, ← List.append_assoc, trimRight_concat solid]

end Text

namespace Position

variable {source : Source} {here : Position} {front back : List Char}

theorem beforeTrailingBlanks_of_trimmed (trimmed : Text.trimRight here.before = here.before) :
    here.beforeTrailingBlanks = here :=
  if_pos (.inl trimmed)

theorem beforeTrailingBlanks_of_solid (follows : ∃ c ∈ here.after, Text.isBlank c = false) :
    here.beforeTrailingBlanks = here := by
  refine if_pos (.inr fun blank => ?_)
  obtain ⟨c, member, solid⟩ := follows
  have other := List.all_eq_true.mp blank c member
  rw [solid] at other
  cases other

/-- Among blanks at the end it does not matter where the position is. -/
theorem beforeTrailingBlanks_of_blank (whole : source.text.toList = front ++ back)
    (blank : ∀ c ∈ back, Text.isBlank c = true) :
    ((start source).past front).beforeTrailingBlanks = (start source).past (Text.trimRight source.text.toList) := by
  have all : ((start source).past front).after.all Text.isBlank = true := by
    rw [after_start_past whole]
    exact List.all_eq_true.mpr blank
  rw [whole, Text.trimRight_append blank, beforeTrailingBlanks, before_start_past whole, source_past, source_start, all]
  by_cases trimmed : Text.trimRight front = front
  · rw [if_pos (.inl trimmed), trimmed]
  · rw [if_neg (by simp [trimmed])]

theorem Reached.beforeTrailingBlanks_beforeTrailingBlanks (reached : Reached source here) :
    here.beforeTrailingBlanks.beforeTrailingBlanks = here.beforeTrailingBlanks := by
  obtain ⟨front, ⟨back, whole⟩, rfl⟩ := reached_iff.mp reached
  by_cases blank : ∀ c ∈ back, Text.isBlank c = true
  · -- The place behind what is left has nothing to go back over.
    rw [beforeTrailingBlanks_of_blank whole.symm blank]
    obtain ⟨more, parts⟩ := Text.trimRight_prefix source.text.toList
    apply beforeTrailingBlanks_of_trimmed
    rw [before_start_past parts.symm, Text.trimRight_trimRight]
  · have follows : ∃ c ∈ ((Position.start source).past front).after, Text.isBlank c = false := by
      rw [after_start_past whole.symm]
      simpa using blank
    rw [beforeTrailingBlanks_of_solid follows, beforeTrailingBlanks_of_solid follows]

/-- Behind the last character before the place that is not blank. -/
theorem Reached.exists_lastSolid (reached : Reached source here) (blank : ∀ c ∈ here.after, Text.isBlank c = true)
    (some : ∃ c ∈ source.text.toList, Text.isBlank c = false) :
    ∃ front c gap, Text.LastSolid here.before front c gap ∧
      here.beforeTrailingBlanks = (Position.start source).past (front ++ [c]) ∧
      (gap = [] → here.beforeTrailingBlanks = here) := by
  obtain ⟨front, ⟨back, whole⟩, rfl⟩ := reached_iff.mp reached
  rw [after_start_past whole.symm] at blank
  rw [before_start_past whole.symm, beforeTrailingBlanks_of_blank whole.symm blank, ← whole,
    Text.trimRight_append blank]
  have inFront : ∃ c ∈ front, Text.isBlank c = false := by
    obtain ⟨c, member, solid⟩ := some
    rcases List.mem_append.mp (whole ▸ member) with before | behind
    · exact ⟨c, before, solid⟩
    · rw [blank c behind] at solid
      cases solid
  obtain ⟨start, c, gap, last⟩ := Text.exists_lastSolid inFront
  refine ⟨start, c, gap, last, by rw [last.trimRight_eq], ?_⟩
  rintro rfl
  rw [last.trimRight_eq, ← last.whole]

end Position

/-- The number of the line that begins behind some text, counted from 1. -/
def Text.numberBelow (above : List Char) : Nat :=
  above.count '\n' + 1

/-- A mark right behind what is shown of a line. -/
def Text.markedBehind (shown blanks : List Char) : String :=
  String.ofList (shown ++ blanks ++ '\n' :: List.replicate shown.length ' ' ++ ['~', '\n'])

section

variable {source : Source} {here stop : Position} {above shown blanks below : List Char} {error : CompileError}

open Position

/-- The place behind what is shown of the last line in which there is anything. -/
theorem Text.LastShown.place_eq (last : LastShown source.text.toList above shown blanks below) :
    ((start source).past (above ++ shown)).lineText = shown ++ blanks ∧
      ((start source).past (above ++ shown)).line = above.count '\n' ∧
      ((start source).past (above ++ shown)).column = shown.length := by
  have unbroken := last.line.unbroken
  rw [List.mem_append, not_or] at unbroken
  have line : lastLine (above ++ shown) = shown := by
    rw [lastLine_append unbroken.1, last.line.lastLine_above, List.nil_append]
  have others : (blanks ++ below).takeWhile (· ≠ '\n') = blanks := last.line.takeWhile_eq unbroken.2
  refine ⟨?_, ?_, ?_⟩
  · have whole : source.text.toList = (above ++ shown) ++ (blanks ++ below) := by rw [last.whole, List.append_assoc]
    rw [lineText, source_past, source_start, line_of_whole whole, line, others]
  · rw [line_start_past, List.count_append, List.count_eq_zero.mpr unbroken.1, Nat.add_zero]
  · rw [column_start_past, line]

/-- What is shown of a span of no characters at the end of a text. -/
theorem Text.LastShown.exists_excerpt (last : LastShown source.text.toList above shown blanks below)
    (reached : Reached source here) (blank : ∀ c ∈ here.after, Text.isBlank c = true) (same : here.Coincides stop) :
    ∃ excerpt : Excerpt, Excerpt.Show [excerpt] [⟨here, stop⟩] ∧ excerpt.span.start.source = source ∧
      excerpt.span.start.line + 1 = numberBelow above ∧ excerpt.lines = Text.markedBehind shown blanks := by
  obtain ⟨front, ⟨back, whole⟩, rfl⟩ := reached_iff.mp reached
  rw [after_start_past whole.symm] at blank
  have moved : Span.anchored ⟨(start source).past front, stop⟩ = .empty ((start source).past (above ++ shown)) := by
    rw [Span.anchored, if_pos same, beforeTrailingBlanks_of_blank whole.symm blank, last.trimRight_eq]
  obtain ⟨line, number, column⟩ := last.place_eq
  have drawn :
      Span.underline (.empty ((start source).past (above ++ shown))) = .ok (Text.markedBehind shown blanks) := by
    rw [Span.underline, if_pos ⟨rfl, rfl⟩, Span.empty, line, column]
    rfl
  exact ⟨⟨.empty ((start source).past (above ++ shown)), Text.markedBehind shown blanks⟩,
    ⟨by simp [moved], by simpa using drawn⟩, source_past .., congrArg (· + 1) number, rfl⟩

/-- The report of what is missing at the end of a text. -/
theorem Text.LastShown.render_eq (last : LastShown source.text.toList above shown blanks below)
    (reached : Reached source here) (blank : ∀ c ∈ here.after, Text.isBlank c = true) (same : here.Coincides stop)
    (only : error.spans = [⟨here, stop⟩]) :
    error.render = .ok (s!"File {source.id}, on line {Text.numberBelow above}\n" ++ Text.markedBehind shown blanks ++
      "\n" ++ error.message ++ "\n") := by
  obtain ⟨excerpt, shows, named, number, lines⟩ := last.exists_excerpt reached blank same
  rw [← only] at shows
  rw [CompileError.render_eq shows, Excerpt.report, named, number, lines]

/-- Among other places, too, the end of a text is shown in this line. -/
theorem Text.LastShown.exists_render (last : LastShown source.text.toList above shown blanks below)
    (reached : Reached source here) (blank : ∀ c ∈ here.after, Text.isBlank c = true) (same : here.Coincides stop)
    {before behind : List Span} (among : error.spans = before ++ ⟨here, stop⟩ :: behind) (more : before ++ behind ≠ [])
    (others : ∀ span ∈ before ++ behind, span.start.source = span.stop.source) :
    ∃ head tail, error.render = .ok (head ++ s!"\non line {Text.numberBelow above},\n" ++
      Text.markedBehind shown blanks ++ tail) := by
  obtain ⟨excerpt, shows, -, number, lines⟩ := last.exists_excerpt reached blank same
  rw [List.forall_mem_append] at others
  obtain ⟨early, showsEarly⟩ := Excerpt.exists_show_of_same others.1
  obtain ⟨late, showsLate⟩ := Excerpt.exists_show_of_same others.2
  have all : Excerpt.Show (early ++ excerpt :: late) error.spans := by
    rw [among]
    exact showsEarly.append (shows.append showsLate)
  have several : early ++ late ≠ [] := by
    intro none
    have spans : (early ++ late).map Excerpt.span = (before ++ behind).map Span.anchored :=
      (showsEarly.append showsLate).1
    rw [none, List.map_nil, eq_comm, List.map_eq_nil_iff] at spans
    exact more spans
  obtain ⟨head, tail, parts⟩ := Excerpt.exists_report_eq excerpt error.message several
  refine ⟨head, tail, ?_⟩
  rw [CompileError.render_eq all, parts, Excerpt.numbered, number, lines]
  simp only [String.append_assoc]

/-- A place that has something but blanks behind it stays where it is. At the end of a text that is not blank, a place
goes back over blanks to behind the last character that is not blank, once and for all, and what is reported there is
marked behind that character, in its line. -/
theorem Position.beforeTrailingBlanks_of_reached (reached : Reached source here) :
    here.beforeTrailingBlanks.beforeTrailingBlanks = here.beforeTrailingBlanks ∧
    ((∃ c ∈ here.after, Text.isBlank c = false) → here.beforeTrailingBlanks = here) ∧
    ((∃ c ∈ source.text.toList, Text.isBlank c = false) → (∀ c ∈ here.after, Text.isBlank c = true) →
      (∃ front c gap, Text.LastSolid here.before front c gap ∧
        here.beforeTrailingBlanks = (start source).past (front ++ [c]) ∧
        (gap = [] → here.beforeTrailingBlanks = here)) ∧
      ∃ above shown blanks below, Text.LastShown source.text.toList above shown blanks below ∧
        ∀ (error : CompileError) stop, here.Coincides stop →
          (error.spans = [⟨here, stop⟩] →
            error.render = .ok (s!"File {source.id}, on line {Text.numberBelow above}\n" ++
              Text.markedBehind shown blanks ++ "\n" ++ error.message ++ "\n")) ∧
          ∀ before behind, error.spans = before ++ ⟨here, stop⟩ :: behind → before ++ behind ≠ [] →
            (∀ span ∈ before ++ behind, span.start.source = span.stop.source) →
            ∃ head tail, error.render = .ok (head ++ s!"\non line {Text.numberBelow above},\n" ++
              Text.markedBehind shown blanks ++ tail)) := by
  refine ⟨reached.beforeTrailingBlanks_beforeTrailingBlanks, beforeTrailingBlanks_of_solid, fun some blank => ?_⟩
  obtain ⟨above, shown, blanks, below, last⟩ := Text.exists_lastShown some
  refine ⟨reached.exists_lastSolid blank some, above, shown, blanks, below, last, fun error stop same => ⟨?_, ?_⟩⟩
  · exact last.render_eq reached blank same
  · exact fun before behind among more others => last.exists_render reached blank same among more others

/-- A character of two bytes, blanks behind it up to the end of the line, and a blank line. -/
def blankEndSource : Source :=
  ⟨"s", "\na é\t \r\n \n"⟩

/-- On the blank line. -/
def blankEnd : Position :=
  ⟨10, 2, 1, blankEndSource⟩

/-- What is missing there. -/
def blankEndError : CompileError :=
  .expectedMore (.empty blankEnd) [";"]

theorem beforeTrailingBlanks_blankEnd :
    Reached blankEndSource blankEnd ∧ (∃ c ∈ blankEndSource.text.toList, Text.isBlank c = false) ∧
    (∀ c ∈ blankEnd.after, Text.isBlank c = true) ∧
    (∃ front c gap, Text.LastSolid blankEnd.before front c gap ∧
      blankEnd.beforeTrailingBlanks = (start blankEndSource).past (front ++ [c])) ∧
    (∃ above shown blanks below, Text.LastShown blankEndSource.text.toList above shown blanks below ∧
      blankEndError.render = .ok (s!"File s, on line {Text.numberBelow above}\n" ++ Text.markedBehind shown blanks ++
        "\n" ++ blankEndError.message ++ "\n")) ∧
    blankEndError.render = .ok "File s, on line 2\na é\t \r\n   ~\n\nExpected more chars error: ';'\n" := by
  have reached : Reached blankEndSource blankEnd :=
    reached_iff.mpr ⟨['\n', 'a', ' ', 'é', '\t', ' ', '\r', '\n', ' '], ⟨['\n'], rfl⟩, rfl⟩
  have some : ∃ c ∈ blankEndSource.text.toList, Text.isBlank c = false :=
    ⟨'a', List.mem_cons_of_mem _ List.mem_cons_self, by decide⟩
  have after : blankEnd.after = ['\n'] := rfl
  have blank : ∀ c ∈ blankEnd.after, Text.isBlank c = true := by simp [after, Text.isBlank_newline]
  obtain ⟨-, -, atEnd⟩ := Position.beforeTrailingBlanks_of_reached reached
  obtain ⟨⟨front, c, gap, last, place, -⟩, above, shown, blanks, below, parts, reports⟩ := atEnd some blank
  exact ⟨reached, some, blank, ⟨front, c, gap, last, place⟩,
    ⟨above, shown, blanks, below, parts, (reports blankEndError blankEnd ⟨rfl, rfl⟩).1 rfl⟩, rfl⟩

end

end RecordLayout
