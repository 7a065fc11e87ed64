import RecordLayout.Diagnostic.Excerpt

/-! Reports. A report is made of the places and the underlined lines of its spans and of the message, and of nothing
else. It is made unless the lines of a span cannot be underlined. -/

namespace RecordLayout

/-- A span as it is shown, and its underlined lines. -/
structure Excerpt where
  span : Span
  lines : String

namespace Excerpt

/-- The lines below their number, as in a report of several excerpts. -/
def numbered (excerpt : Excerpt) : String :=
  s!"\non line {excerpt.span.start.line + 1},\n" ++ excerpt.lines

/-- The report of a message with its excerpts. -/
def report (message : String) : List Excerpt → String
  | [] => message ++ "\n"
  | [only] =>
    s!"File {only.span.start.source.id}, on line {only.span.start.line + 1}\n" ++ only.lines ++ "\n" ++ message ++ "\n"
  | first :: others =>
    s!"File {first.span.start.source.id},\n" ++ String.join ((first :: others).map numbered) ++ "\n" ++ message ++ "\n"

/-- The excerpts show the spans, in this order. -/
def Show (excerpts : List Excerpt) (spans : List Span) : Prop :=
  excerpts.map span = spans.map Span.anchored ∧ ∀ excerpt ∈ excerpts, excerpt.span.underline = .ok excerpt.lines

theorem Show.append {front back : List Excerpt} {first second : List Span} (shown : Show front first)
    (others : Show back second) : Show (front ++ back) (first ++ second) :=
  ⟨by rw [List.map_append, List.map_append, shown.1, others.1], List.forall_mem_append.mpr ⟨shown.2, others.2⟩⟩

/-- Each excerpt of several is in the report, below the number of its line. -/
theorem exists_report_eq {before behind : List Excerpt} (excerpt : Excerpt) (message : String)
    (several : before ++ behind ≠ []) :
    ∃ head tail, report message (before ++ excerpt :: behind) = head ++ excerpt.numbered ++ tail := by
  have blocks (opening : String) : ∃ head tail, opening ++ String.join ((before ++ excerpt :: behind).map numbered) ++
      "\n" ++ message ++ "\n" = head ++ excerpt.numbered ++ tail := by
    refine ⟨opening ++ String.join (before.map numbered),
      String.join (behind.map numbered) ++ "\n" ++ message ++ "\n", ?_⟩
    simp [String.join_append, String.join_cons, String.append_assoc]
  match before, behind with
  | [], [] => exact absurd rfl several
  | [], next :: behind => exact blocks _
  | [first], behind => exact blocks _
  | first :: second :: before, behind => exact blocks _

theorem mapM_numbered {spans : List Span} {excerpts : List Excerpt} (same : excerpts.map span = spans)
    (drawn : ∀ excerpt ∈ excerpts, excerpt.span.underline = .ok excerpt.lines) :
    (spans.mapM fun span => do
      let lines ← span.underline
      return s!"\non line {span.start.line + 1},\n" ++ lines) = .ok (excerpts.map numbered) := by
  subst same
  induction excerpts with
  | nil => rfl
  | cons excerpt excerpts ih =>
    rw [List.forall_mem_cons] at drawn
    rw [List.map_cons, List.mapM_cons, drawn.1, ih drawn.2]
    rfl

theorem exists_show {spans : List Span} (same : ∀ span ∈ spans, ∃ lines, span.anchored.underline = .ok lines) :
    ∃ excerpts, Show excerpts spans := by
  induction spans with
  | nil => exact ⟨[], rfl, by simp⟩
  | cons span spans ih =>
    rw [List.forall_mem_cons] at same
    obtain ⟨lines, first⟩ := same.1
    obtain ⟨excerpts, shown, drawn⟩ := ih same.2
    exact ⟨⟨span.anchored, lines⟩ :: excerpts, by simp [shown], List.forall_mem_cons.mpr ⟨first, drawn⟩⟩

end Excerpt

/-- What is reported of a mistake, by its excerpts. -/
theorem CompileError.render_eq {error : CompileError} {excerpts : List Excerpt}
    (shown : Excerpt.Show excerpts error.spans) : error.render = .ok (Excerpt.report error.message excerpts) := by
  obtain ⟨same, drawn⟩ := shown
  rw [CompileError.render, ← same]
  match excerpts with
  | [] => rfl
  | [only] =>
    simp only [List.map_singleton, drawn only List.mem_cons_self]
    rfl
  | first :: second :: others =>
    have parts := Excerpt.mapM_numbered rfl drawn
    simp only [List.map_cons] at parts ⊢
    rw [parts]
    rfl

end RecordLayout
