import RecordLayout.Proofs.Joined.Parse
import RecordLayout.Proofs.Span.Underline
import RecordLayout.Proofs.Span.Wording

/-! A source under another name. Its text is read as before, with places that are named otherwise, and in a report of
what is wrong with it nothing else changes than the name. -/

namespace RecordLayout

open Located

/-- The source with another name. -/
def Source.named (source : Source) (name : String) : Source :=
  ⟨name, source.text⟩

/-- The same place of the source with another name. -/
def Position.renamed (name : String) (here : Position) : Position :=
  { here with source := here.source.named name }

variable {name : String} {source : Source}

theorem Position.renamed_step (here : Position) (c : Char) :
    (here.step c).renamed name = (here.renamed name).step c := by
  unfold step renamed
  split <;> rfl

theorem Position.renamed_past (here : Position) (chars : List Char) :
    (here.past chars).renamed name = (here.renamed name).past chars := by
  induction chars generalizing here with
  | nil => rfl
  | cons c chars ih => rw [past_cons, ih, renamed_step, past_cons]

/-! What is read. -/

theorem tokenize_named (source : Source) : tokenize (source.named name) = move (.renamed name) (tokenize source) :=
  @Token.scanFrom_move (.start source) false [] source.text.toList _ Position.renamed_step

theorem parse_named (nesting : Nat) (source : Source) :
    parse nesting (source.named name) = move (.renamed name) (parse nesting source) := by
  rw [parse, parse, tokenize_named]
  cases scanned : tokenize source with
  | error error => rfl
  | ok tokens =>
    obtain ⟨_, _, some, _⟩ := ends_of_tokenize scanned
    exact Declaration.ofTokens_move _ (by simp [some])

theorem compile_named (nesting : Nat) (source : Source) :
    compile nesting (source.named name) = move (.renamed name) (compile nesting source) := by
  rw [compile, compile, parse_named]
  cases parse nesting source with
  | error error => rfl
  | ok declared => exact Schema.ofDeclarations_move declared

/-! What is shown. -/

theorem Position.beforeTrailingBlanks_renamed (here : Position) :
    (here.renamed name).beforeTrailingBlanks = here.beforeTrailingBlanks.renamed name := by
  rw [beforeTrailingBlanks, beforeTrailingBlanks, apply_ite (renamed name), renamed_past]
  rfl

namespace Span

variable {span : Span}

theorem coincides_renamed (same : span.start.source = span.stop.source) :
    (span.move (.renamed name)).start.Coincides (span.move (.renamed name)).stop ↔ span.start.Coincides span.stop :=
  and_congr_right fun _ => iff_of_true (congrArg (Source.named · name) same) same

theorem anchored_renamed (same : span.start.source = span.stop.source) :
    (span.move (.renamed name)).anchored = span.anchored.move (.renamed name) := by
  rw [anchored, anchored, apply_ite (Span.move (.renamed name))]
  simp only [coincides_renamed same]
  congr 1
  exact congrArg empty span.start.beforeTrailingBlanks_renamed

theorem underline_renamed (same : span.start.source = span.stop.source) :
    (span.move (.renamed name)).underline = span.underline := by
  by_cases apart : span.start.index = span.stop.index
  · have there : span.start.Coincides span.stop := ⟨apart, same⟩
    rw [underline, if_pos ((coincides_renamed same).mpr there), underline, if_pos there]
    rfl
  · have renamed : (span.move (.renamed name)).start.source = (span.move (.renamed name)).stop.source :=
      congrArg (Source.named · name) same
    rw [underline_of_apart same apart, underline_of_apart renamed apart]
    rfl

end Span

/-! Texts with a name left open. -/

/-- A text in pieces, with a name left open between them. -/
abbrev Template := List (Option String)

namespace Template

/-- The text with the name put in wherever it is left open. -/
def fill (name : String) (template : Template) : String :=
  String.join (template.map (·.getD name))

@[simp] theorem fill_nil : fill name [] = "" := rfl

@[simp] theorem fill_text (text : String) (rest : Template) : fill name (some text :: rest) = text ++ fill name rest :=
  String.join_cons

@[simp] theorem fill_open (rest : Template) : fill name (none :: rest) = name ++ fill name rest :=
  String.join_cons

end Template

namespace Excerpt

/-- The report with the name of the source left open. -/
def template (message : String) : List Excerpt → Template
  | [] => [some (message ++ "\n")]
  | [only] =>
    [some "File ", none, some (s!", on line {only.span.start.line + 1}\n" ++ only.lines ++ "\n" ++ message ++ "\n")]
  | several => [some "File ", none, some (",\n" ++ String.join (several.map numbered) ++ "\n" ++ message ++ "\n")]

def renamed (name : String) (excerpt : Excerpt) : Excerpt :=
  { excerpt with span := excerpt.span.move (.renamed name) }

theorem map_numbered_renamed (excerpts : List Excerpt) :
    (excerpts.map (renamed name)).map numbered = excerpts.map numbered :=
  List.map_map

theorem report_renamed (message : String) (excerpts : List Excerpt) :
    report message (excerpts.map (renamed name)) = (template message excerpts).fill name := by
  match excerpts with
  | [] => simp [report, template]
  | [only] =>
    simp only [template, Template.fill_text, Template.fill_open, Template.fill_nil, String.append_empty,
      ← String.append_assoc]
    rfl
  | first :: second :: others =>
    simp only [template, ← @map_numbered_renamed name (first :: second :: others), Template.fill_text,
      Template.fill_open, Template.fill_nil, String.append_empty, ← String.append_assoc]
    rfl

end Excerpt

theorem Excerpt.Show.renamed {excerpts : List Excerpt} {spans : List Span} (shown : Show excerpts spans)
    (same : ∀ span ∈ spans, span.start.source = span.stop.source) (name : String) :
    Show (excerpts.map (renamed name)) (spans.map (Span.move (.renamed name))) := by
  obtain ⟨places, drawn⟩ := shown
  constructor
  · have moved :
        (excerpts.map (Excerpt.renamed name)).map span = (excerpts.map span).map (Span.move (.renamed name)) := by
      rw [List.map_map, List.map_map]
      rfl
    rw [moved, places, List.map_map, List.map_map]
    exact List.map_congr_left fun span member => (Span.anchored_renamed (same span member)).symm
  · intro excerpt member
    obtain ⟨excerpt, present, rfl⟩ := List.mem_map.mp member
    obtain ⟨span, known, place⟩ := List.mem_map.mp (places ▸ List.mem_map_of_mem present)
    have inside : excerpt.span.start.source = excerpt.span.stop.source :=
      place ▸ Span.same_source_anchored (same span known)
    exact (Span.underline_renamed inside).trans (drawn excerpt present)

/-- Under every name of its source a mistake is reported in the same words. -/
theorem CompileError.exists_template {error : CompileError}
    (same : ∀ span ∈ error.spans, span.start.source = span.stop.source) :
    ∃ template : Template, ∀ name, (move (.renamed name) error).render = .ok (template.fill name) := by
  obtain ⟨excerpts, shown⟩ := Excerpt.exists_show_of_same same
  refine ⟨Excerpt.template error.message excerpts, fun name => ?_⟩
  have renamed : Excerpt.Show (excerpts.map (Excerpt.renamed name)) (move (.renamed name) error).spans := by
    have moved : (move (.renamed name) error).spans = error.spans.map (Span.move (.renamed name)) := spans_move _ error
    exact moved ▸ shown.renamed same name
  rw [CompileError.render_eq renamed, error.message_move, Excerpt.report_renamed]

end RecordLayout
