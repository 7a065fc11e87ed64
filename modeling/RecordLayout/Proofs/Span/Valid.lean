import RecordLayout.Compile
import RecordLayout.Diagnostic.Excerpt
import RecordLayout.Proofs.Pairing.Cut
import RecordLayout.Proofs.Span.Parsers
import RecordLayout.Proofs.Span.Report
import RecordLayout.Proofs.Span.Schema
import RecordLayout.Proofs.Token.Tiling

/-! Every span that a source gives rise to is a piece of that source: in what is parsed, and in what is reported,
by whichever stage. -/

namespace RecordLayout

open Located Position

namespace Span

/-- The span is a piece of the source. Both of its ends are reached by reading the source. -/
structure Valid (source : Source) (span : Span) : Prop where
  start : Reached source span.start
  stop : Reached source span.stop
  ordered : span.start.index ≤ span.stop.index
  inside : span.stop.index ≤ source.text.utf8ByteSize

variable {source : Source} {span : Span}

theorem valid_past {front middle back : List Char} (whole : source.text.toList = front ++ (middle ++ back)) :
    Valid source ⟨(Position.start source).past front, ((Position.start source).past front).past middle⟩ := by
  have begins : Reached source ((Position.start source).past front) := reached_iff.mpr ⟨front, ⟨_, whole.symm⟩, rfl⟩
  have ends := reached_past begins whole
  have later : ((Position.start source).past front).index ≤ (((Position.start source).past front).past middle).index := by
    rw [index_past _ middle]
    exact Nat.le_add_right _ _
  exact ⟨begins, ends, later, ends.index_le⟩

theorem Valid.through {first last : Span} (left : first.Valid source) (right : last.Valid source)
    (later : first.start.index ≤ last.start.index) : (first.through last).Valid source :=
  ⟨left.start, right.stop, later.trans right.ordered, right.inside⟩

/-- What was read up to the start of the span is the front of what was read up to its end. -/
theorem Valid.exists_pieces (valid : span.Valid source) : ∃ front middle back,
    source.text.toList = front ++ (middle ++ back) ∧ span.start = (Position.start source).past front ∧
      span.stop = ((Position.start source).past front).past middle := by
  obtain ⟨front, middle, back, whole, start, stop⟩ := valid.start.exists_between valid.stop valid.ordered
  exact ⟨front, middle, back, whole, start, start ▸ stop⟩

theorem Valid.exists_text (valid : span.Valid source) : ∃ text, span.text? = some text := by
  obtain ⟨first, last⟩ := span
  obtain ⟨front, middle, back, whole, rfl, rfl⟩ := valid.exists_pieces
  exact ⟨_, text?_past whole⟩

theorem Valid.same_source (valid : span.Valid source) : span.start.source = span.stop.source :=
  valid.start.source_eq.trans valid.stop.source_eq.symm

end Span

/-! Reports. -/

theorem Span.exists_underline {span : Span} (same : span.start.source = span.stop.source) :
    ∃ lines, span.underline = .ok lines := by
  have compared : span.start.lineStart.compare span.stop =
      .ok (Ord.compare span.start.lineStart.index span.stop.index) :=
    if_pos same
  unfold underline
  split
  · exact ⟨_, rfl⟩
  · simp only [compared]
    split <;> exact ⟨_, rfl⟩

theorem Span.same_source_anchored {span : Span} (same : span.start.source = span.stop.source) :
    span.anchored.start.source = span.anchored.stop.source := by
  unfold anchored
  split
  · rfl
  · exact same

/-- What is in one source wherever it is can be shown. -/
theorem Excerpt.exists_show_of_same {spans : List Span} (same : ∀ span ∈ spans, span.start.source = span.stop.source) :
    ∃ excerpts, Show excerpts spans :=
  exists_show fun span member => Span.exists_underline (Span.same_source_anchored (same span member))

/-- A report is made of every mistake that is in one source wherever it is. -/
theorem CompileError.exists_render {error : CompileError}
    (same : ∀ span ∈ error.spans, span.start.source = span.stop.source) : ∃ report, error.render = .ok report := by
  obtain ⟨excerpts, shown⟩ := Excerpt.exists_show_of_same same
  exact ⟨_, render_eq shown⟩

/-! Stages. -/

section

variable {source : Source} {front chars : List Char}

namespace Token

theorem Covers.valid {tokens : List Token} (covers : Covers ((Position.start source).past front) chars tokens)
    (whole : source.text.toList = front ++ chars) : ∀ token ∈ tokens, token.span.Valid source := by
  generalize reached : (Position.start source).past front = here at covers
  induction covers generalizing front with
  | @finish here gap =>
    subst reached
    have valid := @Span.valid_past source (front ++ gap) [] [] (by simpa using whole)
    simpa [past_append, Span.empty] using valid
  | @token _ gap lexeme rest _ _ _ _ _ _ _ ih =>
    subst reached
    have valid := @Span.valid_past source (front ++ gap) lexeme rest (by simpa using whole)
    rw [past_append] at valid
    refine List.forall_mem_cons.mpr ⟨valid, ?_⟩
    apply @ih (front ++ gap ++ lexeme)
    · simp [whole]
    · simp [past_append]

/-- What cannot be scanned is reported where it is. -/
theorem valid_of_scanFrom {here : Position} {touching : Bool} {found : List Token} {error : CompileError}
    (failed : scanFrom here touching found chars = .error error)
    (reached : ∃ front, here = (Position.start source).past front ∧ source.text.toList = front ++ chars) :
    ∀ span ∈ error.spans, span.Valid source := by
  fun_induction scanFrom here touching found chars with
  | case1 => cases failed
  | case2 here touching found c rest _ ih =>
    obtain ⟨front, rfl, whole⟩ := reached
    exact ih failed ⟨front ++ [c], (past_append _ front [c]).symm, by simp [whole]⟩
  | case3 here touching found c rest kind extent _ covered stop ih =>
    obtain ⟨front, rfl, whole⟩ := reached
    have parts : covered ++ rest.drop extent = c :: rest := by simp [covered]
    exact ih failed ⟨front ++ covered, (past_append ..).symm, by rw [List.append_assoc, parts, whole]⟩
  | case4 here touching found c rest cause extent =>
    obtain ⟨front, rfl, whole⟩ := reached
    cases failed
    have valid := @Span.valid_past source front (c :: rest.take extent) (rest.drop extent) (by simp [whole])
    cases cause <;> simpa [ScanFault.toError, CompileError.spans] using valid

end Token

variable {tokens : List Token}

theorem valid_of_spanned {span : Span} (covers : Token.Covers (.start source) source.text.toList tokens)
    (spanned : Spanned tokens span) : span.Valid source := by
  have valid := @Token.Covers.valid source [] _ _ covers rfl
  have ordered := covers.ordered
  cases spanned with
  | @mk before first more last later =>
    have start := valid first (by simp)
    have stop := valid last (by simp [later])
    refine start.through stop ?_
    rcases List.mem_cons.mp later with rfl | later
    · exact Nat.le_refl _
    · have before := (List.pairwise_append.mp ordered).2.1
      exact start.ordered.trans ((List.pairwise_cons.mp before).1 last later)

theorem valid_of_enclose {known : List Span} (scanned : tokenize source = .ok tokens)
    (enclose : Enclose [] (Token.meaningful tokens) known) : ∀ span ∈ known, span.Valid source := by
  have covers := covers_of_tokenize scanned
  exact fun span member => valid_of_spanned covers ((enclose.spanned member).mono (Token.meaningful_sublist tokens))

theorem valid_endSpan (scanned : tokenize source = .ok tokens) : (Token.endSpan tokens).Valid source := by
  obtain ⟨front, last, rfl, ends, inside⟩ := ends_of_tokenize scanned
  rw [Token.endSpan_append_end inside ends]
  exact valid_of_spanned (covers_of_tokenize scanned) (spanned_token (by simp))

theorem Failure.spans_toError (failure : Failure) (atEnd : Span) :
    (failure.toError atEnd).spans ⊆ atEnd :: spans failure := by
  rcases failure with wanted | ⟨_ | span, cause⟩
  · simp [Failure.toError, CompileError.spans]
  · simp [Failure.toError, CompileError.spans]
  · simp [Failure.toError, CompileError.spans, spans]

variable {nesting : Nat}

theorem valid_of_parse_ok {declared : List Declaration} (accepted : parse nesting source = .ok declared) :
    ∀ span ∈ spans declared, span.Valid source := by
  obtain ⟨tokens, scanned, there⟩ := parse_eq_ok.mp accepted
  exact valid_of_enclose scanned (Grammar.places_description nesting _ _ there)

theorem valid_of_parse_error {error : CompileError} (refused : parse nesting source = .error error) :
    ∀ span ∈ error.spans, span.Valid source := by
  rcases Outcome.bind_eq_error.mp refused with unscanned | ⟨tokens, scanned, unread⟩
  · exact Token.valid_of_scanFrom unscanned ⟨[], rfl, rfl⟩
  · rw [Declaration.ofTokens_eq] at unread
    split at unread
    next => cases unread
    next failure failed =>
      cases unread
      have enclose : Enclose [] (Token.meaningful tokens) (spans failure) :=
        ((@Parser.declarations_tracks id [] nesting).blames failed).places
      intro span member
      rcases List.mem_cons.mp (failure.spans_toError _ member) with rfl | member
      · exact valid_endSpan scanned
      · exact valid_of_enclose scanned enclose span member

end

theorem valid_of_compile_error {nesting : Nat} {source : Source} {error : CompileError}
    (refused : compile nesting source = .error error) : ∀ span ∈ error.spans, span.Valid source := by
  rcases Outcome.bind_eq_error.mp refused with unread | ⟨declared, accepted, failed⟩
  · exact valid_of_parse_error unread
  · exact fun span member => valid_of_parse_ok accepted span (Schema.spans_of_ofDeclarations_error failed member)

/-- What is reported and what is parsed is made of pieces of the source, so that all of it can be shown. -/
theorem valid_of_source (nesting : Nat) (source : Source) :
    (∀ error, compile nesting source = .error error →
      (∀ span ∈ error.spans, span.Valid source ∧ ∃ text, span.text? = some text) ∧
        ∃ report, error.render = .ok report) ∧
    ∀ declared, parse nesting source = .ok declared →
      ∀ span ∈ spans declared, span.Valid source ∧ ∃ text, span.text? = some text := by
  constructor
  · intro error refused
    have valid := valid_of_compile_error refused
    exact ⟨fun span member => ⟨valid span member, (valid span member).exists_text⟩,
      error.exists_render fun span member => (valid span member).same_source⟩
  · intro declared accepted span member
    have valid := valid_of_parse_ok accepted span member
    exact ⟨valid, valid.exists_text⟩

/-- Two structs of one name, the first of which has a list as long as a difference says. -/
def doubledSource : Source :=
  ⟨"", "struct s\x7buint8[a - 1]x,\x7d\nstruct s\x7b\x7d"⟩

def doubledSpan (start stop : Nat) : Span :=
  ⟨⟨start, 0, start, doubledSource⟩, ⟨stop, 0, stop, doubledSource⟩⟩

def doubledName : Span :=
  ⟨⟨32, 1, 7, doubledSource⟩, ⟨33, 1, 8, doubledSource⟩⟩

def doubledLength : Expr :=
  .binary (.ref ⟨["a"], doubledSpan 15 16⟩) .sub (.int 1 (doubledSpan 19 20))

def doubledStructs : List Declaration :=
  [.struct ⟨⟨"s", doubledSpan 7 8⟩, .fixed .big, [.member ⟨⟨"x", doubledSpan 21 22⟩,
      .plain (.data ⟨.unsigned .w8, none, doubledSpan 9 14⟩), .fixed .big, some (.count doubledLength)⟩]⟩,
    .struct ⟨⟨"s", doubledName⟩, .fixed .big, []⟩]

theorem valid_of_doubledSource :
    compile 16 doubledSource = .error (.duplicateDeclaration [doubledSpan 7 8, doubledName] "s") ∧
    (doubledSpan 7 8).Valid doubledSource ∧ doubledName.Valid doubledSource ∧
    (∃ report, (CompileError.duplicateDeclaration [doubledSpan 7 8, doubledName] "s").render = .ok report) ∧
    parse 16 doubledSource = .ok doubledStructs ∧ doubledLength.span = doubledSpan 15 20 ∧
    (doubledSpan 15 20).Valid doubledSource := by
  have refused : compile 16 doubledSource = .error (.duplicateDeclaration [doubledSpan 7 8, doubledName] "s") := by
    cbv
  have accepted : parse 16 doubledSource = .ok doubledStructs := by cbv
  obtain ⟨failing, passing⟩ := valid_of_source 16 doubledSource
  obtain ⟨reported, report⟩ := failing _ refused
  have length : doubledSpan 15 20 ∈ spans doubledStructs := by
    simp [doubledStructs, doubledLength, spans, Expr.spans, Expr.span, Span.through, doubledSpan]
  exact ⟨refused, (reported _ (by simp [CompileError.spans])).1, (reported _ (by simp [CompileError.spans])).1, report,
    accepted, rfl, (passing _ accepted _ length).1⟩

end RecordLayout
