import RecordLayout.Proofs.CommandLine.Arguments
import RecordLayout.Proofs.Schema.Lookup
import RecordLayout.Proofs.Span.Renamed

/-! Answers. What is reported of a text is settled by what compiling it comes to, and by which of the flags are there.
Where the text is read from only gives it a name, so the answer is made before the name is known. -/

namespace RecordLayout.CommandLine

open Located
open Request (ofArgs)

/-! Flags. -/

/-- The argument says what to show. -/
def IsFlag (arg : String) : Prop :=
  AsksListing arg ∨ AsksOutline arg

instance (arg : String) : Decidable (IsFlag arg) :=
  inferInstanceAs (Decidable (_ ∨ _))

/-- The options with what is asked for by some arguments as well. -/
def Options.asking (options : Options) (args : List String) : Options :=
  { options with
    listing := options.listing || args.any (AsksListing ·)
    outline := options.outline || args.any (AsksOutline ·) }

section

variable {options : Options} {arg path : String} {flags front back rest : List String}

theorem AsksListing.not_asksOutline (asks : AsksListing arg) : ¬ AsksOutline arg := by
  rcases asks with rfl | rfl <;> decide

theorem Options.asking_append : (options.asking front).asking back = options.asking (front ++ back) := by
  simp [asking, Bool.or_assoc]

/-- Flags are read one after another, and only ask for more. -/
theorem ofArgs_flags (are : ∀ arg ∈ flags, IsFlag arg) :
    ofArgs options (flags ++ rest) = ofArgs (options.asking flags) rest := by
  induction flags generalizing options with
  | nil => simp [Options.asking]
  | cons flag flags ih =>
    rw [List.forall_mem_cons] at are
    have split : options.asking (flag :: flags) = (options.asking [flag]).asking flags :=
      (@Options.asking_append options [flag] flags).symm
    rw [List.cons_append, split]
    rcases are.1 with asks | asks
    · have step : options.asking [flag] = { options with listing := true } := by
        simp [Options.asking, asks, asks.not_asksOutline]
      rw [(Options.Step.listing asks).ofArgs_cons, step, ih are.2]
    · have other : ¬ AsksListing flag := fun listing => listing.not_asksOutline asks
      have step : options.asking [flag] = { options with outline := true } := by
        simp [Options.asking, asks, other]
      rw [(Options.Step.outline asks).ofArgs_cons, step, ih are.2]

/-- Flags around an argument that settles the file. -/
theorem ofArgs_around (before : ∀ arg ∈ front, IsFlag arg) (behind : ∀ arg ∈ back, IsFlag arg)
    {file : Option String} (settles : ∀ options : Options, options.file = none →
      options.Step arg { options with file := file }) :
    ofArgs .initial (front ++ arg :: back) =
      .ok (.compile { Options.initial.asking (front ++ back) with file := file }) := by
  rw [ofArgs_flags before, (settles (Options.initial.asking front) rfl).ofArgs_cons, ← List.append_nil back,
    ofArgs_flags behind, List.append_nil, ← Options.asking_append]
  rfl

end

/-! Answers. -/

/-- What is reported of a source: the tokens and the outline where they are asked for, a summary where neither is, and
what is wrong with the source. -/
structure Report.Answers (report : Report) (listing outline : Prop) [Decidable listing] [Decidable outline]
    (source : Source) : Prop where
  status : report.status = 0 ↔ ∃ schema, compile defaultNesting source = .ok schema
  failure : ∀ error, compile defaultNesting source = .error error → error.render = .ok report.errors
  success : ∀ schema, compile defaultNesting source = .ok schema →
    report.errors = "" ∧ parse defaultNesting source = .ok schema.declarations ∧
      ∃ tokens, tokenize source = .ok tokens ∧
        report.output =
          if listing ∨ outline then
            (if listing then Token.listing tokens else "") ++ (if outline then schema.outlineText else "")
          else
            source.id ++ ": ok, " ++ toString (schema.declarations.countP (·.struct?.isSome)) ++ " struct(s), " ++
              toString (schema.declarations.countP (·.bitfield?.isSome)) ++ " bitfield(s)\n"

/-- A report with the name of the source left open. -/
structure Form where
  status : Nat
  output : Template
  errors : Template

def Form.fill (name : String) (form : Form) : Report :=
  ⟨form.status, form.output.fill name, form.errors.fill name⟩

/-- The tokens, if they are asked for and there are any. -/
def listed (options : Options) (source : Source) : String :=
  match tokenize source with
  | .ok tokens => if options.listing then Token.listing tokens else ""
  | .error _ => ""

section

variable {options : Options} {source : Source} {error : CompileError} {schema : Schema}

theorem compile_of_tokenize_error (unscanned : tokenize source = .error error) :
    compile defaultNesting source = .error error := by
  rw [compile, parse, unscanned]
  rfl

theorem answer_of_error (refused : compile defaultNesting source = .error error) :
    answer options source = .mistake (listed options source) error := by
  obtain ⟨listing, outline, file⟩ := options
  rw [answer, listed]
  cases scanned : tokenize source with
  | error cause =>
    rw [compile_of_tokenize_error scanned, Except.error.injEq] at refused
    cases listing with
    | false => rw [compile_of_tokenize_error scanned, refused]; rfl
    | true => rw [← refused]; rfl
  | ok tokens =>
    rw [refused]
    cases listing <;> rfl

theorem answer_of_ok (accepted : compile defaultNesting source = .ok schema) :
    answer options source = .success (
      if options.outline then listed options source ++ schema.outlineText
      else if options.listing then listed options source
      else summary source schema) := by
  obtain ⟨listing, outline, file⟩ := options
  obtain ⟨declared, parsed, _⟩ := Outcome.bind_eq_ok.mp accepted
  obtain ⟨tokens, scanned, _⟩ := Outcome.bind_eq_ok.mp parsed
  rw [answer, listed, scanned, accepted]
  cases listing <;> cases outline <;> rfl

theorem summary_eq (source : Source) (schema : Schema) :
    summary source schema =
      source.id ++ ": ok, " ++ toString (schema.declarations.countP (·.struct?.isSome)) ++ " struct(s), " ++
        toString (schema.declarations.countP (·.bitfield?.isSome)) ++ " bitfield(s)\n" := by
  rw [summary, Schema.structs, Schema.bitfields, List.length_filterMap_eq_countP, List.length_filterMap_eq_countP]
  rfl

/-- A mistake is always shown. -/
theorem exists_mistake_eq (refused : compile defaultNesting source = .error error) (output : String) :
    ∃ report, error.render = .ok report ∧ Report.mistake output error = ⟨1, output, report⟩ := by
  obtain ⟨report, shown⟩ := error.exists_render fun span member =>
    (valid_of_compile_error refused span member).same_source
  exact ⟨report, shown, by rw [Report.mistake, shown]⟩

theorem answers_answer (options : Options) (source : Source) :
    (answer options source).Answers options.listing options.outline source := by
  cases compiled : compile defaultNesting source with
  | error error =>
    obtain ⟨report, shown, mistake⟩ := exists_mistake_eq compiled (listed options source)
    rw [answer_of_error compiled, mistake]
    refine ⟨?_, ?_, ?_⟩
    · simp [compiled]
    · intro other refused
      rw [compiled, Except.error.injEq] at refused
      exact refused ▸ shown
    · intro schema accepted
      rw [compiled] at accepted
      cases accepted
  | ok schema =>
    rw [answer_of_ok compiled]
    refine ⟨?_, ?_, ?_⟩
    · simp [compiled, Report.success]
    · intro error refused
      rw [compiled] at refused
      cases refused
    · intro other accepted
      rw [compiled, Except.ok.injEq] at accepted
      subst accepted
      obtain ⟨declared, parsed, checked⟩ := Outcome.bind_eq_ok.mp compiled
      obtain ⟨tokens, scanned, _⟩ := Outcome.bind_eq_ok.mp parsed
      rw [← Schema.unchanged_of_ofDeclarations checked] at parsed
      refine ⟨rfl, parsed, tokens, scanned, ?_⟩
      rw [← summary_eq, Report.success, listed, scanned]
      obtain ⟨listing, outline, file⟩ := options
      cases listing <;> cases outline <;> simp

theorem listed_named (name : String) : listed options (source.named name) = listed options source := by
  rw [listed, listed, tokenize_named]
  cases tokenize source with
  | error error => rfl
  | ok tokens => exact congrArg (if options.listing then · else "") (Token.listing_move tokens)

theorem summary_named (name : String) (schema : Schema) :
    summary (source.named name) (move (.renamed name) schema) =
      name ++ (": ok, " ++ toString schema.structs.length ++ " struct(s), " ++ toString schema.bitfields.length ++
        " bitfield(s)\n") := by
  have counted {α : Type} [Located α] (values : List α) : (move (.renamed name) values).length = values.length :=
    List.length_map ..
  rw [summary, schema.structs_move, schema.bitfields_move, counted, counted]
  simp only [String.append_assoc]
  rfl

/-- Whatever the source is called, the answer is the same but for its name. -/
theorem exists_form (options : Options) (source : Source) :
    ∃ form : Form, ∀ name, answer options (source.named name) = form.fill name := by
  cases compiled : compile defaultNesting source with
  | error error =>
    obtain ⟨template, shown⟩ := CompileError.exists_template fun span member =>
      (valid_of_compile_error compiled span member).same_source
    refine ⟨⟨1, [some (listed options source)], template⟩, fun name => ?_⟩
    have refused : compile defaultNesting (source.named name) = .error (move (.renamed name) error) := by
      rw [compile_named, compiled]
      rfl
    rw [answer_of_error refused, Report.mistake, shown, listed_named]
    simp [Form.fill]
  | ok schema =>
    have accepted (name : String) :
        compile defaultNesting (source.named name) = .ok (move (.renamed name) schema) := by
      rw [compile_named, compiled]
      rfl
    refine ⟨⟨0,
      if options.outline then [some (listed options source ++ schema.outlineText)]
      else if options.listing then [some (listed options source)]
      else [none, some (": ok, " ++ toString schema.structs.length ++ " struct(s), " ++
        toString schema.bitfields.length ++ " bitfield(s)\n")], []⟩, fun name => ?_⟩
    rw [answer_of_ok (accepted name), listed_named, Schema.outlineText_move, summary_named]
    obtain ⟨listing, outline, file⟩ := options
    cases listing <;> cases outline <;> simp [Form.fill, Report.success]

end

/-! The program. -/

theorem decodeText_toUTF8 (text : String) : decodeText text.toUTF8 = .ok text := by
  have valid : text.toUTF8.IsValidUTF8 := text.isValidUTF8
  rw [decodeText, String.fromUTF8?, dif_pos valid]
  rfl

/-- A text is answered in one way, whether it is in a file or comes from the standard input, and wherever the flags
stand. Only the name of its source is put in. -/
theorem answers_of_flags (text : String) (listing outline : Bool) :
    ∃ form : Form, (∀ name, (form.fill name).Answers listing outline ⟨name, text⟩) ∧
      ∀ front back, (∀ arg ∈ front ++ back, IsFlag arg) →
        (listing = true ↔ ∃ arg ∈ front ++ back, AsksListing arg) →
        (outline = true ↔ ∃ arg ∈ front ++ back, AsksOutline arg) →
        ∀ {m : Type → Type} [Monad m] [LawfulMonad m] (read : Option String → m (Except ReadFault String)),
          (∀ path, IsPath path → read (some path) = pure (decodeText text.toUTF8) →
            run read (front ++ path :: back) = pure (form.fill path)) ∧
          (read none = pure (decodeText text.toUTF8) →
            run read (front ++ back) = pure (form.fill "<stdin>") ∧
              run read (front ++ "-" :: back) = pure (form.fill "<stdin>")) := by
  -- The file among the options has no part in an answer, so the form for one kind of source serves for all.
  obtain ⟨form, filled⟩ := exists_form ⟨listing, outline, none⟩ ⟨"", text⟩
  refine ⟨form, fun name => ?_, ?_⟩
  · rw [← filled name]
    exact answers_answer ⟨listing, outline, none⟩ ⟨name, text⟩
  intro front back are lists outlines m _ _ read
  obtain ⟨before, behind⟩ := List.forall_mem_append.mp are
  have listed : (front ++ back).any (AsksListing ·) = listing := by
    rw [Bool.eq_iff_iff, lists]
    simp only [List.any_eq_true, decide_eq_true_eq]
  have outlined : (front ++ back).any (AsksOutline ·) = outline := by
    rw [Bool.eq_iff_iff, outlines]
    simp only [List.any_eq_true, decide_eq_true_eq]
  have asked : Options.initial.asking (front ++ back) = ⟨listing, outline, none⟩ := by
    rw [Options.asking, listed, outlined]
    rfl
  have runs {args : List String} {file : Option String}
      (accepted : ofArgs .initial args = .ok (.compile ⟨listing, outline, file⟩))
      (found : read file = pure (decodeText text.toUTF8)) :
      run read args = pure (form.fill (file.getD "<stdin>")) := by
    rw [run_of_ofArgs accepted, found, decodeText_toUTF8, map_pure, finish]
    exact congrArg pure (filled (file.getD "<stdin>"))
  refine ⟨fun path names found => ?_, fun found => ⟨?_, ?_⟩⟩
  · have accepted := @ofArgs_around path front back before behind (some path) fun _ free => .path names free
    rw [asked] at accepted
    exact runs accepted found
  · have accepted := @ofArgs_flags .initial (front ++ back) [] are
    rw [List.append_nil, asked] at accepted
    exact runs accepted found
  · have accepted := @ofArgs_around "-" front back before behind none fun _ _ => .dash rfl
    rw [asked] at accepted
    exact runs accepted found

/-- One text wherever it is read from. -/
def readAnywhere (text : String) : Option String → Id (Except ReadFault String) :=
  fun _ => pure (decodeText text.toUTF8)

theorem answers_of_flags_emptyStruct :
    ∃ form : Form, (form.fill "a").Answers true true ⟨"a", "struct s\x7b\x7d"⟩ ∧
      run (readAnywhere "struct s\x7b\x7d") ["-A", "a", "--lexer"] = form.fill "a" ∧
      run (readAnywhere "struct s\x7b\x7d") ["-A", "--lexer"] = form.fill "<stdin>" ∧
      run (readAnywhere "struct s\x7b\x7d") ["-A", "-", "--lexer"] = form.fill "<stdin>" ∧
      form.fill "a" =
        .success "KEYWORD:struct\nIDENTIFIER:s\nLCURLY\nRCURLY\nEOF\nstruct s BE\n" := by
  obtain ⟨form, answers, runs⟩ := answers_of_flags "struct s\x7b\x7d" true true
  have flags : ∀ arg ∈ ["-A"] ++ ["--lexer"], IsFlag arg := by decide
  obtain ⟨file, standard⟩ := runs ["-A"] ["--lexer"] flags (by decide) (by decide) (readAnywhere "struct s\x7b\x7d")
  have inFile := file "a" (by decide) rfl
  obtain ⟨alone, dash⟩ := standard rfl
  exact ⟨form, answers "a", inFile, alone, dash, inFile.symm.trans (by cbv)⟩

end RecordLayout.CommandLine
