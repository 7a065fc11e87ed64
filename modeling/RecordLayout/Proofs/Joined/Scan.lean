import RecordLayout.Proofs.Position
import RecordLayout.Proofs.Span.Located
import RecordLayout.Proofs.Token.Ends
import RecordLayout.Proofs.Token.Lexeme

/-! The tokens of two texts with a line break between them. The scan depends on where it is only through the spans
that it makes, and behind a line break it does not depend on what it has found. So it goes on with the second text as
if that stood alone. -/

namespace RecordLayout

open Located

/-- Both texts, with a line break between them. -/
def Source.joined (first second : Source) : Source :=
  ⟨first.id, first.text ++ "\n" ++ second.text⟩

/-- The place in a source that has so many bytes, which are so many lines, before the text of the place. -/
def Position.shift (source : Source) (bytes lines : Nat) (here : Position) : Position :=
  ⟨here.index + bytes, here.line + lines, here.column, source⟩

namespace Source

variable (first second : Source)

/-- Where the places of the first text are in both. -/
def inFirst : Position → Position :=
  Position.shift (first.joined second) 0 0

/-- Where the places of the second text are in both. -/
def inSecond : Position → Position :=
  Position.shift (first.joined second) (first.text.utf8ByteSize + 1) (first.text.toList.count '\n' + 1)

theorem toList_joined : (first.joined second).text.toList = first.text.toList ++ '\n' :: second.text.toList := by
  simp [joined]

end Source

namespace Position

variable {source : Source} {bytes lines : Nat}

theorem shift_step (here : Position) (c : Char) :
    (here.step c).shift source bytes lines = (here.shift source bytes lines).step c := by
  unfold step shift
  split <;> simp [Nat.add_right_comm]

/-- The second text starts where the first one and a line break have been read. -/
theorem start_inSecond (first second : Source) :
    first.inSecond second (start second) = ((start (first.joined second)).past first.text.toList).step '\n' := by
  generalize stop : (start (first.joined second)).past first.text.toList = here
  have index : here.index = first.text.utf8ByteSize := by
    rw [← stop, index_start_past, Text.utf8Length_toList]
  have line : here.line = first.text.toList.count '\n' := by
    rw [← stop, line_past]
    exact Nat.zero_add _
  have source : here.source = first.joined second := stop ▸ source_past ..
  have newline : here.step '\n' = ⟨here.index + 1, here.line + 1, 0, here.source⟩ := rfl
  rw [newline, index, line, source]
  simp [Source.inSecond, shift, start]

end Position

namespace Token

variable {here : Position} {touching : Bool} {found tokens : List Token} {c : Char} {chars rest : List Char}

/-! Scans from elsewhere, after other tokens, and over more than one text. -/

theorem ScanFault.move_toError (place : Position → Position) (fault : ScanFault) (span : Span) :
    move place (fault.toError span) = fault.toError (span.move place) := by
  cases fault <;> rfl

/-- Where reading takes places along, a scan from another place makes the same tokens elsewhere. -/
theorem scanFrom_move {place : Position → Position} (steps : ∀ here c, place (here.step c) = (place here).step c) :
    scanFrom (place here) touching (move place found) chars = move place (scanFrom here touching found chars) := by
  have reads (here : Position) (chars : List Char) : place (here.past chars) = (place here).past chars := by
    induction chars generalizing here with
    | nil => rfl
    | cons c chars ih => rw [Position.past_cons, ih, steps, Position.past_cons]
  fun_induction scanFrom here touching found chars with
  | case1 here touching found =>
    rw [scanFrom]
    simp [move, Span.move, Span.empty]
  | case2 here touching found c rest shape ih => rw [scanFrom_space shape, ← steps, ih]
  | case3 here touching found c rest kind extent shape covered stop ih =>
    rw [scanFrom_token shape, ← reads]
    exact ih
  | case4 here touching found c rest cause extent shape =>
    rw [scanFrom_fault shape, ← reads]
    have moved := cause.move_toError place ⟨here, here.past (c :: rest.take extent)⟩
    exact congrArg Except.error moved.symm

/-- What was found before only stands before what is found. -/
theorem scanFrom_append (before : List Token) :
    scanFrom here touching (found ++ before) chars = (scanFrom here touching found chars).map (before.reverse ++ ·) := by
  fun_induction scanFrom here touching found chars with
  | case1 here touching found =>
    rw [scanFrom]
    simp [Except.map]
  | case2 here touching found c rest shape ih => rw [scanFrom_space shape, ih]
  | case3 here touching found c rest kind extent shape covered stop ih =>
    rw [scanFrom_token shape]
    exact ih
  | case4 here touching found c rest cause extent shape =>
    rw [scanFrom_fault shape]
    rfl

/-- A scan that comes to its end goes on behind a line break. -/
theorem scanFrom_line {last : Token} (scanned : scanFrom here touching found chars = .ok (tokens ++ [last]))
    (more : List Char) :
    scanFrom here touching found (chars ++ '\n' :: more) =
      scanFrom ((here.past chars).step '\n') false tokens.reverse more := by
  fun_induction scanFrom here touching found chars with
  | case1 here touching found =>
    rw [List.reverse_cons, Except.ok.injEq] at scanned
    have same : tokens.reverse = found := by
      rw [← (List.append_inj' scanned rfl).1, List.reverse_reverse]
    rw [same]
    exact scanFrom_space (front_of_isSpace rfl)
  | case2 here touching found c rest shape ih =>
    rw [List.cons_append, scanFrom_space (front_of_isSpace (isSpace_of_front shape)), ih scanned]
    rfl
  | case3 here touching found c rest kind extent shape covered stop ih =>
    have again := front_breaksOff shape (@BreaksOff.append_line _ more)
    have fits := front_extent_le shape
    rw [← List.append_assoc, List.take_append_drop] at again
    rw [List.cons_append, scanFrom_token again, List.take_append_of_le_length fits, List.drop_append_of_le_length fits,
      ih scanned, ← Position.past_append]
    simp [covered]
  | case4 => cases scanned

end Token

/-- The tokens of both texts are those of the first one up to its end, and then those of the second. -/
theorem tokenize_joined {first second : Source} {front : List Token} {last : Token}
    (scanned : tokenize first = .ok (front ++ [last])) :
    tokenize (first.joined second) =
      (move (first.inSecond second) (tokenize second)).map (move (first.inFirst second) front ++ ·) := by
  have firstAlone : Token.scanFrom (.start (first.joined second)) false [] first.text.toList =
      .ok (move (first.inFirst second) front ++ [move (first.inFirst second) last]) := by
    have moved := @Token.scanFrom_move (.start first) false [] first.text.toList _
      (@Position.shift_step (first.joined second) 0 0)
    have alone : Token.scanFrom (.start first) false [] first.text.toList = .ok (front ++ [last]) := scanned
    rw [alone] at moved
    exact moved.trans (congrArg Except.ok List.map_append)
  have secondAlone : Token.scanFrom (first.inSecond second (.start second)) false [] second.text.toList =
      move (first.inSecond second) (tokenize second) :=
    @Token.scanFrom_move (.start second) false [] second.text.toList _ Position.shift_step
  rw [tokenize, Source.toList_joined, Token.scanFrom_line firstAlone, ← Position.start_inSecond,
    ← List.nil_append (move _ front).reverse, Token.scanFrom_append, secondAlone, List.reverse_reverse]

namespace Located

variable {α : Type} [Located α] {place : Position → Position} {part : Except CompileError (List α)} {front : List α}

theorem move_append_eq_ok {all : List α} :
    (move place part).map (front ++ ·) = .ok all ↔ ∃ more, part = .ok more ∧ all = front ++ move place more := by
  cases part <;> simp [move, Except.map, eq_comm]

theorem move_append_eq_error {error : CompileError} :
    (move place part).map (front ++ ·) = .error error ↔ ∃ cause, part = .error cause ∧ error = move place cause := by
  cases part <;> simp [move, Except.map, eq_comm]

end Located

/-- Both texts have the tokens of the first one without its end, and then those of the second one, which is refused
as it is alone. -/
theorem joined_of_tokenize {first : Source} {tokens : List Token} (scanned : tokenize first = .ok tokens)
    (second : Source) :
    (tokens.getLast?.map Token.kind = some .endOfInput ∧ ∀ token ∈ tokens.dropLast, token.kind ≠ .endOfInput) ∧
    (∀ all, tokenize (first.joined second) = .ok all ↔
      ∃ more, tokenize second = .ok more ∧
        all = move (first.inFirst second) tokens.dropLast ++ move (first.inSecond second) more) ∧
    ∀ error, tokenize (first.joined second) = .error error ↔
      ∃ cause, tokenize second = .error cause ∧ error = move (first.inSecond second) cause := by
  obtain ⟨front, last, rfl, ends, inside⟩ := ends_of_tokenize scanned
  rw [List.getLast?_concat, List.dropLast_concat, tokenize_joined scanned]
  exact ⟨⟨congrArg some ends, inside⟩, fun _ => move_append_eq_ok, fun _ => move_append_eq_error⟩

/-- A comment, and a name that its text ends with. -/
def namedSource : Source :=
  ⟨"", "// é\nx"⟩

/-- A number that would follow a minus if it touched a name. -/
def negativeSource : Source :=
  ⟨"", "-5"⟩

/-- A string that does not end. -/
def openSource : Source :=
  ⟨"", "\t\"-"⟩

theorem joined_of_tokenize_namedSource :
    let both := namedSource.joined negativeSource
    let other := namedSource.joined openSource
    tokenize both = .ok
      [⟨.comment, some " é", ⟨⟨0, 0, 0, both⟩, ⟨5, 0, 4, both⟩⟩⟩,
       ⟨.identifier, some "x", ⟨⟨6, 1, 0, both⟩, ⟨7, 1, 1, both⟩⟩⟩,
       ⟨.integer, some "-5", ⟨⟨8, 2, 0, both⟩, ⟨10, 2, 2, both⟩⟩⟩,
       ⟨.endOfInput, none, .empty ⟨10, 2, 2, both⟩⟩] ∧
    tokenize other = .error (.expectedMore ⟨⟨9, 2, 1, other⟩, ⟨11, 2, 3, other⟩⟩ ["\""]) := by
  have scanned : tokenize namedSource = .ok
      [⟨.comment, some " é", ⟨⟨0, 0, 0, namedSource⟩, ⟨5, 0, 4, namedSource⟩⟩⟩,
       ⟨.identifier, some "x", ⟨⟨6, 1, 0, namedSource⟩, ⟨7, 1, 1, namedSource⟩⟩⟩,
       ⟨.endOfInput, none, .empty ⟨7, 1, 1, namedSource⟩⟩] := by cbv
  have negative : tokenize negativeSource = .ok
      [⟨.integer, some "-5", ⟨⟨0, 0, 0, negativeSource⟩, ⟨2, 0, 2, negativeSource⟩⟩⟩,
       ⟨.endOfInput, none, .empty ⟨2, 0, 2, negativeSource⟩⟩] := by cbv
  have refused : tokenize openSource =
      .error (.expectedMore ⟨⟨1, 0, 1, openSource⟩, ⟨3, 0, 3, openSource⟩⟩ ["\""]) := by cbv
  have behind (second : Source) :
      namedSource.inSecond second = Position.shift (namedSource.joined second) 8 2 := by
    have bytes : namedSource.text.utf8ByteSize = 7 := by cbv
    have lines : namedSource.text.toList.count '\n' = 1 := by cbv
    rw [Source.inSecond, bytes, lines]
  obtain ⟨_, passing, _⟩ := joined_of_tokenize scanned negativeSource
  obtain ⟨_, _, failing⟩ := joined_of_tokenize scanned openSource
  rw [behind] at passing failing
  exact ⟨(passing _).mpr ⟨_, negative, rfl⟩, (failing _).mpr ⟨_, refused, rfl⟩⟩

end RecordLayout
