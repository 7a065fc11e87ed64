import RecordLayout.Proofs.Grammar.Combinators
import RecordLayout.Proofs.Reader.Routine

/-! Routines beside the parsers that they stand for. From a sound reader a routine has an outcome, leaves a sound reader
that this one reaches, also where it fails, and finds what its parser finds ahead of the same place. There is one rule
for each way to build a routine. A loop ends because an item that is there has taken a token. -/

namespace RecordLayout

namespace Routine

variable {routine : Routine α} {next : α → Routine β} {handler : Failure → Routine α} {reader after : Reader}

theorem bind_apply :
    (routine >>= next) reader = (routine reader).bind fun read => ExceptT.bindCont next read.1 read.2 :=
  rfl

theorem bind_of_ok {value : α} (read : routine reader = .some (.ok value, after)) :
    (routine >>= next) reader = next value after := by
  rw [bind_apply, read]
  exact Part.bind_some _ _

theorem bind_of_error {failure : Failure} (failed : routine reader = .some (.error failure, after)) :
    (routine >>= next) reader = .some (.error failure, after) := by
  rw [bind_apply, failed]
  exact Part.bind_some _ _

theorem tryCatch_of_ok {value : α} (read : routine reader = .some (.ok value, after)) :
    tryCatch routine handler reader = .some (.ok value, after) := by
  simp [tryCatch, tryCatchThe, MonadExceptOf.tryCatch, ExceptT.tryCatch, ExceptT.mk, bind, StateT.bind, pure,
    StateT.pure, read]

/-- What is tried next begins where the failure was. -/
theorem tryCatch_of_error {failure : Failure} (failed : routine reader = .some (.error failure, after)) :
    tryCatch routine handler reader = handler failure after := by
  simp [tryCatch, tryCatchThe, MonadExceptOf.tryCatch, ExceptT.tryCatch, ExceptT.mk, bind, StateT.bind, failed]

theorem place_bind {next : Nat → Routine α} : (place >>= next) reader = next reader.place reader :=
  bind_of_ok (rfl : place reader = .some (.ok reader.place, reader))

/-- Back to where a run began that has come this far. -/
theorem rollback_bind {again : Unit → Routine α} (reaches : reader.Reaches after) :
    (rollback reader.place >>= again) after = again () reader := by
  rw [bind_of_ok (rfl : rollback reader.place after = .some (.ok (), { after with place := reader.place })),
    reaches.back]

theorem peek?_apply (sound : reader.Sound) :
    peek? reader = .some (.ok (TokenSource.next? reader.cursor), reader) := by
  obtain ⟨token, there, _⟩ := sound.solid
  have found : current reader = .some (.ok token, reader) := by
    rw [current, there]
    rfl
  rw [peek?, bind_of_ok found, sound.next?_cursor there]
  rfl

theorem onward_mem_turn {item : Routine (Option α)} {found : List α} {read : Except Failure (Option α) × Reader}
    (ended : item reader = .some read) : onward found read ∈ turn item (found, reader) :=
  Part.mem_map _ (Part.eq_some_iff.mp ended)

/-- A turn of a loop, and the turns after it. -/
theorem repeating_eq (item : Routine (Option α)) (found : List α) :
    repeating item found = item >>= fun
      | some value => repeating item (value :: found)
      | none => pure found.reverse := by
  funext reader
  rcases Part.eq_none_or_eq_some (item reader) with endless | ⟨⟨result, after⟩, ended⟩
  · have turns : turn item (found, reader) = .none := by
      change (item reader).map _ = _
      rw [endless, Part.map_none]
    rw [bind_apply, endless, Part.bind_none]
    refine Part.eq_none_iff.mpr fun outcome ends => ?_
    rcases PFun.mem_fix_iff.mp ends with stopped | ⟨_, moved, _⟩
    · exact Part.notMem_none _ (turns ▸ stopped)
    · exact Part.notMem_none _ (turns ▸ moved)
  · cases result with
    | error failure =>
      rw [bind_of_error ended]
      exact Part.eq_some_iff.mpr (PFun.fix_stop (onward_mem_turn ended))
    | ok value =>
      rw [bind_of_ok ended]
      cases value with
      | none => exact Part.eq_some_iff.mpr (PFun.fix_stop (onward_mem_turn ended))
      | some value => exact PFun.fix_fwd_eq (onward_mem_turn ended)

end Routine

/-- A turn of the loop of a parser. -/
theorem Parser.manyFrom_cons {σ : Type} {item : ParserOn σ (Option α)} {token : Token} {bound : List Token}
    {found : List α} :
    manyFrom item (token :: bound) found = item >>= fun
      | some value => manyFrom item bound (value :: found)
      | none => pure found.reverse := by
  funext source
  rw [manyFrom]
  cases result : item source with
  | error failure => rw [bind_of_error result]
  | ok read =>
    obtain ⟨value, rest⟩ := read
    rw [bind_of_ok result]
    cases value <;> rfl

namespace Reader

/-- How a run ends that began at the reader, beside how that of the parser ends. Where the value is `taken`, a token
was. -/
inductive Gives (reader : Reader) (taken : α → Prop) :
    Part (Except Failure α × Reader) → Except Failure (α × Cursor) → Prop where
  | ok {value after} (reaches : reader.Reaches after) (forward : taken value → reader.place < after.place) :
      Gives reader taken (.some (.ok value, after)) (.ok (value, after.cursor))
  | error {failure after} (reaches : reader.Reaches after) :
      Gives reader taken (.some (.error failure, after)) (.error failure)

namespace Gives

variable {reader origin : Reader} {taken : α → Prop} {moved : β → Prop}

theorem exists_outcome {outcome : Part (Except Failure α × Reader)} {expected : Except Failure (α × Cursor)}
    (gives : reader.Gives taken outcome expected) :
    ∃ result after, outcome = .some (result, after) ∧ reader.Reaches after ∧
      (∀ value, result = .ok value → taken value → reader.place < after.place) ∧
      expected = result.map (·, after.cursor) := by
  cases gives with
  | ok reaches forward => exact ⟨_, _, rfl, reaches, fun | _, rfl => forward, rfl⟩
  | error reaches => exact ⟨_, _, rfl, reaches, nofun, rfl⟩

/-- The last part of a run takes what the whole run takes, unless a token has been taken before it. -/
theorem since {outcome : Part (Except Failure α × Reader)} {expected : Except Failure (α × Cursor)}
    {others : α → Prop} (gives : reader.Gives taken outcome expected) (before : origin.Reaches reader)
    (covers : ∀ value, others value → taken value ∨ origin.place < reader.place) :
    origin.Gives others outcome expected := by
  cases gives with
  | @ok value after reaches forward =>
    refine .ok (before.trans reaches) fun moved => ?_
    rcases covers value moved with later | earlier
    · exact Nat.lt_of_le_of_lt before.forward (forward later)
    · exact Nat.lt_of_lt_of_le earlier reaches.forward
  | error reaches => exact .error (before.trans reaches)

theorem bind {routine : Routine α} {parser : ParserOn Cursor α} {next : α → Routine β} {rest : α → ParserOn Cursor β}
    (first : reader.Gives taken (routine reader) (parser reader.cursor)) (before : origin.Reaches reader)
    (continued : ∀ value after, reader.Reaches after → (taken value → reader.place < after.place) →
      origin.Gives moved (next value after) (rest value after.cursor)) :
    origin.Gives moved ((routine >>= next) reader) ((parser >>= rest) reader.cursor) := by
  generalize ended : routine reader = outcome at first
  generalize read : parser reader.cursor = expected at first
  cases first with
  | @ok value after reaches forward =>
    rw [Routine.bind_of_ok ended, Parser.bind_of_ok read]
    exact continued value after reaches forward
  | error reaches =>
    rw [Routine.bind_of_error ended, Parser.bind_of_error read]
    exact .error (before.trans reaches)

end Gives

end Reader

/-- Where there is room for this many more levels, the routine does what the parser does. -/
def Performs (room : Nat) (taken : α → Prop) (routine : Routine α) (parser : ParserOn Cursor α) : Prop :=
  ∀ reader : Reader, reader.Sound → reader.limit - reader.depth = room →
    reader.Gives taken (routine reader) (parser reader.cursor)

/-- Nothing that is read is said to take a token. -/
abbrev Still : α → Prop := fun _ => False

/-- All that is read takes a token. -/
abbrev Moving : α → Prop := fun _ => True

/-- What is there takes a token. -/
abbrev Present : Option α → Prop := fun found => found.isSome = true

namespace Performs

variable {room : Nat} {taken : α → Prop} {moved : β → Prop} {routine : Routine α} {parser : ParserOn Cursor α}
  {next : α → Routine β} {rest : α → ParserOn Cursor β}

theorem pure {value : α} (still : ¬taken value) : Performs room taken (Pure.pure value) (Pure.pure value) :=
  fun _ sound _ => .ok (.refl sound) fun moved => absurd moved still

theorem mono {others : α → Prop} (performs : Performs room taken routine parser)
    (fewer : ∀ value, others value → taken value) : Performs room others routine parser :=
  fun reader sound left => (performs reader sound left).since (.refl sound) fun value other => .inl (fewer value other)

theorem bind (first : Performs room taken routine parser)
    (continued : ∀ value, Performs room (fun result => moved result ∧ ¬taken value) (next value) (rest value)) :
    Performs room moved (routine >>= next) (parser >>= rest) := by
  intro reader sound left
  refine (first reader sound left).bind (.refl sound) fun value after reaches forward => ?_
  have gives := continued value after reaches.sound (by rw [reaches.limit, reaches.depth, left])
  refine gives.since reaches fun result other => ?_
  by_cases counted : taken value
  · exact .inr (forward counted)
  · exact .inl ⟨other, counted⟩

/-- A token is taken at the latest by what comes behind. -/
theorem still_bind (first : Performs room Still routine parser)
    (continued : ∀ value, Performs room moved (next value) (rest value)) :
    Performs room moved (routine >>= next) (parser >>= rest) :=
  first.bind fun value => (continued value).mono fun _ both => both.1

/-- A token is taken before what comes behind. -/
theorem moving_bind (first : Performs room Moving routine parser)
    (continued : ∀ value, Performs room Still (next value) (rest value)) :
    Performs room moved (routine >>= next) (parser >>= rest) :=
  first.bind fun value => (continued value).mono fun _ both => both.2 trivial

theorem present_bind {routine : Routine (Option α)} {parser : ParserOn Cursor (Option α)}
    {next : Option α → Routine β} {rest : Option α → ParserOn Cursor β} (first : Performs room Present routine parser)
    (absent : Performs room moved (next none) (rest none))
    (there : ∀ value, Performs room Still (next (some value)) (rest (some value))) :
    Performs room moved (routine >>= next) (parser >>= rest) := by
  refine first.bind fun found => ?_
  cases found with
  | none => exact absent.mono fun _ both => both.1
  | some value => exact (there value).mono fun _ both => both.2 rfl

theorem map {f : α → β} (performs : Performs room Still routine parser) :
    Performs room Still (f <$> routine) (f <$> parser) := by
  rw [map_eq_pure_bind, map_eq_pure_bind]
  exact performs.still_bind fun _ => pure id

theorem either {test : Routine Bool} {other : ParserOn Cursor Bool} {yes no : Routine α}
    {others otherwise : ParserOn Cursor α} (tests : Performs room Still test other)
    (there : Performs room taken yes others) (absent : Performs room taken no otherwise) :
    Performs room taken (do if ← test then yes else no) (do if ← other then others else otherwise) := by
  refine tests.still_bind fun found => ?_
  cases found with
  | true => exact there
  | false => exact absent

/-- Where something is tried in vain, what is tried instead goes on from where the first failed, and the parser from
where it began. -/
theorem attempt {handler : Nat → Failure → Routine α} {other : Failure → ParserOn Cursor α}
    (first : Performs room taken routine parser)
    (handled : ∀ (reader after : Reader) (failure : Failure), reader.Sound → reader.limit - reader.depth = room →
      reader.Reaches after → reader.Gives taken (handler reader.place failure after) (other failure reader.cursor)) :
    Performs room taken (do let start ← Routine.place; tryCatch routine (handler start)) (tryCatch parser other) := by
  intro reader sound left
  have gives := first reader sound left
  rw [Routine.place_bind]
  generalize ended : routine reader = outcome at gives
  generalize read : parser reader.cursor = expected at gives
  cases gives with
  | ok reaches forward =>
    rw [Routine.tryCatch_of_ok ended, Parser.tryCatch_of_ok read]
    exact .ok reaches forward
  | @error failure after reaches =>
    rw [Routine.tryCatch_of_error ended, Parser.tryCatch_of_error read]
    exact handled _ after failure sound left reaches

end Performs

namespace Routine

variable {room : Nat}

/-! ### Tokens -/

/-- What looks only at the next token. -/
theorem looks_performs {look : Option Token → α} :
    Performs room Still (do return look (← peek?)) (fun cursor => .ok (look (TokenSource.next? cursor), cursor)) := by
  intro reader sound left
  rw [bind_of_ok (peek?_apply sound)]
  exact .ok (.refl sound) False.elim

theorem peek?_performs : Performs room Still peek? Parser.peek? := by
  intro reader sound left
  rw [peek?_apply sound]
  exact .ok (.refl sound) False.elim

theorem nextIs_performs {test : Token → Bool} : Performs room Still (nextIs test) (Parser.nextIs test) :=
  @looks_performs _ _ fun next => next.any test

theorem nextIsKind_performs {kind : Token.Kind} : Performs room Still (nextIsKind kind) (Parser.nextIsKind kind) :=
  nextIs_performs

theorem isAtEnd_performs : Performs room Still isAtEnd Parser.isAtEnd :=
  looks_performs

theorem advance_performs : Performs room Still advance Parser.skip := by
  intro reader sound left
  obtain ⟨token, there, _⟩ := sound.solid
  change reader.Gives Still (advance reader) (.ok ((), TokenSource.advance reader.cursor))
  rw [advance, there, sound.advance_cursor there, Part.coe_some, Part.map_some]
  refine .ok ?_ False.elim
  split
  next => exact .refl sound
  next inside => exact (sound.reaches_next there inside).1

theorem accept?_performs {pick : Token → Option α} : Performs room Present (accept? pick) (Parser.accept? pick) := by
  intro reader sound left
  rw [accept?, bind_of_ok (peek?_apply sound), Parser.accept?]
  cases picked : (TokenSource.next? reader.cursor).bind pick with
  | none => exact .ok (.refl sound) fun present => absurd present Bool.false_ne_true
  | some value =>
    obtain ⟨token, found, _⟩ := Option.bind_eq_some_iff.mp picked
    obtain ⟨there, inside⟩ := sound.there_of_next? found
    obtain ⟨reaches, forward⟩ := sound.reaches_next there inside
    have advanced : advance reader = .some (.ok (), reader.next) := by
      rw [advance, there, Part.coe_some, Part.map_some, if_neg inside]
    dsimp only
    rw [bind_of_ok advanced, sound.advance_cursor there, if_neg inside]
    exact .ok reaches fun _ => forward

variable {taken : α → Prop}

theorem fail_performs {fault : SyntaxFault} : Performs room taken (fail fault) (Parser.fail fault) := by
  intro reader sound left
  rw [fail, bind_of_ok (peek?_apply sound)]
  exact .error (.refl sound)

theorem failAt_performs {span : Span} {fault : SyntaxFault} :
    Performs room taken (failAt span fault) (Parser.failAt span fault) :=
  fun _ sound _ => .error (.refl sound)

theorem unexpected_performs {wanted : Expectation} :
    Performs room taken (unexpected wanted) (Parser.unexpected wanted) := by
  intro reader sound left
  rw [unexpected, bind_of_ok (peek?_apply sound), Parser.unexpected]
  cases TokenSource.next? reader.cursor <;> exact .error (.refl sound)

theorem expect_performs {wanted : Expectation} {pick : Token → Option α} :
    Performs room taken (expect wanted pick) (Parser.expect wanted pick) :=
  accept?_performs.present_bind unexpected_performs fun _ => .pure id

theorem token_performs {kind : Token.Kind} {taken : Token → Prop} :
    Performs room taken (token kind) (Parser.token kind) :=
  expect_performs

theorem keyword_performs {word : String} {taken : Token → Prop} :
    Performs room taken (keyword word) (Parser.keyword word) :=
  expect_performs

theorem name_performs {wanted : Expectation} {taken : Name → Prop} :
    Performs room taken (name wanted) (Parser.name wanted) :=
  expect_performs

/-- What comes behind a token of the kind, or else something other. -/
theorem eat_performs {kind : Token.Kind} {yes no : Routine α} {others otherwise : ParserOn Cursor α}
    (there : Performs room Still yes others) (absent : Performs room taken no otherwise) :
    Performs room taken (do if ← eat kind then yes else no) (do if ← Parser.eat kind then others else otherwise) := by
  have eats : Performs room (· = true) (eat kind) (Parser.eat kind) :=
    accept?_performs.present_bind (.pure Bool.false_ne_true) fun _ => .pure id
  refine eats.bind fun found => ?_
  cases found with
  | true => exact there.mono fun _ both => both.2 rfl
  | false => exact absent.mono fun _ both => both.1

/-! ### Nesting -/

theorem inParens_performs {inner : Routine α} {other : ParserOn Cursor α} (inside : Performs room Still inner other) :
    Performs room taken (inParens inner) (Parser.inParens other) :=
  token_performs.moving_bind fun _ => inside.still_bind fun _ => token_performs.still_bind fun _ => .pure id

theorem nested_gives {reader : Reader} {body : Routine α} {inner : Nat → ParserOn Cursor α} (sound : reader.Sound)
    (left : reader.limit - reader.depth = room)
    (inside : ∀ less, room = less + 1 → reader.deeper.Gives taken (body reader.deeper) (inner less reader.cursor)) :
    reader.Gives taken (nested body reader) (Parser.nested room inner reader.cursor) := by
  rw [nested]
  split
  next full =>
    obtain rfl : room = 0 := by omega
    exact fail_performs reader sound left
  next =>
    obtain ⟨less, rfl⟩ : ∃ less, room = less + 1 := ⟨room - 1, by omega⟩
    have gives := inside less rfl
    change reader.Gives taken ((body reader.deeper).map _) (inner less reader.cursor)
    generalize body reader.deeper = outcome at gives
    generalize inner less reader.cursor = expected at gives
    cases gives with
    | ok reaches forward => exact .ok reaches.shallower forward
    | error reaches => exact .error reaches.shallower

theorem nested_performs {body : Routine α} {inner : Nat → ParserOn Cursor α}
    (inside : ∀ less, room = less + 1 → Performs less taken body (inner less)) :
    Performs room taken (nested body) (Parser.nested room inner) := by
  intro reader sound left
  refine nested_gives sound left fun less same => inside less same reader.deeper sound.deeper ?_
  change reader.limit - (reader.depth + 1) = less
  omega

/-! ### Loops -/

/-- There is a turn for each token that is left, so the bound does not end the loop of the parser, and both end where
an item is absent. -/
theorem repeating_gives {item : Routine (Option α)} {other : ParserOn Cursor (Option α)}
    (items : Performs room Present item other) (bound : List Token) (found : List α) {reader : Reader}
    (sound : reader.Sound) (left : reader.limit - reader.depth = room)
    (enough : reader.tokens.length - reader.place ≤ bound.length) :
    reader.Gives Still (repeating item found reader) (Parser.manyFrom other bound found reader.cursor) := by
  induction bound generalizing found reader with
  | nil =>
    obtain ⟨token, there, _⟩ := sound.solid
    have within := (List.getElem?_eq_some_iff.mp there).1
    simp only [List.length_nil] at enough
    omega
  | cons _ bound ih =>
    rw [repeating_eq, Parser.manyFrom_cons]
    refine (items reader sound left).bind (.refl sound) fun value after reaches forward => ?_
    cases value with
    | none => exact .ok reaches False.elim
    | some value =>
      have passed := forward rfl
      have stillEnough : after.tokens.length - after.place ≤ bound.length := by
        rw [reaches.tokens]
        rw [List.length_cons] at enough
        omega
      have gives := ih (value :: found) reaches.sound (by rw [reaches.limit, reaches.depth, left]) stillEnough
      exact gives.since reaches fun _ => False.elim

theorem many_performs {item : Routine (Option α)} {other : ParserOn Cursor (Option α)}
    (items : Performs room Present item other) : Performs room Still (many item) (Parser.many other) :=
  fun _ sound left => repeating_gives items _ [] sound left sound.length_bound_cursor.ge

theorem manyInBraces_performs {item : Routine α} {other : ParserOn Cursor α} (items : Performs room Moving item other) :
    Performs room Still (manyInBraces item) (Parser.manyInBraces other) := by
  refine many_performs (isAtEnd_performs.still_bind fun ended => nextIsKind_performs.still_bind fun closed => ?_)
  cases ended || closed with
  | true => exact .pure Bool.false_ne_true
  | false => exact items.moving_bind fun _ => .pure id

end Routine

end RecordLayout
