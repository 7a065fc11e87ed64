import RecordLayout.Proofs.Grammar.Faults
import RecordLayout.Proofs.Pairing.Runs
import RecordLayout.Proofs.Span.Enclosed

/-! What a parser does with the places of tokens. It looks at none of them: where the tokens are elsewhere, what it
makes of them is elsewhere as well, and the same in all other respects. It only reads from the front, and a failure
concerns tokens that it has before it or that have been read before. -/

namespace RecordLayout

open Located RecordLayout.Parser

/-- What a failure speaks of is among the tokens: the places that it names, and what it finds wrong with one of them. -/
structure Failure.Blames (tokens : List Token) (failure : Failure) : Prop where
  places : Enclose [] tokens (spans failure)
  concerns : ∀ span cause, failure = .fault span cause → cause.Concerns tokens

theorem Failure.Blames.mono {tokens all : List Token} {failure : Failure} (blames : failure.Blames tokens)
    (some : tokens.Sublist all) : failure.Blames all :=
  ⟨blames.places.mono some, fun span cause same => (blames.concerns span cause same).mono some.subset⟩

theorem Failure.Blames.fault {tokens : List Token} {span : Option Span} {cause : SyntaxFault}
    (places : Enclose [] tokens (spans (Failure.fault span cause))) (concerns : cause.Concerns tokens) :
    (Failure.fault span cause).Blames tokens :=
  ⟨places, fun _ _ same => by cases same; exact concerns⟩

namespace Parser

variable {α β : Type} [Located α] [Located β]

/-- The second parser does with moved tokens what the first one does with tokens. Its failures are between the
tokens seen before and those it is given. -/
structure Tracks (place : Position → Position) (seen : List Token) (first second : Parser α) : Prop where
  moves : ∀ tokens, second (move place tokens) = move place (first tokens)
  leaves : ∀ {tokens value rest}, first tokens = .ok (value, rest) → ∃ front, tokens = front ++ rest
  blames : ∀ {tokens failure}, first tokens = .error failure → failure.Blames (seen ++ tokens)

variable {place : Position → Position} {seen : List Token} {first second : Parser α}

namespace Tracks

theorem pure_of_eq {value other : α} (same : other = move place value) :
    Tracks place seen (Pure.pure value) (Pure.pure other) where
  moves _ := by rw [same]; rfl
  leaves read := ⟨[], by cases read; rfl⟩
  blames impossible := by cases impossible

theorem pure {value : α} : Tracks place seen (Pure.pure value) (Pure.pure (move place value)) :=
  pure_of_eq rfl

/-- What follows is known to come behind the tokens that have been read. -/
theorem bind_seen (phrase : Phrase α) {next other : α → Parser β} (tracks : Tracks place seen first second)
    (sound : ∀ {tokens value rest}, first tokens = .ok (value, rest) →
      ∃ front, tokens = front ++ rest ∧ phrase front value)
    (continued : ∀ front value, phrase front value →
      Tracks place (seen ++ front) (next value) (other (move place value))) :
    Tracks place seen (first >>= next) (second >>= other) where
  moves tokens := by
    have moved := tracks.moves tokens
    cases result : first tokens with
    | error failure =>
      rw [result] at moved
      rw [bind_of_error result, bind_of_error moved]
      rfl
    | ok found =>
      obtain ⟨value, rest⟩ := found
      obtain ⟨front, _, there⟩ := sound result
      rw [result] at moved
      rw [bind_of_ok result, bind_of_ok moved]
      exact (continued front value there).moves rest
  leaves read := by
    obtain ⟨value, rest, taken, continuing⟩ := bind_eq_ok.mp read
    obtain ⟨front, rfl, there⟩ := sound taken
    obtain ⟨back, rfl⟩ := (continued front value there).leaves continuing
    exact ⟨front ++ back, by simp⟩
  blames {tokens failure} failed := by
    cases result : first tokens with
    | error reason =>
      rw [bind_of_error result] at failed
      cases failed
      exact tracks.blames result
    | ok found =>
      obtain ⟨value, rest⟩ := found
      obtain ⟨front, rfl, there⟩ := sound result
      rw [bind_of_ok result] at failed
      simpa using (continued front value there).blames failed

theorem behind {before : List Token} (tracks : Tracks place seen first second) :
    Tracks place (seen ++ before) first second := by
  refine ⟨tracks.moves, tracks.leaves, fun failed => ?_⟩
  exact (tracks.blames failed).mono ((List.sublist_append_left seen before).append_right _)

theorem bind {next other : α → Parser β} (tracks : Tracks place seen first second)
    (continued : ∀ value, Tracks place seen (next value) (other (move place value))) :
    Tracks place seen (first >>= next) (second >>= other) := by
  apply tracks.bind_seen (fun _ _ => True)
  · intro tokens value rest read
    obtain ⟨front, same⟩ := tracks.leaves read
    exact ⟨front, same, trivial⟩
  · exact fun front value _ => (continued value).behind

theorem map {f g : α → β} (tracks : Tracks place seen first second) (maps : ∀ value, g (move place value) = move place (f value)) :
    Tracks place seen (f <$> first) (g <$> second) := by
  rw [map_eq_pure_bind, map_eq_pure_bind]
  exact tracks.bind fun value => pure_of_eq (maps value)

end Tracks

/-! Single tokens. -/

theorem accept?_tracks {pick : Token → Option α}
    (picks : ∀ token, pick (move place token) = move place (pick token)) :
    Tracks place seen (accept? pick) (accept? pick) where
  moves tokens := by
    cases tokens with
    | nil => rfl
    | cons token rest =>
      have moved := picks token
      change accept? pick (move place token :: move place rest) = _
      cases picked : pick token with
      | none =>
        rw [picked] at moved
        rw [accept?_eq_none.mpr ⟨rfl, clear_cons.mpr (by rw [moved]; rfl)⟩,
          accept?_eq_none.mpr ⟨rfl, clear_cons.mpr (by rw [picked]; rfl)⟩]
        rfl
      | some value =>
        rw [picked] at moved
        rw [accept?_eq_some.mpr ⟨_, rfl, moved⟩, accept?_eq_some.mpr ⟨_, rfl, picked⟩]
        rfl
  leaves {tokens value rest} read := by
    cases value with
    | none => exact ⟨[], (accept?_eq_none.mp read).1⟩
    | some value =>
      obtain ⟨token, rfl, _⟩ := accept?_eq_some.mp read
      exact ⟨[token], rfl⟩
  blames {tokens failure} failed := by
    unfold accept? at failed
    split at failed <;> cases failed

/-- Tests that look at the next token and read nothing. -/
theorem looks_tracks {look other : List Token → α} (looks : ∀ tokens, other (move place tokens) = move place (look tokens)) :
    Tracks place seen (fun tokens => .ok (look tokens, tokens)) (fun tokens => .ok (other tokens, tokens)) where
  moves tokens := by
    simp only [looks]
    rfl
  leaves read := ⟨[], by cases read; rfl⟩
  blames impossible := by cases impossible

theorem peek?_tracks : Tracks place seen peek? peek? :=
  looks_tracks fun tokens => by cases tokens <;> rfl

theorem isAtEnd_tracks : Tracks place seen isAtEnd isAtEnd :=
  looks_tracks fun tokens => by cases tokens <;> rfl

theorem nextIs_tracks {test : Token → Bool} (tests : ∀ token, test (move place token) = test token) :
    Tracks place seen (nextIs test) (nextIs test) := by
  refine looks_tracks fun tokens => ?_
  cases tokens with
  | nil => rfl
  | cons token rest => exact tests token

theorem skip_tracks : Tracks place seen skip skip where
  moves tokens := by cases tokens <;> rfl
  leaves {tokens value rest} read := by
    cases read
    cases tokens with
    | nil => exact ⟨[], rfl⟩
    | cons token rest => exact ⟨[token], rfl⟩
  blames impossible := by cases impossible

/-! Failures. -/

theorem move_fault {fault : SyntaxFault} (plain : spans fault = []) : move place fault = fault := by
  cases fault with
  | unexpected => cases plain
  | _ => rfl

theorem enclose_fault {tokens : List Token} {span : Option Span} {fault : SyntaxFault}
    (spanned : ∀ known ∈ span, Spanned tokens known) (plain : spans fault = []) :
    Enclose [] tokens (spans (Failure.fault span fault)) := by
  change Enclose [] tokens (spans span ++ spans fault)
  rw [plain, List.append_nil]
  cases span with
  | none => exact .nil
  | some span => exact .one (spanned span rfl)

theorem failAt_tracks {span : Span} {fault : SyntaxFault} (spanned : Spanned seen span) (plain : spans fault = [])
    (concerns : fault.Concerns seen) :
    Tracks place seen (failAt span fault : Parser α) (failAt (move place span) fault) where
  moves tokens := by
    have same : failAt (move place span) fault (move place tokens) =
        (.error (.fault (some (move place span)) (move place fault)) : Except Failure (α × List Token)) := by
      rw [move_fault plain]
      rfl
    exact same
  leaves impossible := by cases impossible
  blames failed := by
    cases failed
    refine .fault (enclose_fault (fun known same => ?_) plain) (concerns.mono (List.subset_append_left ..))
    cases same
    exact spanned.mono (List.sublist_append_left ..)

theorem spans_of_isStructural {fault : SyntaxFault} (built : fault.isStructural = true) : spans fault = [] := by
  cases fault with
  | unexpected => cases built
  | _ => rfl

theorem fail_tracks {fault : SyntaxFault} (built : fault.isStructural = true) :
    Tracks place seen (fail fault : Parser α) (fail fault) where
  moves tokens := by
    have same : fail fault (move place tokens) =
        (.error (.fault (move place (tokens.head?.map Token.span)) (move place fault)) :
          Except Failure (α × List Token)) := by
      rw [move_fault (spans_of_isStructural built)]
      cases tokens <;> rfl
    exact same
  leaves impossible := by cases impossible
  blames {tokens failure} failed := by
    cases failed
    refine .fault (enclose_fault (fun known same => ?_) (spans_of_isStructural built)) (.structural built)
    obtain ⟨token, first, rfl⟩ := Option.map_eq_some_iff.mp same
    exact spanned_token (List.mem_append_right _ (List.mem_of_mem_head? first))

theorem unexpected_tracks {wanted : Expectation} :
    Tracks place seen (unexpected wanted : Parser α) (unexpected wanted) where
  moves tokens := by cases tokens <;> rfl
  leaves {tokens value rest} read := absurd read unexpected_ne_ok
  blames {tokens failure} failed := by
    cases tokens with
    | nil =>
      cases failed
      exact ⟨.nil, fun _ _ impossible => by cases impossible⟩
    | cons token rest =>
      cases failed
      have there : Spanned (seen ++ token :: rest) token.span := spanned_token (by simp)
      exact .fault (.cons there (.one there)) (.unexpected (by simp))

/-! Tokens that are wanted. -/

theorem expect_tracks {wanted : Expectation} {pick : Token → Option α}
    (picks : ∀ token, pick (move place token) = move place (pick token)) :
    Tracks place seen (expect wanted pick) (expect wanted pick) := by
  refine (accept?_tracks picks).bind fun found => ?_
  cases found with
  | some value => exact .pure
  | none => exact unexpected_tracks

theorem ofKind?_move {kind : Token.Kind} (token : Token) :
    ofKind? kind (move place token) = move place (ofKind? kind token) := by
  unfold ofKind?
  split <;> simp_all [move]

theorem token_tracks {kind : Token.Kind} : Tracks place seen (token kind) (token kind) :=
  expect_tracks ofKind?_move

theorem keyword_tracks {word : String} : Tracks place seen (keyword word) (keyword word) :=
  expect_tracks fun token => by
    change (if token.isKeyword word then _ else _) = _
    split <;> rfl

theorem name_tracks {wanted : Expectation} : Tracks place seen (name wanted) (name wanted) :=
  expect_tracks fun token => by
    rw [ofKind?_move]
    cases ofKind? .identifier token <;> rfl

theorem token_seen {kind : Token.Kind} {next other : Token → Parser α}
    (continued : ∀ token, token.kind = kind → Tracks place (seen ++ [token]) (next token) (other (move place token))) :
    Tracks place seen (token kind >>= next) (token kind >>= other) := by
  apply token_tracks.bind_seen (fun tokens value => tokens = [value] ∧ value.kind = kind)
  · intro tokens value rest read
    obtain ⟨parts, same⟩ := token_eq_ok.mp read
    exact ⟨[value], parts, rfl, same⟩
  · rintro front value ⟨rfl, same⟩
    exact continued value same

theorem eat_tracks {kind : Token.Kind} : Tracks place seen (eat kind) (eat kind) := by
  refine (accept?_tracks ofKind?_move).bind fun found => ?_
  cases found <;> exact .pure

theorem either_tracks {test : Token → Bool} {yes no others otherwise : Parser α}
    (tests : ∀ token, test (move place token) = test token) (there : Tracks place seen yes others)
    (absent : Tracks place seen no otherwise) :
    Tracks place seen (do if ← nextIs test then yes else no) (do if ← nextIs test then others else otherwise) := by
  refine (nextIs_tracks tests).bind fun found => ?_
  cases found with
  | true => exact there
  | false => exact absent

theorem eitherKind_tracks {kind : Token.Kind} {yes no others otherwise : Parser α}
    (there : Tracks place seen yes others) (absent : Tracks place seen no otherwise) :
    Tracks place seen (do if ← nextIsKind kind then yes else no)
      (do if ← nextIsKind kind then others else otherwise) :=
  either_tracks (fun _ => rfl) there absent

/-! Attempts, nesting and loops. -/

theorem tryCatch_tracks {handler : Parser α} {other : Parser α} (tracks : Tracks place seen first second)
    (handled : Tracks place seen handler other) :
    Tracks place seen (tryCatch first fun _ => handler) (tryCatch second fun _ => other) where
  moves tokens := by
    have moved := tracks.moves tokens
    cases result : first tokens with
    | error failure =>
      rw [result] at moved
      rw [tryCatch_of_error result, tryCatch_of_error moved]
      exact handled.moves tokens
    | ok found =>
      rw [result] at moved
      rw [tryCatch_of_ok result, tryCatch_of_ok moved]
      rfl
  leaves read := by
    rcases tryCatch_eq_ok.mp read with read | ⟨_, _, read⟩
    · exact tracks.leaves read
    · exact handled.leaves read
  blames {tokens failure} failed := by
    cases result : first tokens with
    | error reason => exact handled.blames ((tryCatch_of_error result).symm.trans failed)
    | ok found =>
      rw [tryCatch_of_ok result] at failed
      cases failed

theorem nested_tracks {room : Nat} {body other : Nat → Parser α}
    (inside : ∀ room, Tracks place seen (body room) (other room)) :
    Tracks place seen (nested room body) (nested room other) := by
  cases room with
  | zero => exact fail_tracks rfl
  | succ room => exact inside room

theorem inParens_tracks (inside : Tracks place seen first second) :
    Tracks place seen (inParens first) (inParens second) :=
  token_tracks.bind fun _ => inside.bind fun _ => token_tracks.bind fun _ => .pure

private theorem manyFrom_tracks {item other : Parser (Option α)} (tracks : Tracks place seen item other)
    (bound : List Token) (found : List α) :
    Tracks place seen (manyFrom item bound found) (manyFrom other (move place bound) (move place found)) := by
  induction bound generalizing found with
  | nil =>
    have finished : Tracks place seen (Pure.pure found.reverse : Parser (List α))
        (Pure.pure (move place found).reverse) :=
      .pure_of_eq List.map_reverse.symm
    exact finished
  | cons token bound ih =>
    have unfolded (loop : Parser (Option α)) (token : Token) (bound : List Token) (found : List α) :
        manyFrom loop (token :: bound) found = (do
          (← loop).elim (return found.reverse) fun value => manyFrom loop bound (value :: found)) := by
      funext tokens
      cases result : loop tokens with
      | error failure => rw [bind_of_error result, manyFrom, result]
      | ok found =>
        obtain ⟨value, rest⟩ := found
        rw [bind_of_ok result, manyFrom, result]
        cases value <;> rfl
    change Tracks place seen _ (manyFrom other (move place token :: move place bound) _)
    rw [unfolded, unfolded]
    refine tracks.bind fun value => ?_
    cases value with
    | some value => exact ih (value :: found)
    | none => exact .pure_of_eq List.map_reverse.symm

theorem many_tracks {item other : Parser (Option α)} (tracks : Tracks place seen item other) :
    Tracks place seen (many item) (many other) where
  moves tokens := (manyFrom_tracks tracks tokens []).moves tokens
  leaves {tokens _ _} read := (manyFrom_tracks tracks tokens []).leaves read
  blames {tokens _} failed := (manyFrom_tracks tracks tokens []).blames failed

theorem manyInBraces_tracks (tracks : Tracks place seen first second) :
    Tracks place seen (manyInBraces first) (manyInBraces second) := by
  apply many_tracks
  refine isAtEnd_tracks.bind fun ended => (nextIs_tracks fun _ => rfl).bind fun closed => ?_
  cases ended || closed with
  | true => exact .pure
  | false => exact tracks.bind fun _ => .pure

end Parser

end RecordLayout
