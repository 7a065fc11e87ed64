import RecordLayout.Proofs.Grammar.Types

/-! Two runs of a parser side by side, on tokens that belong together. As long as both runs find the same,
they read the same; the first run may depart from the second one, with a failure of its own or because it
has come to the end of its tokens. What is shown here once for each way to build a parser holds of every
two runs that are compared: with more and with less room, on all tokens and on some from the front. -/

namespace RecordLayout

open RecordLayout.Parser

/-- What is compared. -/
structure Pairing where
  /-- What is left before the first run and before the second one. -/
  aligned : List Token → List Token → Prop
  /-- The tokens after which the runs are still aligned. -/
  takes : Token → Prop
  /-- The tokens that there are at all. -/
  known : Token → Prop
  rooms : Nat → Nat → Prop
  /-- The failures with which the first run may depart. -/
  departs : Failure → Prop
  /-- Whether the first run has fewer tokens. -/
  short : Prop
  step : ∀ {token front back}, aligned (token :: front) back →
    ∃ others, back = token :: others ∧ (takes token → aligned front others)
  stop : ∀ {back}, aligned [] back → back = [] ∨ short
  fewer : ∀ {front back}, aligned front back → front ⊆ back
  knows : ∀ {front back}, aligned front back → ∀ token ∈ back, known token
  ended : ∀ {wanted}, short → departs (.ended wanted)

namespace Pairing

variable {pair : Pairing} {α β : Type}

/-- The result of a first run that departs. -/
def Departs (pair : Pairing) : Except Failure (α × List Token) → Prop
  | .ok (_, rest) => pair.short ∧ rest = []
  | .error failure => pair.departs failure

/-- The results of runs that find the same. -/
def Agree (pair : Pairing) : Except Failure (α × List Token) → Except Failure (α × List Token) → Prop
  | .ok (value, rest), second => ∃ others, second = .ok (value, others) ∧ pair.aligned rest others
  | .error failure, second => second = .error failure

/-- The first result departs from the second one or agrees with it. -/
def Match (pair : Pairing) (first second : Except Failure (α × List Token)) : Prop :=
  pair.Departs first ∨ pair.Agree first second

/-- The runs match wherever they are aligned. -/
def Along (pair : Pairing) (first second : Parser α) : Prop :=
  ∀ front back, pair.aligned front back → pair.Match (first front) (second back)

/-- The runs match, and the first one can go on where its tokens have ended. -/
structure Follows (pair : Pairing) (first second : Parser α) : Prop where
  along : pair.Along first second
  out : pair.short → pair.Departs (first [])

end Pairing

namespace Parser

theorem isSome_ofKind? {kind : Token.Kind} {token : Token} :
    (ofKind? kind token).isSome = true ↔ token.kind = kind := by
  simp [Option.isSome_iff_exists, ofKind?_eq_some]

end Parser

namespace Pairing

variable {pair : Pairing} {first second : Parser α} {front back : List Token}

/-- Both runs have the same token before them, unless the first one has come to its end. -/
theorem head (together : pair.aligned front back) :
    front.head? = back.head? ∨ front = [] ∧ pair.short := by
  cases front with
  | nil =>
    rcases pair.stop together with rfl | short
    · exact .inl rfl
    · exact .inr ⟨rfl, short⟩
  | cons token front =>
    obtain ⟨others, rfl, _⟩ := pair.step together
    exact .inl rfl

/-! Results. -/

theorem match_ok {value : α} (together : pair.aligned front back) :
    pair.Match (.ok (value, front)) (.ok (value, back)) :=
  .inr ⟨back, rfl, together⟩

theorem match_error {failure : Failure} :
    pair.Match (.error failure : Except Failure (α × List Token)) (.error failure) :=
  .inr rfl

theorem match_departed {failure : Failure} {other : Except Failure (α × List Token)}
    (departs : pair.departs failure) : pair.Match (.error failure) other :=
  .inl departs

/-- The ways in which two results match. -/
theorem Match.elim {one other : Except Failure (α × List Token)} {goal : Prop} (matched : pair.Match one other)
    (departed : ∀ failure, one = .error failure → pair.departs failure → goal)
    (ended : ∀ value, one = .ok (value, []) → pair.short → goal)
    (failed : ∀ failure, one = .error failure → other = .error failure → goal)
    (found : ∀ value rest others, one = .ok (value, rest) → other = .ok (value, others) →
      pair.aligned rest others → goal) : goal := by
  cases one with
  | error failure =>
    rcases matched with departs | same
    · exact departed failure rfl departs
    · exact failed failure rfl same
  | ok result =>
    obtain ⟨value, rest⟩ := result
    rcases matched with ⟨short, rfl⟩ | ⟨others, same, together⟩
    · exact ended value rfl short
    · exact found value rest others rfl same together

namespace Follows

/-- Runs are compared where both of them have ended, where the first one alone has, and at a token that both
have before them. -/
theorem of_heads (ended : pair.aligned [] [] → pair.Match (first []) (second []))
    (out : pair.short → pair.Departs (first []))
    (there : ∀ token front others, pair.aligned (token :: front) (token :: others) →
      (pair.takes token → pair.aligned front others) → pair.Match (first (token :: front)) (second (token :: others))) :
    pair.Follows first second := by
  refine ⟨fun front back together => ?_, out⟩
  cases front with
  | nil =>
    rcases pair.stop together with rfl | short
    · exact ended together
    · exact .inl (out short)
  | cons token front =>
    obtain ⟨others, rfl, aligned⟩ := pair.step together
    exact there token front others together aligned

/-! Sequences. -/

theorem pure {value : α} : pair.Follows (Pure.pure value) (Pure.pure value) :=
  ⟨fun _ _ together => match_ok together, fun short => ⟨short, rfl⟩⟩

end Follows

theorem Departs.bind {next : α → Parser β} (departed : pair.Departs (first front))
    (out : pair.short → ∀ value, pair.Departs (next value [])) : pair.Departs ((first >>= next) front) := by
  cases result : first front with
  | error failure =>
    rw [result] at departed
    rw [bind_of_error result]
    exact departed
  | ok found =>
    obtain ⟨value, rest⟩ := found
    rw [result] at departed
    obtain ⟨short, rfl⟩ := departed
    rw [bind_of_ok result]
    exact out short value

theorem Match.bind {next other : α → Parser β} (matched : pair.Match (first front) (second back))
    (follows : ∀ value, pair.Follows (next value) (other value)) :
    pair.Match ((first >>= next) front) ((second >>= other) back) := by
  rcases matched with departed | agreed
  · exact .inl (departed.bind fun short value => (follows value).out short)
  · cases result : first front with
    | error failure =>
      rw [result] at agreed
      rw [bind_of_error result, bind_of_error agreed]
      exact match_error
    | ok found =>
      obtain ⟨value, rest⟩ := found
      rw [result] at agreed
      obtain ⟨others, same, remaining⟩ := agreed
      rw [bind_of_ok result, bind_of_ok same]
      exact (follows value).along _ _ remaining

namespace Follows

theorem bind {next other : α → Parser β} (follows : pair.Follows first second)
    (continued : ∀ value, pair.Follows (next value) (other value)) :
    pair.Follows (first >>= next) (second >>= other) where
  along _ _ together := (follows.along _ _ together).bind continued
  out short := (follows.out short).bind fun short value => (continued value).out short

theorem map {f : α → β} (follows : pair.Follows first second) : pair.Follows (f <$> first) (f <$> second) := by
  rw [map_eq_pure_bind, map_eq_pure_bind]
  exact follows.bind fun _ => pure

end Follows

/-! Single tokens. -/

/-- Something else is wanted than what both runs have before them, or the tokens end. -/
theorem unexpected_follows {wanted : Expectation} :
    pair.Follows (unexpected wanted : Parser α) (unexpected wanted) :=
  .of_heads (fun _ => match_error) pair.ended fun _ _ _ _ _ => match_error

theorem failAt_along {span : Span} {fault : SyntaxFault} :
    pair.Along (failAt span fault : Parser α) (failAt span fault) :=
  fun _ _ _ => match_error

theorem failAt_follows {span : Span} {fault : SyntaxFault}
    (excused : pair.short → pair.departs (.fault (some span) fault)) :
    pair.Follows (failAt span fault : Parser α) (failAt span fault) :=
  ⟨failAt_along, excused⟩

/-- Both runs fail at the token before them. -/
theorem fail_match {fault : SyntaxFault} {token : Token} (together : pair.aligned (token :: front) back) :
    pair.Match (fail fault (token :: front) : Except Failure (α × List Token)) (fail fault back) := by
  obtain ⟨others, rfl, _⟩ := pair.step together
  exact match_error

theorem fail_follows {fault : SyntaxFault} (excused : pair.short → pair.departs (.fault none fault)) :
    pair.Follows (fail fault : Parser α) (fail fault) :=
  .of_heads (fun _ => match_error) excused fun _ _ _ together _ => fail_match together

/-- A parser that departs at once follows any other one. -/
theorem fail_departs {fault : SyntaxFault} (departs : ∀ span, pair.departs (.fault span fault)) :
    pair.Follows (fail fault) second :=
  ⟨fun _ _ _ => match_departed (departs _), fun _ => departs _⟩

theorem accept?_follows {pick : Token → Option α} (taken : ∀ token, (pick token).isSome = true → pair.takes token) :
    pair.Follows (accept? pick) (accept? pick) := by
  refine .of_heads match_ok (fun short => ⟨short, rfl⟩) fun token front others together aligned => ?_
  cases picked : pick token with
  | none =>
    simp only [accept?, TokenSource.next?_list, List.head?_cons, Option.bind_some, picked]
    exact match_ok together
  | some value =>
    simp only [accept?, TokenSource.next?_list, TokenSource.advance_list, List.head?_cons, Option.bind_some, picked,
      List.tail_cons]
    exact match_ok (aligned (taken token (by simp [picked])))

/-- Behind a token that both runs have read nothing needs to be said of the end. -/
theorem expect_bind {wanted : Expectation} {pick : Token → Option α} {next other : α → Parser β}
    (taken : ∀ token, (pick token).isSome = true → pair.takes token)
    (along : ∀ value, pair.Along (next value) (other value)) :
    pair.Follows (expect wanted pick >>= next) (expect wanted pick >>= other) := by
  have missed : (expect wanted pick : Parser α) [] = .error (.ended wanted) := rfl
  apply Follows.of_heads
  · intro _
    rw [bind_of_error missed, bind_of_error missed]
    exact match_error
  · intro short
    rw [bind_of_error missed]
    exact pair.ended short
  · intro token front others _ aligned
    cases picked : pick token with
    | none =>
      have refused (more : List Token) : expect wanted pick (token :: more) =
          .error (.fault (some token.span) (.unexpected wanted token)) := by
        simp [expect, accept?, bind, StateT.bind, Except.bind, picked, unexpected]
      rw [bind_of_error (refused _), bind_of_error (refused _)]
      exact match_error
    | some value =>
      have read (more : List Token) : expect wanted pick (token :: more) = .ok (value, more) :=
        expect_eq_ok.mpr ⟨token, rfl, picked⟩
      rw [bind_of_ok (read _), bind_of_ok (read _)]
      exact along value _ _ (aligned (taken token (by simp [picked])))

theorem expect_follows {wanted : Expectation} {pick : Token → Option α}
    (taken : ∀ token, (pick token).isSome = true → pair.takes token) :
    pair.Follows (expect wanted pick) (expect wanted pick) := by
  have follows : pair.Follows (expect wanted pick >>= Pure.pure) (expect wanted pick >>= Pure.pure) :=
    expect_bind taken fun _ => Follows.pure.along
  simpa using follows

theorem token_follows {kind : Token.Kind} (taken : ∀ token : Token, token.kind = kind → pair.takes token) :
    pair.Follows (token kind) (token kind) :=
  expect_follows fun token found => taken token (isSome_ofKind?.mp found)

theorem token_bind {kind : Token.Kind} {next other : Token → Parser β}
    (taken : ∀ token : Token, token.kind = kind → pair.takes token)
    (along : ∀ value, pair.Along (next value) (other value)) :
    pair.Follows (token kind >>= next) (token kind >>= other) :=
  expect_bind (fun token found => taken token (isSome_ofKind?.mp found)) along

theorem keyword_follows {word : String} (taken : ∀ token : Token, token.kind = .keyword → pair.takes token) :
    pair.Follows (keyword word) (keyword word) := by
  apply expect_follows
  intro token found
  apply taken
  by_cases isWord : token.isKeyword word = true
  · exact (Bool.and_eq_true_iff.mp isWord).1 |> of_decide_eq_true
  · simp [isWord] at found

theorem name_follows {wanted : Expectation} (taken : ∀ token : Token, token.kind = .identifier → pair.takes token) :
    pair.Follows (name wanted) (name wanted) := by
  apply expect_follows
  intro token found
  rw [Option.isSome_map] at found
  exact taken token (isSome_ofKind?.mp found)

theorem eat_follows {kind : Token.Kind} (taken : ∀ token : Token, token.kind = kind → pair.takes token) :
    pair.Follows (eat kind) (eat kind) :=
  (accept?_follows fun token found => taken token (isSome_ofKind?.mp found)).bind fun _ => .pure

/-! Looks at the next token. -/

/-- Both runs take the same way where they have a token before them. At its end the first run takes the way
for other tokens. -/
theorem nextIs_follows {test : Token → Bool} {next other : Bool → Parser α}
    (there : ∀ token front back, pair.aligned (token :: front) back →
      pair.Match (next (test token) (token :: front)) (other (test token) back))
    (absent : pair.Follows (next false) (other false)) :
    pair.Follows (nextIs test >>= next) (nextIs test >>= other) := by
  refine .of_heads (absent.along [] []) absent.out fun token front others together _ => ?_
  rw [nextIs_bind, nextIs_bind]
  exact there token front _ together

theorem either_follows {test : Token → Bool} {yes no others otherwise : Parser α}
    (there : ∀ token front back, pair.aligned (token :: front) back → pair.Match (yes (token :: front)) (others back))
    (absent : pair.Follows no otherwise) :
    pair.Follows (do if ← nextIs test then yes else no) (do if ← nextIs test then others else otherwise) := by
  apply nextIs_follows _ absent
  intro token front back together
  split
  · exact there _ _ _ together
  · exact absent.along _ _ together

theorem peek?_follows {next other : Option Token → Parser α}
    (there : ∀ token front back, pair.aligned (token :: front) back →
      pair.Match (next (some token) (token :: front)) (other (some token) back))
    (absent : pair.Follows (next none) (other none)) :
    pair.Follows (peek? >>= next) (peek? >>= other) := by
  refine .of_heads (absent.along [] []) absent.out fun token front others together _ => ?_
  rw [Parser.peek?_bind, Parser.peek?_bind]
  exact there token front _ together

/-! Loops. -/

/-- The bounds of the loops do not matter as long as they are large enough. -/
private theorem manyFrom_match {first second : Parser (Option α)} (loops : Advances first) (others : Advances second)
    (along : pair.Along first second) (bound other : List Token) (found : List α) {front back : List Token}
    (together : pair.aligned front back) (enough : front.length ≤ bound.length)
    (otherEnough : back.length ≤ other.length) :
    pair.Match (manyFrom first bound found front) (manyFrom second other found back) := by
  -- Both bounds shrink together, each staying above the tokens of its own run.
  induction bound generalizing other found front back with
  | nil =>
    obtain rfl : front = [] := by simpa using enough
    rw [manyFrom_nil loops]
    rcases pair.stop together with rfl | short
    · rw [manyFrom_nil others]
      exact match_ok together
    · exact .inl ⟨short, rfl⟩
  | cons _ bound ih =>
    cases back with
    | nil =>
      cases front with
      | nil =>
        rw [manyFrom_nil loops, manyFrom_nil others]
        exact match_ok together
      | cons token front =>
        obtain ⟨_, impossible, _⟩ := pair.step together
        cases impossible
    | cons token back =>
      obtain ⟨head, other, rfl⟩ : ∃ head tail, other = head :: tail := List.exists_cons_of_length_pos (by
        rw [List.length_cons] at otherEnough
        omega)
      rw [manyFrom]
      apply (along _ _ together).elim
      · intro failure failed departs
        rw [failed]
        exact match_departed departs
      · intro value read short
        rw [read]
        cases value with
        | none => exact .inl ⟨short, rfl⟩
        | some value =>
          change pair.Match (manyFrom first bound (value :: found) []) _
          rw [manyFrom_nil loops]
          exact .inl ⟨short, rfl⟩
      · intro failure failed same
        rw [failed, manyFrom, same]
        exact match_error
      · intro value rest remaining read same aligned
        rw [read, manyFrom, same]
        cases value with
        | none => exact match_ok aligned
        | some value =>
          have fewer := loops.shorter read
          have otherFewer := others.shorter same
          simp only [List.length_cons] at enough otherEnough otherFewer
          exact ih other (value :: found) aligned (by omega) (by omega)

theorem many_follows {first second : Parser (Option α)} (loops : Advances first) (others : Advances second)
    (follows : pair.Follows first second) : pair.Follows (many first) (many second) :=
  ⟨fun _ _ together => manyFrom_match loops others follows.along _ _ [] together (Nat.le_refl _) (Nat.le_refl _),
    fun short => ⟨short, rfl⟩⟩

/-! Nesting. -/

theorem inParens_follows {first second : Parser α} (opens : ∀ token : Token, token.kind = .leftParen → pair.takes token)
    (closes : ∀ token : Token, token.kind = .rightParen → pair.takes token) (inside : pair.Follows first second) :
    pair.Follows (inParens first) (inParens second) :=
  (token_follows opens).bind fun _ => inside.bind fun _ => (token_follows closes).bind fun _ => .pure

end Pairing

end RecordLayout
