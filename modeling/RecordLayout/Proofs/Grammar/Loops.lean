import RecordLayout.Proofs.Grammar.Combinators

/-! Parsers that repeat. The loop reads items until one is absent; since every item takes a token it is
never cut short by its bound. Chains are a first phrase and such a loop of links. -/

namespace RecordLayout.Parser

variable {item : Parser (Option α)} {phrase : Phrase α} {blocks : Token → Bool}

private theorem manyFrom_sound (reads : ReadsOptional item phrase blocks) {bound tokens rest : List Token}
    {found values : List α} (read : manyFrom item bound found tokens = .ok (values, rest)) :
    ∃ front more, tokens = front ++ rest ∧ Phrase.Many phrase front more ∧
      values = found.reverse ++ more := by
  induction bound generalizing found tokens with
  | nil =>
    cases read
    exact ⟨[], [], rfl, .nil, by simp⟩
  | cons _ bound ih =>
    rw [manyFrom] at read
    split at read
    next value after taken =>
      obtain ⟨front, rfl, there⟩ := reads.sound taken
      obtain ⟨back, more, rfl, others, rfl⟩ := ih read
      exact ⟨front ++ back, value :: more, by simp, .cons there others, by simp⟩
    next after taken =>
      cases read
      exact ⟨[], [], (reads.absent taken).symm, .nil, by simp⟩
    next => cases read

theorem many_sound (reads : ReadsOptional item phrase blocks) {tokens rest : List Token}
    {values : List α} (read : many item tokens = .ok (values, rest)) :
    ∃ front, tokens = front ++ rest ∧ Phrase.Many phrase front values := by
  obtain ⟨front, more, same, many, rfl⟩ := manyFrom_sound reads read
  exact ⟨front, same, many⟩

private theorem manyFrom_complete (reads : ReadsOptional item phrase blocks)
    (next : ∀ {front value} (rest), phrase front value → Clear blocks (front ++ rest))
    {front rest : List Token} {values : List α} (many : Phrase.Many phrase front values)
    (clear : Clear blocks rest) (stop : item rest = .ok (none, rest)) {bound : List Token}
    (enough : values.length ≤ bound.length) (found : List α) :
    manyFrom item bound found (front ++ rest) = .ok (found.reverse ++ values, rest) := by
  induction many generalizing bound found with
  | nil =>
    cases bound with
    | nil => simp [manyFrom]
    | cons _ bound => simp [manyFrom, stop]
  | @cons front back value values first others ih =>
    cases bound with
    | nil => simp at enough
    | cons _ bound =>
      have after : Clear blocks (back ++ rest) := by
        cases others with
        | nil => exact clear
        | cons second _ => exact List.append_assoc .. ▸ next _ second
      rw [manyFrom, List.append_assoc, reads.complete first after]
      simpa using ih (by simpa using enough) (value :: found)

theorem length_le_of_many (solid : ∀ {front value}, phrase front value → front ≠ [])
    {front : List Token} {values : List α} (many : Phrase.Many phrase front values) :
    values.length ≤ front.length := by
  induction many with
  | nil => simp
  | cons first _ ih =>
    have some := List.length_pos_iff.mpr (solid first)
    simp only [List.length_cons, List.length_append]
    omega

theorem many_complete (reads : ReadsOptional item phrase blocks)
    (solid : ∀ {front value}, phrase front value → front ≠ [])
    (next : ∀ {front value} (rest), phrase front value → Clear blocks (front ++ rest))
    {front rest : List Token} {values : List α} (several : Phrase.Many phrase front values)
    (clear : Clear blocks rest) (stop : item rest = .ok (none, rest)) :
    many item (front ++ rest) = .ok (values, rest) := by
  have enough : values.length ≤ (front ++ rest).length := by
    have fewer := length_le_of_many solid several
    rw [List.length_append]
    omega
  exact manyFrom_complete reads next several clear stop enough []

/-- Where the loop ends the item is absent, even if the bound is what ended it. -/
theorem many_stops (reads : ReadsOptional item phrase blocks)
    (solid : ∀ {front value}, phrase front value → front ≠ []) {tokens rest : List Token}
    {values : List α} (read : many item tokens = .ok (values, rest)) :
    rest = [] ∨ item rest = .ok (none, rest) := by
  have loop : ∀ (bound : List Token) (found : List α) (tokens : List Token),
      tokens.length ≤ bound.length → manyFrom item bound found tokens = .ok (values, rest) →
      rest = [] ∨ item rest = .ok (none, rest) := by
    intro bound
    induction bound with
    | nil =>
      intro found tokens enough read
      cases read
      exact .inl (by simpa using enough)
    | cons _ bound ih =>
      intro found tokens enough read
      rw [manyFrom] at read
      split at read
      next value after taken =>
        obtain ⟨front, rfl, there⟩ := reads.sound taken
        have some := List.length_pos_iff.mpr (solid there)
        refine ih _ _ ?_ read
        simp only [List.length_append, List.length_cons] at enough
        omega
      next after taken =>
        cases read
        have same := reads.absent taken
        exact .inr (same ▸ taken)
      next => cases read
  exact loop tokens [] tokens (Nat.le_refl _) read

/-! Items take tokens. So as long as there are as many tokens in the bound as there are to read, the bound does not
matter. -/

/-- An item of a loop is absent at the end, and one that is there takes a token. -/
structure Advances (item : Parser (Option α)) : Prop where
  atEnd : item [] = .ok (none, [])
  shorter : ∀ {tokens value rest}, item tokens = .ok (some value, rest) → rest.length < tokens.length

/-- Whatever is read takes a token. -/
def Takes (item : Parser α) : Prop :=
  ∀ tokens value rest, item tokens = .ok (value, rest) → rest.length < tokens.length

private theorem length_lt_of_append {front rest : List Token} (some : front ≠ []) :
    rest.length < (front ++ rest).length := by
  have positive := List.length_pos_iff.mpr some
  rw [List.length_append]
  omega

theorem takes_of_reads {item : Parser α} {sort : Token → Prop} (reads : Reads item phrase blocks)
    (begins : phrase.Begins sort) : Takes item := by
  intro tokens value rest read
  obtain ⟨front, rfl, there⟩ := reads.sound read
  exact length_lt_of_append (begins.nonempty there)

theorem advances_of_reads (reads : ReadsOptional item phrase blocks)
    (solid : ∀ {front value}, phrase front value → front ≠ []) (atEnd : item [] = .ok (none, [])) :
    Advances item := by
  refine ⟨atEnd, fun {tokens value rest} read => ?_⟩
  obtain ⟨front, rfl, there⟩ := reads.sound read
  exact length_lt_of_append (solid there)

/-- A loop goes on with what takes tokens as long as a test on the next token does not end it. -/
theorem advances_unless {item : Parser α} {block : Parser (Option α)} {test : List Token → Bool}
    (shape : ∀ tokens, block tokens =
      if test tokens then .ok (none, tokens) else (do return some (← item) : Parser _) tokens)
    (atEnd : test [] = true) (takes : Takes item) : Advances block := by
  refine ⟨by rw [shape, if_pos atEnd], fun {tokens value rest} read => ?_⟩
  rw [shape] at read
  split at read
  · cases read
  · obtain ⟨found, after, taken, returned⟩ := bind_eq_ok.mp read
    cases returned
    exact takes _ _ _ taken

theorem manyFrom_nil (advances : Advances item) {bound : List Token} {found : List α} :
    manyFrom item bound found [] = .ok (found.reverse, []) := by
  cases bound with
  | nil => rfl
  | cons _ bound => simp [manyFrom, advances.atEnd]

theorem manyFrom_bound (advances : Advances item) {bound other tokens : List Token}
    (enough : tokens.length ≤ bound.length) (also : tokens.length ≤ other.length) (found : List α) :
    manyFrom item bound found tokens = manyFrom item other found tokens := by
  induction bound generalizing other tokens found with
  | nil => rw [List.length_eq_zero_iff.mp (Nat.le_zero.mp enough), manyFrom_nil advances, manyFrom_nil advances]
  | cons token bound ih =>
    cases other with
    | nil => rw [List.length_eq_zero_iff.mp (Nat.le_zero.mp also), manyFrom_nil advances, manyFrom_nil advances]
    | cons another other =>
      rw [manyFrom, manyFrom]
      split
      next value rest taken =>
        have fewer := advances.shorter taken
        rw [List.length_cons] at enough also
        have first : rest.length ≤ bound.length := by omega
        have second : rest.length ≤ other.length := by omega
        exact ih first second (value :: found)
      next => rfl
      next => rfl

/-! Items before others. The loop goes on behind an item as if it began there. -/

private theorem manyFrom_append (bound tokens : List Token) (found before : List α) :
    manyFrom item bound (found ++ before) tokens =
      (manyFrom item bound found tokens).map fun read => (before.reverse ++ read.1, read.2) := by
  induction bound generalizing found tokens with
  | nil => simp [manyFrom, Except.map]
  | cons token bound ih =>
    rw [manyFrom, manyFrom]
    split
    next value rest taken => exact ih rest (value :: found)
    next => simp [Except.map]
    next => rfl

/-- The items of a phrase come before all others, and what is wrong with those is wrong with all. -/
theorem many_append (reads : ReadsOptional item phrase never)
    (solid : ∀ {front value}, phrase front value → front ≠ []) (ended : item [] = .ok (none, []))
    {front : List Token} {values : List α} (several : Phrase.Many phrase front values) (rest : List Token) :
    many item (front ++ rest) = (many item rest).map fun read => (values ++ read.1, read.2) := by
  induction several with
  | nil =>
    rw [List.nil_append]
    cases many item rest <;> rfl
  | @cons front back value values first others ih =>
    obtain ⟨token, front, rfl⟩ := List.exists_cons_of_ne_nil (solid first)
    have taken := reads.complete first (clear_never (back ++ rest))
    have advances := advances_of_reads reads solid ended
    have fewer : (back ++ rest).length ≤ (front ++ (back ++ rest)).length := by simp
    have after := (manyFrom_append (front ++ (back ++ rest)) (back ++ rest) [] [value]).trans
      (congrArg _ ((manyFrom_bound advances fewer (Nat.le_refl _) []).trans ih))
    rw [List.append_assoc, many, TokenSource.bound_list, List.cons_append, manyFrom, ← List.cons_append, taken]
    refine after.trans ?_
    cases many item rest <;> rfl

/-! Items of loops. -/

/-- An item that is absent exactly where a test on the tokens says so. -/
theorem until_reads {block : Parser (Option α)} {item : Parser α} {phrase : Phrase α}
    {test : List Token → Bool}
    (shape : ∀ tokens, block tokens =
      if test tokens then .ok (none, tokens) else (do return some (← item) : Parser _) tokens)
    (reads : Reads item phrase never)
    (begins : ∀ {front value} (rest), phrase front value → test (front ++ rest) = false) :
    ReadsOptional block phrase never := by
  refine ⟨?_, ?_, ?_⟩
  · intro tokens value rest read
    rw [shape] at read
    split at read
    · cases read
    · obtain ⟨found, after, taken, returned⟩ := bind_eq_ok.mp read
      cases returned
      exact reads.sound taken
  · intro tokens rest read
    rw [shape] at read
    split at read
    · cases read
      rfl
    · obtain ⟨found, after, taken, returned⟩ := bind_eq_ok.mp read
      cases returned
  · intro front value rest there clear
    rw [shape, if_neg (by simp [begins rest there])]
    exact bind_eq_ok.mpr ⟨value, rest, reads.complete there clear, rfl⟩

/-- An item behind a token of a kind. -/
theorem after_reads {item : Parser α} {phrase : Phrase α} {blocks : Token → Bool} {kind : Token.Kind}
    (reads : Reads item phrase blocks) :
    ReadsOptional (do if ← eat kind then return some (← item) else return none)
      (Phrase.After kind phrase) blocks := by
  refine ⟨?_, ?_, ?_⟩
  · intro tokens value rest read
    obtain ⟨found, after, eaten, continued⟩ := bind_eq_ok.mp read
    rcases eat_eq_ok.mp eaten with ⟨rfl, token, rfl, mark⟩ | ⟨rfl, rfl, _⟩
    · simp only [↓reduceIte] at continued
      obtain ⟨result, _, taken, returned⟩ := bind_eq_ok.mp continued
      cases returned
      obtain ⟨front, rfl, there⟩ := reads.sound taken
      exact ⟨token :: front, rfl, .mk mark there⟩
    · simp only [Bool.false_eq_true, if_false] at continued
      cases continued
  · intro tokens rest read
    obtain ⟨found, after, eaten, continued⟩ := bind_eq_ok.mp read
    rcases eat_eq_ok.mp eaten with ⟨rfl, token, rfl, mark⟩ | ⟨rfl, rfl, _⟩
    · simp only [↓reduceIte] at continued
      obtain ⟨result, _, taken, returned⟩ := bind_eq_ok.mp continued
      cases returned
    · simp only [Bool.false_eq_true, if_false] at continued
      cases continued
      rfl
  · intro front value rest behind clear
    cases behind with
    | mk mark there =>
      refine bind_eq_ok.mpr ⟨true, _, eat_eq_ok.mpr (.inl ⟨rfl, _, rfl, mark⟩), ?_⟩
      exact bind_eq_ok.mpr ⟨value, rest, reads.complete there clear, rfl⟩

theorem after_absent {item : Parser α} {kind : Token.Kind} {rest : List Token}
    (clear : Clear (·.kind == kind) rest) :
    (do if ← eat kind then return some (← item) else return none : Parser (Option α)) rest =
      .ok (none, rest) :=
  bind_eq_ok.mpr ⟨false, rest, eat_eq_ok.mpr (.inr ⟨rfl, rfl, clear⟩), rfl⟩

theorem inBraces_eq {item : Parser α} (tokens : List Token) :
    (do if (← isAtEnd) || (← nextIsKind .rightBrace) then return none else return some (← item) :
        Parser (Option α)) tokens =
      if tokens.isEmpty || tokens.head?.any (·.kind == .rightBrace) then .ok (none, tokens)
      else (do return some (← item) : Parser _) tokens := by
  simp only [bind, StateT.bind, Except.bind, isAtEnd_apply, nextIsKind_apply]
  split
  next => rfl
  next => rfl

/-- Items up to a closing brace. -/
theorem manyInBraces_reads {item : Parser α} {phrase : Phrase α} (reads : Reads item phrase never)
    (begins : Phrase.Begins phrase (·.kind ≠ .rightBrace)) :
    Reads (manyInBraces item) (Phrase.Many phrase) (·.kind != .rightBrace) := by
  have each := until_reads inBraces_eq reads fun rest there => by
    obtain ⟨token, others, rfl, other⟩ := begins _ _ there
    simp [other]
  refine ⟨fun read => many_sound each read, fun {front values rest} several clear => ?_⟩
  refine many_complete each begins.nonempty (fun _ _ => clear_never _) several (clear_never _) ?_
  rw [inBraces_eq, if_pos]
  cases rest with
  | nil => rfl
  | cons token others => simpa using clear_cons.mp clear

/-! Chains. -/

variable {first : Parser α} {link : Parser (Option β)} {firstPhrase : Phrase α} {linkPhrase : Phrase β}

/-- A first phrase and the links after it. A link begins with a token that the phrases before it leave
alone, and none is taken where no such token follows. -/
theorem chain_reads {opens : Token → Bool} (join : α → β → α)
    (firstReads : Reads first firstPhrase blocks) (linkReads : ReadsOptional link linkPhrase blocks)
    (begins : Phrase.Begins linkPhrase fun token => opens token = true)
    (apart : ∀ token, opens token = true → blocks token = false)
    (absent : ∀ {rest}, Clear opens rest → link rest = .ok (none, rest)) :
    Reads (do let start ← first; let others ← many link; return others.foldl join start)
      (Phrase.Chain firstPhrase linkPhrase join) (fun token => opens token || blocks token) := by
  have next : ∀ {front value} (rest), linkPhrase front value → Clear blocks (front ++ rest) := by
    intro front value rest there
    obtain ⟨token, others, rfl, opened⟩ := begins _ _ there
    simpa using apart token opened
  refine ⟨?_, ?_⟩
  · intro tokens value rest read
    obtain ⟨start, after, taken, read⟩ := bind_eq_ok.mp read
    obtain ⟨others, last, repeated, returned⟩ := bind_eq_ok.mp read
    obtain ⟨rfl, rfl⟩ := pure_eq_ok.mp returned
    obtain ⟨front, rfl, there⟩ := firstReads.sound taken
    obtain ⟨back, rfl, links⟩ := many_sound linkReads repeated
    exact ⟨front ++ back, by simp, Phrase.Chain.of_many (.single there) links⟩
  · intro tokens value rest chain clear
    obtain ⟨front, back, start, values, rfl, there, links, rfl⟩ := chain.exists_many
    obtain ⟨clearOpens, clearBlocks⟩ := clear_or.mp clear
    have after : Clear blocks (back ++ rest) := by
      cases links with
      | nil => exact clearBlocks
      | cons second _ => exact List.append_assoc .. ▸ next _ second
    rw [List.append_assoc]
    refine bind_eq_ok.mpr ⟨start, _, firstReads.complete there after, ?_⟩
    refine bind_eq_ok.mpr ⟨values, rest, ?_, rfl⟩
    exact many_complete linkReads begins.nonempty next links clearBlocks (absent clearOpens)

end RecordLayout.Parser
