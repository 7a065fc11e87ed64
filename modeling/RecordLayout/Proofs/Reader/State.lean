import Mathlib.Data.List.DropRight
import RecordLayout.Grammar.Cursor

/-! What a failure leaves behind. A parser that fails gives its source up, and with it what would say where it stood and
how deep the construct was nested in which it failed. A reader has both, and all the tokens there are, those already
read too. -/

namespace RecordLayout

/-- A place among tokens, with how deep constructs nest there and how deep they may. -/
structure Reader where
  tokens : List Token
  place : Nat
  depth : Nat
  limit : Nat

namespace Reader

/-- The first place from the given one on that is not before a comment. -/
def solidFrom (tokens : List Token) (place : Nat) : Nat :=
  place + (tokens.drop place).findIdx (·.kind ≠ .comment)

/-- The place behind the next token. -/
def next (reader : Reader) : Reader :=
  { reader with place := solidFrom reader.tokens (reader.place + 1) }

/-- The same place, one level deeper. -/
def deeper (reader : Reader) : Reader :=
  { reader with depth := reader.depth + 1 }

/-- The same place, one level less deep. -/
def shallower (reader : Reader) : Reader :=
  { reader with depth := reader.depth - 1 }

/-- The tokens with an end of input behind them, unless it is there. -/
def closed (tokens : List Token) : List Token :=
  match tokens.getLast? with
  | none => [⟨.endOfInput, none, .empty (.start ⟨"", ""⟩)⟩]
  | some last =>
    if last.kind = .endOfInput then tokens else tokens ++ [⟨.endOfInput, none, .empty last.span.stop⟩]

/-- Where the reading of tokens begins. -/
def start (nesting : Nat) (tokens : List Token) : Reader :=
  ⟨closed tokens, solidFrom (closed tokens) 0, 0, nesting⟩

/-- The tokens end, and the place is before one of them that is no comment. -/
structure Sound (reader : Reader) : Prop where
  ends : ∃ last, reader.tokens.getLast? = some last ∧ last.kind = .endOfInput
  solid : ∃ token, reader.tokens[reader.place]? = some token ∧ token.kind ≠ .comment

/-- What reading may lead to: no place farther back, and none past an end of input. All else is as before. -/
structure Reaches (before after : Reader) : Prop where
  sound : after.Sound
  tokens : after.tokens = before.tokens
  limit : after.limit = before.limit
  depth : after.depth = before.depth
  forward : before.place ≤ after.place
  inside : ∀ place token, before.place ≤ place → before.tokens[place]? = some token → token.kind = .endOfInput →
    after.place ≤ place

theorem Sound.deeper {reader : Reader} (sound : reader.Sound) : reader.deeper.Sound :=
  ⟨sound.ends, sound.solid⟩

namespace Reaches

variable {before middle after : Reader}

theorem refl (sound : before.Sound) : before.Reaches before :=
  ⟨sound, rfl, rfl, rfl, Nat.le_refl _, fun _ _ behind _ _ => behind⟩

theorem trans (first : before.Reaches middle) (second : middle.Reaches after) : before.Reaches after where
  sound := second.sound
  tokens := second.tokens.trans first.tokens
  limit := second.limit.trans first.limit
  depth := second.depth.trans first.depth
  forward := Nat.le_trans first.forward second.forward
  inside place token behind there ends := by
    have unpassed := first.inside place token behind there ends
    exact second.inside place token unpassed (by rwa [first.tokens]) ends

/-- From one level deeper and up again. -/
theorem shallower (reaches : before.deeper.Reaches after) : before.Reaches after.shallower where
  sound := ⟨reaches.sound.ends, reaches.sound.solid⟩
  tokens := reaches.tokens
  limit := reaches.limit
  depth := by rw [Reader.shallower, reaches.depth, deeper, Nat.add_sub_cancel]
  forward := reaches.forward
  inside := reaches.inside

/-- Nothing but the place has to be put back. -/
theorem back (reaches : before.Reaches after) : { after with place := before.place } = before := by
  rw [reaches.tokens, reaches.limit, reaches.depth]

end Reaches

/-! ### Passing over comments -/

variable {tokens : List Token} {token : Token} {place far : Nat}

theorem solidFrom_le (later : place ≤ far) (there : tokens[far]? = some token) (solid : token.kind ≠ .comment) :
    solidFrom tokens place ≤ far := by
  by_contra beyond
  have before : far - place < (tokens.drop place).findIdx (·.kind ≠ .comment) := by
    unfold solidFrom at beyond
    omega
  have skipped := List.not_of_lt_findIdx before
  have same : (tokens.drop place)[far - place]? = some token := by
    rw [List.getElem?_drop, Nat.add_sub_cancel' later, there]
  rw [List.getElem?_eq_some_iff] at same
  obtain ⟨_, same⟩ := same
  rw [same] at skipped
  exact solid (by simpa using skipped)

theorem exists_solid_solidFrom (later : place ≤ far) (there : tokens[far]? = some token)
    (solid : token.kind ≠ .comment) :
    ∃ found, tokens[solidFrom tokens place]? = some found ∧ found.kind ≠ .comment := by
  have member : token ∈ tokens.drop place := by
    apply List.mem_of_getElem? (i := far - place)
    rw [List.getElem?_drop, Nat.add_sub_cancel' later, there]
  have inside : (tokens.drop place).findIdx (·.kind ≠ .comment) < (tokens.drop place).length :=
    List.findIdx_lt_length.mpr ⟨token, member, by simpa using solid⟩
  refine ⟨(tokens.drop place)[(tokens.drop place).findIdx (·.kind ≠ .comment)], ?_, ?_⟩
  · rw [solidFrom, ← List.getElem?_drop, List.getElem?_eq_getElem inside]
  · simpa using List.findIdx_getElem (w := inside)

theorem start_drop_solidFrom (tokens : List Token) (place : Nat) :
    Cursor.start (tokens.drop (solidFrom tokens place)) = Cursor.start (tokens.drop place) := by
  have dropped : tokens.drop (solidFrom tokens place) = (tokens.drop place).dropWhile (·.kind = .comment) := by
    rw [List.dropWhile_eq_drop_findIdx_not, List.drop_drop, solidFrom]
    simp
  simp only [Cursor.start, dropped, List.dropWhile_idempotent]

/-! ### Where reading begins -/

theorem getLast?_closed (tokens : List Token) :
    ∃ last, (closed tokens).getLast? = some last ∧ last.kind = .endOfInput := by
  unfold closed
  split
  next => exact ⟨_, rfl, rfl⟩
  next last there =>
    split
    next ends => exact ⟨last, there, ends⟩
    next => exact ⟨_, List.getLast?_concat .., rfl⟩

theorem start_sound (nesting : Nat) (tokens : List Token) : (start nesting tokens).Sound := by
  obtain ⟨last, there, ends⟩ := getLast?_closed tokens
  refine ⟨⟨last, there, ends⟩, ?_⟩
  rw [List.getLast?_eq_getElem?] at there
  exact exists_solid_solidFrom (Nat.zero_le _) there (by simp [ends])

/-! ### The next token -/

variable {reader : Reader}

/-- A token that does not end the input has others behind it. -/
theorem Sound.reaches_next (sound : reader.Sound) (there : reader.tokens[reader.place]? = some token)
    (inside : token.kind ≠ .endOfInput) : reader.Reaches reader.next ∧ reader.place < reader.next.place := by
  obtain ⟨last, final, ends⟩ := sound.ends
  rw [List.getLast?_eq_getElem?] at final
  have behind {place : Nat} {token : Token} (later : reader.place ≤ place) (found : reader.tokens[place]? = some token)
      (ends : token.kind = .endOfInput) : reader.place + 1 ≤ place := by
    by_contra same
    obtain rfl : place = reader.place := by omega
    rw [there, Option.some.injEq] at found
    exact inside (found ▸ ends)
  have within : reader.place < reader.tokens.length := (List.getElem?_eq_some_iff.mp there).1
  have more := behind (by omega) final ends
  have solid {token : Token} (ends : token.kind = .endOfInput) : token.kind ≠ .comment := by simp [ends]
  have forward : reader.place < reader.next.place := Nat.lt_of_lt_of_le (Nat.lt_succ_self _) (Nat.le_add_right _ _)
  refine ⟨⟨⟨sound.ends, ?_⟩, rfl, rfl, rfl, Nat.le_of_lt forward, ?_⟩, forward⟩
  · exact exists_solid_solidFrom more final (solid ends)
  · intro place token later found ends
    exact solidFrom_le (behind later found ends) found (solid ends)

/-! ### Places as cursors -/

/-- The place as one that has forgotten what is before it. -/
def cursor (reader : Reader) : Cursor :=
  .start (reader.tokens.drop reader.place)

theorem Sound.ahead_cursor (sound : reader.Sound) : reader.cursor.ahead = reader.tokens.drop reader.place := by
  obtain ⟨token, there, solid⟩ := sound.solid
  obtain ⟨within, rfl⟩ := List.getElem?_eq_some_iff.mp there
  change (reader.tokens.drop reader.place).dropWhile _ = _
  rw [List.drop_eq_getElem_cons within]
  exact List.dropWhile_cons_of_neg (by simpa using solid)

theorem Sound.next?_cursor (sound : reader.Sound) (there : reader.tokens[reader.place]? = some token) :
    TokenSource.next? reader.cursor = if token.kind = .endOfInput then none else some token := by
  change reader.cursor.ahead.head?.filter _ = _
  rw [sound.ahead_cursor, List.head?_drop, there, Option.filter_some]
  split <;> simp_all

/-- For other kinds it makes no difference that the end of input is not found ahead. -/
theorem Sound.any_next?_cursor (sound : reader.Sound) {kind : Token.Kind} (inside : kind ≠ .endOfInput) :
    (TokenSource.next? reader.cursor).any (·.kind == kind) =
      (reader.tokens[reader.place]?).any (·.kind == kind) := by
  obtain ⟨token, there, _⟩ := sound.solid
  rw [sound.next?_cursor there, there]
  split
  next ends => simp [ends, inside.symm]
  next => rfl

/-- A token that is found ahead is one that the place can be moved behind. -/
theorem Sound.there_of_next? (sound : reader.Sound) (found : TokenSource.next? reader.cursor = some token) :
    reader.tokens[reader.place]? = some token ∧ token.kind ≠ .endOfInput := by
  obtain ⟨first, there, _⟩ := sound.solid
  rw [sound.next?_cursor there] at found
  split at found
  next => cases found
  next inside =>
    cases found
    exact ⟨there, inside⟩

theorem Sound.advance_cursor (sound : reader.Sound) (there : reader.tokens[reader.place]? = some token) :
    TokenSource.advance reader.cursor = (if token.kind = .endOfInput then reader else reader.next).cursor := by
  obtain ⟨within, rfl⟩ := List.getElem?_eq_some_iff.mp there
  have ahead := sound.ahead_cursor
  rw [List.drop_eq_getElem_cons within] at ahead
  change Cursor.advance _ = _
  rw [Cursor.advance, ahead]
  change (if _ then _ else _) = _
  split
  next => rfl
  next => exact (start_drop_solidFrom _ _).symm

theorem Sound.length_bound_cursor (sound : reader.Sound) :
    (TokenSource.bound reader.cursor).length = reader.tokens.length - reader.place := by
  change reader.cursor.ahead.length = _
  rw [sound.ahead_cursor, List.length_drop]

/-- In one run there are no two places with the same tokens ahead. -/
theorem Reaches.eq_of_cursor {after : Reader} (reaches : reader.Reaches after) (sound : reader.Sound)
    (same : after.cursor = reader.cursor) : after = reader := by
  have lengths := reaches.sound.length_bound_cursor
  rw [same, sound.length_bound_cursor, reaches.tokens] at lengths
  obtain ⟨_, there, _⟩ := reaches.sound.solid
  have within := (List.getElem?_eq_some_iff.mp there).1
  have forward := reaches.forward
  rw [reaches.tokens] at within
  have place : after.place = reader.place := by omega
  rw [← reaches.back, ← place]

end Reader

end RecordLayout
