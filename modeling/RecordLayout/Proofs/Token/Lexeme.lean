import RecordLayout.Proofs.Token.Finds
import RecordLayout.Proofs.Token.Names

/-! The characters of one token. No token looks further than one character beyond its own, so it is found
again where its characters stand alone, and where a line break follows them. -/

namespace RecordLayout.Token

/-! How a token begins. -/

/-- A minus before a digit that no operand touches. -/
def SignsNumeral (touching : Bool) (c : Char) (rest : List Char) : Prop :=
  c = '-' ∧ rest.head?.any Char.isDigit = true ∧ touching = false

def BeginsComment (c : Char) (rest : List Char) : Prop :=
  c = '/' ∧ rest.head? = some '/'

/-- The forms that a token at the front of a text may have. -/
inductive Shape (touching : Bool) (c : Char) (rest : List Char) : Kind → Nat → Prop where
  | numeral {kind extent} (starts : c.isDigit = true ∨ SignsNumeral touching c rest)
      (read : numeral rest = .token kind extent) : Shape touching c rest kind extent
  | word {kind extent} (letter : c.isAlpha = true) (read : word c rest = .token kind extent) :
      Shape touching c rest kind extent
  | quoted {literal kind extent} (opens : c = '\x22' ∧ literal = .string ∨ c = '\x27' ∧ literal = .char)
      (read : quoted c literal rest = .token kind extent) : Shape touching c rest kind extent
  | comment {extent} (begins : BeginsComment c rest) (line : (rest.takeWhile (· ≠ '\n')).length = extent) :
      Shape touching c rest .comment extent
  | operator {kind extent} (unsigned : ¬ SignsNumeral touching c rest) (single : ¬ BeginsComment c rest)
      (read : operator? c rest.head? = some (kind, extent)) : Shape touching c rest kind extent

/-- What operators begin with begins nothing else, a sign and a comment apart. -/
theorem operator?_plain {c : Char} {next : Option Char} {found : Kind × Nat} (read : operator? c next = some found) :
    isSpace c = false ∧ c.isDigit = false ∧ c.isAlpha = false ∧ c ≠ '\x22' ∧ c ≠ '\x27' := by
  unfold operator? at read
  split at read
  all_goals try decide
  obtain ⟨_, punctuation, _⟩ := Option.map_eq_some_iff.mp read
  unfold punctuation? at punctuation
  split at punctuation
  all_goals first | decide | cases punctuation

theorem shape_of_front {touching : Bool} {c : Char} {rest : List Char} {kind : Kind} {extent : Nat}
    (found : front touching c rest = .token kind extent) : Shape touching c rest kind extent := by
  unfold front at found
  split at found
  next => cases found
  split at found
  next digit => exact .numeral (.inl digit) found
  split at found
  next sign => exact .numeral (.inr ⟨sign.1, sign.2.1, by simpa using sign.2.2⟩) found
  next unsigned =>
    split at found
    next letter => exact .word letter found
    split at found
    next quote => exact .quoted (.inl ⟨quote, rfl⟩) found
    split at found
    next quote => exact .quoted (.inr ⟨quote, rfl⟩) found
    split at found
    next slashes =>
      cases found
      exact .comment slashes rfl
    next single =>
      split at found
      next read =>
        cases found
        refine .operator (fun sign => unsigned ⟨sign.1, sign.2.1, by simp [sign.2.2]⟩) single read
      next => split at found <;> cases found

theorem Shape.front_eq {touching : Bool} {c : Char} {rest : List Char} {kind : Kind} {extent : Nat}
    (shape : Shape touching c rest kind extent) : front touching c rest = .token kind extent := by
  unfold front
  cases shape with
  | numeral starts read =>
    rcases starts with digit | ⟨rfl, next, apart⟩
    · have noSpace : isSpace c = false := not_isSpace (toNat_of_isDigit digit).1
      rw [if_neg (by simp [noSpace]), if_pos digit, read]
    · rw [if_neg (by decide), if_neg (by decide), if_pos ⟨rfl, next, by simp [apart]⟩, read]
  | word letter read =>
    have noSpace : isSpace c = false := not_isSpace (by have := toNat_of_isAlpha letter; omega)
    have noSign : c ≠ '-' := by
      rintro rfl
      exact absurd letter (by decide)
    rw [if_neg (by simp [noSpace]), if_neg (by simp [not_isDigit_of_isAlpha letter]), if_neg (by simp [noSign]),
      if_pos letter, read]
  | quoted opens read =>
    rcases opens with ⟨rfl, rfl⟩ | ⟨rfl, rfl⟩
    · rw [if_neg (by decide), if_neg (by decide), if_neg (by simp), if_neg (by decide), if_pos rfl, read]
    · rw [if_neg (by decide), if_neg (by decide), if_neg (by simp), if_neg (by decide), if_neg (by decide),
        if_pos rfl, read]
  | comment begins line =>
    obtain ⟨rfl, next⟩ := begins
    rw [if_neg (by decide), if_neg (by decide), if_neg (by simp), if_neg (by decide), if_neg (by decide),
      if_neg (by decide), if_pos ⟨rfl, next⟩, line]
  | operator unsigned single read =>
    obtain ⟨noSpace, noDigit, noLetter, noString, noChar⟩ := operator?_plain read
    have noSign : ¬ (c = '-' ∧ rest.head?.any Char.isDigit = true ∧ ¬ touching = true) :=
      fun sign => unsigned ⟨sign.1, sign.2.1, by simpa using sign.2.2⟩
    have noComment : ¬ (c = '/' ∧ rest.head? = some '/') := single
    rw [if_neg (by simp [noSpace]), if_neg (by simp [noDigit]), if_neg noSign, if_neg (by simp [noLetter]),
      if_neg noString, if_neg noChar, if_neg noComment, read]

theorem front_eq_token {touching : Bool} {c : Char} {rest : List Char} {kind : Kind} {extent : Nat} :
    front touching c rest = .token kind extent ↔ Shape touching c rest kind extent :=
  ⟨shape_of_front, Shape.front_eq⟩

theorem isSpace_of_front {touching : Bool} {c : Char} {rest : List Char} (found : front touching c rest = .space) :
    isSpace c = true := by
  unfold front numeral word quoted at found
  grind

/-! What follows a token. -/

/-- The text after a token may be cut off or broken off by a line break, but does not go on otherwise than
before. -/
def BreaksOff (before after : List Char) : Prop :=
  ∀ d ∈ after.head?, d = '\n' ∨ before.head? = some d

namespace BreaksOff

variable {before after : List Char}

theorem stop {good : Char → Prop} (breaks : BreaksOff before after) (line : good '\n')
    (stops : ∀ d ∈ before.head?, good d) : ∀ d ∈ after.head?, good d := by
  intro d first
  rcases breaks d first with rfl | same
  · exact line
  · exact stops d same

theorem nil : BreaksOff before [] := by
  simp [BreaksOff]

/-- What followed is still there, and a line break is put behind it. -/
theorem append_line : BreaksOff before (before ++ '\n' :: after) := by
  cases before <;> simp [BreaksOff]

end BreaksOff

variable {rest after : List Char} {extent : Nat}

theorem head?_take_append {d : Char} (first : rest.head? = some d) (some : 0 < extent) :
    (rest.take extent ++ after).head? = Option.some d := by
  cases rest with
  | nil => cases first
  | cons c rest =>
    obtain ⟨extent, rfl⟩ := Nat.exists_eq_add_one.mpr some
    simpa using first

/-! Words and comments: as far as a test on characters holds. -/

theorem exists_front (test : Char → Bool) (rest : List Char) :
    ∃ front back, rest = front ++ back ∧ (∀ d ∈ front, test d = true) ∧ ∀ d ∈ back.head?, test d = false := by
  refine ⟨rest.takeWhile test, rest.dropWhile test, List.takeWhile_append_dropWhile.symm,
    List.all_eq_true.mp List.all_takeWhile, fun d first => ?_⟩
  have stops := List.head?_dropWhile_not test rest
  rw [Option.mem_def.mp first] at stops
  exact stops

theorem takeWhile_breaksOff {test : Char → Bool} (line : test '\n' = false)
    (breaks : BreaksOff (rest.drop (rest.takeWhile test).length) after) :
    (rest.take (rest.takeWhile test).length ++ after).takeWhile test = rest.takeWhile test := by
  obtain ⟨front, back, rfl, inside, stop⟩ := exists_front test rest
  have same : (front ++ back).takeWhile test = front := takeWhile_append_stop inside stop
  rw [same, List.drop_left] at breaks
  rw [same, List.take_left]
  exact takeWhile_append_stop inside (breaks.stop line stop)

/-- A character that fails the test is not among those taken. -/
theorem takeWhile_excludes {test : Char → Bool} {d : Char} (fails : test d = false) (rest : List Char) :
    d ∉ rest.take (rest.takeWhile test).length := by
  rw [← List.prefix_iff_eq_take.mp (List.takeWhile_prefix test)]
  intro member
  rw [List.all_eq_true.mp List.all_takeWhile _ member] at fails
  cases fails

/-! Numerals. -/

theorem exists_digits (rest : List Char) : ∃ front after, rest = front ++ after ∧ Digits front after := by
  obtain ⟨digits, back, rfl, inside, stop⟩ := exists_front Char.isDigit rest
  cases back with
  | nil => exact ⟨digits, [], rfl, .whole inside (by simp)⟩
  | cons c back =>
    by_cases point : c = '.'
    · obtain ⟨fraction, after, rfl, behind, stop⟩ := exists_front Char.isDigit back
      exact ⟨digits ++ '.' :: fraction, after, by simp [point], .point inside behind stop⟩
    · refine ⟨digits, c :: back, rfl, .whole inside fun d first => ?_⟩
      cases first
      exact ⟨stop c rfl, point⟩

theorem numeral_breaksOff {kind : Kind} (read : numeral rest = .token kind extent)
    (breaks : BreaksOff (rest.drop extent) after) : numeral (rest.take extent ++ after) = .token kind extent := by
  obtain ⟨front, back, rfl, digits⟩ := exists_digits rest
  obtain ⟨known, rfl⟩ := (numeral_eq_token digits).mp read
  rw [List.drop_left] at breaks
  rw [List.take_left]
  apply (numeral_eq_token _).mpr ⟨known, rfl⟩
  cases digits with
  | whole inside stop => exact .whole inside (breaks.stop (by decide) stop)
  | point inside behind stop => exact .point inside behind (breaks.stop (by decide) stop)

theorem numeral_extent_le {kind : Kind} (read : numeral rest = .token kind extent) : extent ≤ rest.length := by
  obtain ⟨front, back, rfl, digits⟩ := exists_digits rest
  obtain ⟨_, rfl⟩ := (numeral_eq_token digits).mp read
  simp

theorem numeral_excludes {d : Char} {kind : Kind} (noDigit : d.isDigit = false) (noPoint : d ≠ '.')
    (read : numeral rest = .token kind extent) : d ∉ rest.take extent := by
  obtain ⟨front, back, rfl, digits⟩ := exists_digits rest
  obtain ⟨_, rfl⟩ := (numeral_eq_token digits).mp read
  rw [List.take_left]
  have outside {chars : List Char} (inside : ∀ e ∈ chars, e.isDigit = true) : d ∉ chars := fun member => by
    rw [inside d member] at noDigit
    cases noDigit
  cases digits with
  | whole inside _ => exact outside inside
  | point inside behind _ => simp [outside inside, outside behind, noPoint]

/-! Literals. Nothing behind the closing quote is looked at. -/

theorem closing?_cons {quote c : Char} {count : Nat} (plain : c ≠ '\\') :
    closing? quote count (c :: rest) = if c = quote then some (count + 1) else closing? quote (count + 1) rest := by
  rw [closing?]
  · rintro rfl
    exact absurd rfl plain
  · intro _ _ same
    exact absurd same plain

theorem closing?_eq_some {quote : Char} {count total : Nat} (found : closing? quote count rest = some total) :
    ∃ content after, rest = content ++ quote :: after ∧ total = count + content.length + 1 ∧
      ∀ more, closing? quote count (content ++ quote :: more) = some total := by
  fun_induction closing? quote count rest with
  | case1 => cases found
  | case2 => cases found
  | case3 count c rest ih =>
    obtain ⟨content, after, rfl, rfl, again⟩ := ih found
    refine ⟨'\\' :: c :: content, after, rfl, by simp; omega, fun more => ?_⟩
    rw [List.cons_append, List.cons_append, closing?, again]
  | case4 count rest notLast notEscape =>
    cases found
    have plain : quote ≠ '\\' := by
      rintro rfl
      cases rest with
      | nil => exact notLast rfl rfl
      | cons c rest => exact notEscape c rest rfl rfl
    exact ⟨[], rest, rfl, rfl, fun more => by rw [List.nil_append, closing?_cons plain, if_pos rfl]⟩
  | case5 count c rest notLast notEscape other ih =>
    obtain ⟨content, after, rfl, rfl, again⟩ := ih found
    have plain : c ≠ '\\' := by
      rintro rfl
      cases content with
      | nil => exact notEscape quote after rfl rfl
      | cons d content => exact notEscape d _ rfl rfl
    refine ⟨c :: content, after, rfl, by simp; omega, fun more => ?_⟩
    rw [List.cons_append, closing?_cons plain, if_neg other, again]

theorem quoted_eq_token {quote : Char} {literal kind : Kind} (read : quoted quote literal rest = .token kind extent) :
    kind = literal ∧ ∃ content after, rest = content ++ quote :: after ∧ extent = content.length + 1 ∧
      ∀ more, quoted quote literal (content ++ quote :: more) = .token kind extent := by
  have same := kind_of_quoted read
  cases found : closing? quote 0 rest with
  | none => simp [quoted, found] at read
  | some total =>
    obtain ⟨content, after, rfl, size, again⟩ := closing?_eq_some found
    rw [Nat.zero_add] at size
    subst size
    have taken (more : List Char) : (content ++ quote :: more).take (content.length + 1) = content ++ [quote] := by
      simp [List.take_append]
    have shape (more : List Char) : quoted quote literal (content ++ quote :: more) =
        if literal = .char ∧ ¬ isOneChar content then .fault (.notOneChar (String.ofList content)) (content.length + 1)
        else .token literal (content.length + 1) := by
      simp [quoted, again, taken]
    rw [shape] at read
    refine ⟨same, content, after, rfl, ?_, fun more => (shape more).trans read⟩
    split at read <;> cases read
    rfl

/-! Operators. -/

/-- An operator is its first character, or that and the next one. -/
theorem operator?_eq_some {c : Char} {next : Option Char} {kind : Kind} (read : operator? c next = some (kind, extent)) :
    extent = 0 ∧ kind.symbol? = some (String.ofList [c]) ∨
      ∃ d, next = some d ∧ extent = 1 ∧ kind.symbol? = some (String.ofList [c, d]) := by
  unfold operator? at read
  split at read
  case h_14 =>
    obtain ⟨_, punctuation, same⟩ := Option.map_eq_some_iff.mp read
    cases same
    unfold punctuation? at punctuation
    split at punctuation <;> cases punctuation <;> exact .inl ⟨rfl, rfl⟩
  all_goals cases read
  all_goals first
    | exact .inl ⟨rfl, rfl⟩
    | exact .inr ⟨_, rfl, rfl, rfl⟩

theorem operator?_alone {c : Char} {next other : Option Char} {kind : Kind}
    (read : operator? c next = some (kind, 0)) (cut : other = none ∨ other = some '\n') :
    operator? c other = some (kind, 0) := by
  unfold operator? at read
  split at read
  case h_14 =>
    obtain ⟨_, punctuation, same⟩ := Option.map_eq_some_iff.mp read
    cases same
    unfold punctuation? at punctuation
    split at punctuation <;> cases punctuation <;> rcases cut with rfl | rfl <;> rfl
  all_goals cases read
  all_goals rcases cut with rfl | rfl <;> rfl

theorem operator?_breaksOff {c : Char} {kind : Kind} (read : operator? c rest.head? = some (kind, extent))
    (breaks : BreaksOff (rest.drop extent) after) :
    operator? c (rest.take extent ++ after).head? = some (kind, extent) := by
  rcases operator?_eq_some read with ⟨rfl, _⟩ | ⟨d, first, rfl, _⟩
  · cases after with
    | nil => exact operator?_alone read (.inl rfl)
    | cons d others =>
      rcases breaks d rfl with rfl | same
      · exact operator?_alone read (.inr rfl)
      · rw [List.drop_zero] at same
        simpa [same] using read
  · rw [head?_take_append first Nat.one_pos, ← first]
    exact read

/-! All tokens. -/

theorem front_extent_le {touching : Bool} {c : Char} {kind : Kind} (found : front touching c rest = .token kind extent) :
    extent ≤ rest.length := by
  cases front_eq_token.mp found with
  | numeral _ read => exact numeral_extent_le read
  | word _ read =>
    cases read
    exact (List.takeWhile_sublist _).length_le
  | quoted _ read =>
    obtain ⟨_, content, after, rfl, rfl, _⟩ := quoted_eq_token read
    simp
  | comment _ line => exact line ▸ (List.takeWhile_sublist _).length_le
  | operator _ _ read =>
    rcases operator?_eq_some read with ⟨rfl, _⟩ | ⟨d, first, rfl, _⟩
    · exact Nat.zero_le _
    · cases rest with
      | nil => cases first
      | cons => simp

theorem head?_of_breaksOff {d : Char} (breaks : BreaksOff (rest.drop extent) after)
    (first : (rest.take extent ++ after).head? = some d) : d = '\n' ∨ rest.head? = some d := by
  cases extent with
  | zero => exact breaks d first
  | succ extent =>
    cases rest with
    | nil => simpa using breaks d (by simpa using first)
    | cons c rest => exact .inr (by simpa using first)

theorem numeral_extent_pos {d : Char} {kind : Kind} (first : rest.head? = some d) (digit : d.isDigit = true)
    (read : numeral rest = .token kind extent) : 0 < extent := by
  obtain ⟨front, back, rfl, digits⟩ := exists_digits rest
  obtain ⟨_, rfl⟩ := (numeral_eq_token digits).mp read
  cases digits with
  | point => simp
  | whole inside stop =>
    cases front with
    | nil => simp [(stop d first).1] at digit
    | cons => simp

theorem comment_extent_pos {c : Char} (begins : BeginsComment c rest) : 0 < (rest.takeWhile (· ≠ '\n')).length := by
  cases rest with
  | nil => cases begins.2
  | cons d rest =>
    cases begins.2
    simp

/-- A token is found again where the text breaks off behind it. -/
theorem front_breaksOff {touching : Bool} {c : Char} {kind : Kind} (found : front touching c rest = .token kind extent)
    (breaks : BreaksOff (rest.drop extent) after) :
    front touching c (rest.take extent ++ after) = .token kind extent := by
  apply front_eq_token.mpr
  cases front_eq_token.mp found with
  | numeral starts read =>
    refine .numeral (starts.imp_right fun sign => ⟨sign.1, ?_, sign.2.2⟩) (numeral_breaksOff read breaks)
    obtain ⟨d, first, digit⟩ := Option.any_eq_true _ _ |>.mp sign.2.1
    rw [head?_take_append first (numeral_extent_pos first digit read)]
    exact digit
  | word letter read =>
    cases read
    refine .word letter ?_
    rw [word, takeWhile_breaksOff (by decide) breaks]
  | quoted opens read =>
    obtain ⟨_, content, back, rfl, rfl, again⟩ := quoted_eq_token read
    refine .quoted opens ?_
    have taken : (content ++ c :: back).take (content.length + 1) ++ after = content ++ c :: after := by
      simp [List.take_append]
    rw [taken, again]
  | comment begins line =>
    subst line
    refine .comment ⟨begins.1, head?_take_append begins.2 (comment_extent_pos begins)⟩ ?_
    rw [takeWhile_breaksOff (by decide) breaks]
  | operator unsigned single read =>
    refine .operator (fun sign => ?_) (fun begins => ?_) (operator?_breaksOff read breaks)
    · obtain ⟨minus, next, apart⟩ := sign
      obtain ⟨d, first, digit⟩ := Option.any_eq_true _ _ |>.mp next
      rcases head?_of_breaksOff breaks first with rfl | same
      · exact absurd digit (by decide)
      · exact unsigned ⟨minus, Option.any_eq_true _ _ |>.mpr ⟨d, same, digit⟩, apart⟩
    · obtain ⟨slash, next⟩ := begins
      rcases head?_of_breaksOff breaks next with impossible | same
      · exact absurd impossible (by decide)
      · exact single ⟨slash, same⟩

/-! Tokens by themselves. -/

/-- Where a token stands alone it does not matter whether an operand touches it. -/
theorem front_alone {touching : Bool} {c : Char} {kind : Kind} (found : front touching c rest = .token kind extent) :
    front false c (rest.take extent) = .token kind extent := by
  have alone := front_breaksOff found .nil
  rw [List.append_nil] at alone
  apply front_eq_token.mpr
  cases front_eq_token.mp alone with
  | numeral starts read => exact .numeral (starts.imp_right fun sign => ⟨sign.1, sign.2.1, rfl⟩) read
  | word letter read => exact .word letter read
  | quoted opens read => exact .quoted opens read
  | comment begins line => exact .comment begins line
  | operator unsigned single read =>
    refine .operator (fun sign => ?_) single read
    obtain ⟨minus, next, _⟩ := sign
    subst minus
    cases extent with
    | zero => simp at next
    | succ extent => cases shape : (rest.take (extent + 1)).head? <;> rw [shape] at read <;> cases read

/-- The kind of the token that the characters make up by themselves. -/
def Kind.ofLexeme? : List Char → Option Kind
  | [] => none
  | c :: rest =>
    match front false c rest with
    | .token kind extent => if extent = rest.length then some kind else none
    | _ => none

theorem ofLexeme?_of_front {touching : Bool} {c : Char} {kind : Kind}
    (found : front touching c rest = .token kind extent) : Kind.ofLexeme? (c :: rest.take extent) = some kind := by
  simp [Kind.ofLexeme?, front_alone found, front_extent_le found]

theorem front_of_ofLexeme? {lexeme : List Char} {kind : Kind} (known : Kind.ofLexeme? lexeme = some kind) :
    ∃ c more, lexeme = c :: more ∧ front false c more = .token kind more.length := by
  cases lexeme with
  | nil => cases known
  | cons c more =>
    rw [Kind.ofLexeme?] at known
    split at known
    next kind extent found =>
      split at known
      next whole =>
        cases known
        exact ⟨c, more, rfl, whole ▸ found⟩
      next => cases known
    next => cases known

/-- How the text of a token comes from its characters. Names and numbers are all text, literals have quotes
around it and comments slashes before it, and all others are symbols without a text. -/
inductive Kind.Spells : Kind → List Char → Option String → Prop where
  | whole {kind lexeme} (plain : kind ∈ [integer, float, identifier, keyword, dataType]) :
      Spells kind lexeme (some (String.ofList lexeme))
  | string {content} : Spells string ('\x22' :: (content ++ ['\x22'])) (some (String.ofList content))
  | char {content} : Spells char ('\x27' :: (content ++ ['\x27'])) (some (String.ofList content))
  | comment {slashes content} (two : 2 ≤ slashes) (bare : content.head? ≠ some '/') :
      Spells comment (List.replicate slashes '/' ++ content) (some (String.ofList content))
  | symbol {kind symbol} (spelled : kind.symbol? = some symbol) : Spells kind symbol.toList none

theorem textOf_whole {kind : Kind} (plain : kind ∈ [Kind.integer, .float, .identifier, .keyword, .dataType])
    (lexeme : List Char) : textOf kind lexeme = some (String.ofList lexeme) := by
  simp only [List.mem_cons, List.not_mem_nil, or_false] at plain
  rcases plain with rfl | rfl | rfl | rfl | rfl <;> rfl

theorem textOf_symbol {kind : Kind} {symbol : String} (spelled : kind.symbol? = some symbol) (lexeme : List Char) :
    textOf kind lexeme = none := by
  cases kind <;> first | rfl | cases spelled

theorem spells_whole {kind : Kind} (plain : kind ∈ [Kind.integer, .float, .identifier, .keyword, .dataType])
    (lexeme : List Char) : kind.Spells lexeme (textOf kind lexeme) :=
  textOf_whole plain lexeme ▸ .whole plain

theorem wordKind_mem (word : String) : wordKind word ∈ [Kind.integer, .float, .identifier, .keyword, .dataType] := by
  unfold wordKind
  split
  · simp
  · split <;> simp

theorem spells_quoted {c : Char} {literal kind : Kind} (opens : c = '\x22' ∧ literal = .string ∨ c = '\x27' ∧ literal = .char)
    (read : quoted c literal rest = .token kind extent) :
    kind.Spells (c :: rest.take extent) (textOf kind (c :: rest.take extent)) := by
  obtain ⟨rfl, content, after, rfl, rfl, _⟩ := quoted_eq_token read
  have taken : (content ++ c :: after).take (content.length + 1) = content ++ [c] := by simp [List.take_append]
  rw [taken]
  rcases opens with ⟨rfl, rfl⟩ | ⟨rfl, rfl⟩
  · simpa [textOf] using @Kind.Spells.string content
  · simpa [textOf] using @Kind.Spells.char content

theorem spells_comment {c : Char} (begins : BeginsComment c rest) (some : 0 < extent) :
    Kind.comment.Spells (c :: rest.take extent) (textOf .comment (c :: rest.take extent)) := by
  obtain ⟨tail, shape⟩ : ∃ tail, c :: rest.take extent = '/' :: '/' :: tail := by
    obtain ⟨rfl, next⟩ := begins
    obtain ⟨extent, rfl⟩ := Nat.exists_eq_add_one.mpr some
    cases rest with
    | nil => cases next
    | cons d rest =>
      cases next
      exact ⟨rest.take extent, rfl⟩
  obtain ⟨slashes, content, parts, inside, stop⟩ := exists_front (· = '/') tail
  have row : slashes = List.replicate slashes.length '/' :=
    List.eq_replicate_of_mem fun d member => by simpa using inside d member
  have split : '/' :: '/' :: tail = List.replicate (slashes.length + 2) '/' ++ content := by
    rw [parts, row]
    simp [List.replicate_succ]
  have bare : content.head? ≠ Option.some '/' := fun first => by simpa using stop '/' first
  have left : (List.replicate (slashes.length + 2) '/' ++ content).dropWhile (· = '/') = content := by
    rw [List.dropWhile_append_of_pos (by simp)]
    cases content with
    | nil => rfl
    | cons d content => simpa using bare
  rw [shape, split, textOf, left]
  exact .comment (by omega) bare

theorem spells_of_front {touching : Bool} {c : Char} {kind : Kind} (found : front touching c rest = .token kind extent) :
    kind.Spells (c :: rest.take extent) (textOf kind (c :: rest.take extent)) := by
  cases front_eq_token.mp found with
  | numeral _ read => exact spells_whole (by rcases kind_of_numeral read with rfl | rfl <;> simp) _
  | word _ read =>
    cases read
    exact spells_whole (wordKind_mem _) _
  | quoted opens read => exact spells_quoted opens read
  | comment begins line => exact spells_comment begins (line ▸ comment_extent_pos begins)
  | operator _ _ read =>
    rcases operator?_eq_some read with ⟨rfl, spelled⟩ | ⟨d, first, rfl, spelled⟩
    · rw [textOf_symbol spelled]
      simpa using Kind.Spells.symbol spelled
    · cases rest with
      | nil => cases first
      | cons e rest =>
        cases first
        rw [textOf_symbol spelled]
        simpa using Kind.Spells.symbol spelled

end RecordLayout.Token
