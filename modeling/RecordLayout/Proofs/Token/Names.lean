import RecordLayout.Token.Scan

/-! Tokens of a source that are names are spelled as names. -/

namespace RecordLayout

namespace Token

/-- A letter and further letters, digits and underscores, which are neither a keyword nor the name of a primitive
type. -/
structure IsName (word : String) : Prop where
  spelled : ∃ c more, word.toList = c :: more ∧ c.isAlpha = true ∧ ∀ d ∈ more, d.isAlphanum = true ∨ d = '_'
  free : word ∉ keywords ∧ ∀ primitive : Primitive, primitive.name ≠ word

theorem isWordChar_iff {c : Char} : isWordChar c = true ↔ c.isAlphanum = true ∨ c = '_' := by
  simp [isWordChar]

theorem ofName?_eq_none {word : String} :
    Primitive.ofName? word = none ↔ ∀ primitive : Primitive, primitive.name ≠ word := by
  simp [Primitive.ofName?, List.find?_eq_none, Primitive.mem_all]

/-- A word has no other meaning if it is neither a keyword nor the name of a primitive type. -/
theorem wordKind_eq_identifier {word : String} :
    wordKind word = .identifier ↔ word ∉ keywords ∧ ∀ primitive : Primitive, primitive.name ≠ word := by
  rw [wordKind, ← ofName?_eq_none]
  by_cases keyword : word ∈ keywords
  · simp [keyword]
  · cases Primitive.ofName? word <;> simp [keyword]

theorem symbol_of_operator? {c : Char} {next : Option Char} {kind : Kind} {extent : Nat}
    (found : operator? c next = some (kind, extent)) : kind.symbol?.isSome = true := by
  unfold operator? at found
  split at found
  all_goals try (cases found; rfl)
  obtain ⟨_, punctuation, same⟩ := Option.map_eq_some_iff.mp found
  cases same
  unfold punctuation? at punctuation
  split at punctuation <;> cases punctuation <;> rfl

theorem kind_of_numeral {rest : List Char} {kind : Kind} {extent : Nat}
    (found : numeral rest = .token kind extent) : kind = .float ∨ kind = .integer := by
  simp only [numeral, Front.token.injEq] at found
  split at found
  · exact .inl found.1.symm
  · exact .inr found.1.symm

theorem kind_of_quoted {quote : Char} {literal kind : Kind} {rest : List Char} {extent : Nat}
    (found : quoted quote literal rest = .token kind extent) : kind = literal := by
  unfold quoted at found
  split at found
  next => cases found
  next =>
    simp only at found
    split at found
    next => cases found
    next =>
      cases found
      rfl

/-- Apart from words every token has a literal's kind, or a comment's, or one whose text is fixed. -/
theorem kind_of_front {touching : Bool} {c : Char} {rest : List Char} {kind : Kind} {extent : Nat}
    (found : front touching c rest = .token kind extent) :
    c.isAlpha = true ∧ word c rest = .token kind extent ∨
      kind ∈ [.integer, .float, .string, .char, .comment] ∨ kind.symbol?.isSome = true := by
  unfold front at found
  split at found
  next => cases found
  split at found
  next => rcases kind_of_numeral found with rfl | rfl <;> simp
  split at found
  next => rcases kind_of_numeral found with rfl | rfl <;> simp
  split at found
  next letter => exact .inl ⟨letter, found⟩
  split at found
  next => simp [kind_of_quoted found]
  split at found
  next => simp [kind_of_quoted found]
  split at found
  next =>
    cases found
    simp
  split at found
  next shape =>
    cases found
    exact .inr (.inr (symbol_of_operator? shape))
  next =>
    split at found <;> cases found

/-- Only words are names. -/
theorem front_eq_identifier {touching : Bool} {c : Char} {rest : List Char} {extent : Nat}
    (found : front touching c rest = .token .identifier extent) :
    c.isAlpha = true ∧ word c rest = .token .identifier extent := by
  rcases kind_of_front found with word | literal | symbol
  · exact word
  · simp at literal
  · cases symbol

theorem isName_of_word {c : Char} {rest : List Char} {extent : Nat} (letter : c.isAlpha = true)
    (found : word c rest = .token .identifier extent) :
    IsName (String.ofList (c :: rest.take extent)) := by
  unfold word at found
  injection found with free length
  subst length
  rw [← List.prefix_iff_eq_take.mp (List.takeWhile_prefix isWordChar)]
  refine ⟨⟨c, _, String.toList_ofList, letter, fun d member => isWordChar_iff.mp ?_⟩, wordKind_eq_identifier.mp free⟩
  exact List.all_eq_true.mp List.all_takeWhile d member

/-- What is true of the end and of all that a front can be is true of every token, if it is of those found before. -/
theorem forall_of_scanFrom {good : Token → Prop} {here : Position} {touching : Bool} {found tokens : List Token}
    {chars : List Char} (ends : ∀ here, good ⟨.endOfInput, none, .empty here⟩)
    (made : ∀ {touching c rest kind extent span}, front touching c rest = .token kind extent →
      good ⟨kind, textOf kind (c :: rest.take extent), span⟩)
    (before : ∀ token ∈ found, good token) (scanned : scanFrom here touching found chars = .ok tokens) :
    ∀ token ∈ tokens, good token := by
  fun_induction scanFrom here touching found chars with
  | case1 here touching found =>
    cases scanned
    intro token member
    rw [List.mem_reverse, List.mem_cons] at member
    rcases member with rfl | member
    · exact ends here
    · exact before token member
  | case2 here touching found c rest shape ih => exact ih before scanned
  | case3 here touching found c rest kind extent shape covered stop ih =>
    exact ih (List.forall_mem_cons.mpr ⟨made shape, before⟩) scanned
  | case4 => cases scanned

end Token

/-- Every name among the tokens of a source is spelled as one. -/
theorem isName_of_tokenize {source : Source} {tokens : List Token} (scanned : tokenize source = .ok tokens) :
    ∀ token ∈ tokens, token.kind = .identifier → Token.IsName token.content := by
  refine Token.forall_of_scanFrom (fun _ name => by cases name) (fun shape name => ?_) (by simp) scanned
  subst name
  obtain ⟨letter, word⟩ := Token.front_eq_identifier shape
  exact Token.isName_of_word letter word

end RecordLayout
