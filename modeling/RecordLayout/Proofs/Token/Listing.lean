import RecordLayout.Proofs.Token.Layout

/-! Listings of tokens. A listing ends the entry of each token with a line break, so it says how many tokens there are
and what they are as long as no entry holds a line break itself. Only string and char literals can hold one, and a
listing of tokens of which one does may be that of other tokens. -/

namespace RecordLayout

namespace Token

/-! Entries. -/

/-- No character of a name stands between names and texts, or between entries. -/
theorem Kind.name_plain (kind : Kind) : ∀ c ∈ kind.name.toList, c ≠ ':' ∧ c ≠ '\n' := by
  have plain : (kind.name.toList.all fun c => c ≠ ':' ∧ c ≠ '\n') = true := by cases kind <;> rfl
  simpa using plain

theorem Kind.name_inj {kind other : Kind} (same : kind.name = other.name) : kind = other := by
  have found := Kind.ofName?_name kind
  rw [same, Kind.ofName?_name] at found
  exact (Option.some.inj found).symm

/-- What an entry says after the name of the kind. -/
def detail (token : Token) : List Char :=
  match token.text with
  | some text => ':' :: text.toList
  | none => []

theorem toList_entry (token : Token) : token.entry.toList = token.kind.name.toList ++ token.detail := by
  cases text : token.text <;> simp [entry, detail, text]

/-- An entry says what its token is: its kind up to the first colon, and its text after that. -/
theorem said_of_entry {token other : Token} (same : token.entry = other.entry) : token.said = other.said := by
  have named (token : Token) : token.entry.toList.takeWhile (· ≠ ':') = token.kind.name.toList := by
    rw [toList_entry]
    refine takeWhile_append_stop (fun c member => by simpa using (token.kind.name_plain c member).1) ?_
    cases text : token.text <;> simp [detail, text]
  have names : token.kind.name.toList = other.kind.name.toList := by rw [← named, same, named]
  have kinds : token.kind = other.kind := Kind.name_inj (String.toList_inj.mp names)
  have details : token.detail = other.detail := by
    have chars := congrArg String.toList same
    rw [toList_entry, toList_entry, kinds] at chars
    exact List.append_cancel_left chars
  have texts : token.text = other.text := by
    unfold detail at details
    split at details <;> split at details <;> simp_all [String.toList_inj]
  rw [said, said, kinds, texts]

/-! Lines. -/

/-- The text of the token holds no line break. -/
def Unbroken (token : Token) : Prop :=
  '\n' ∉ token.content.toList

instance (token : Token) : Decidable token.Unbroken :=
  inferInstanceAs (Decidable (_ ∉ _))

/-- No string or char literal among the tokens holds a line break. -/
def LiteralsUnbroken (tokens : List Token) : Prop :=
  ∀ token ∈ tokens, token.kind = .string ∨ token.kind = .char → token.Unbroken

instance (tokens : List Token) : Decidable (LiteralsUnbroken tokens) :=
  inferInstanceAs (Decidable (∀ token ∈ tokens, _))

theorem count_detail (token : Token) : token.detail.count '\n' = token.content.toList.count '\n' := by
  cases text : token.text <;> simp [detail, content, text]

theorem count_entry (token : Token) : token.entry.toList.count '\n' = token.content.toList.count '\n' := by
  have name : token.kind.name.toList.count '\n' = 0 :=
    List.count_eq_zero.mpr fun member => (token.kind.name_plain '\n' member).2 rfl
  rw [toList_entry, List.count_append, name, Nat.zero_add, count_detail]

theorem Unbroken.entry {token : Token} (unbroken : token.Unbroken) : ∀ c ∈ token.entry.toList, (c ≠ '\n') = true := by
  have none : '\n' ∉ token.entry.toList := by
    rw [← List.count_eq_zero, count_entry]
    exact List.count_eq_zero.mpr unbroken
  exact fun c member => by simpa using fun same : c = '\n' => none (same ▸ member)

theorem listing_nil : (listing []).toList = [] := by
  simp [listing]

theorem listing_cons (token : Token) (tokens : List Token) :
    (listing (token :: tokens)).toList = token.entry.toList ++ '\n' :: (listing tokens).toList := by
  simp [listing]

/-- A listing has a line for each token and one more for each line break in a text. -/
theorem count_listing (tokens : List Token) :
    (listing tokens).toList.count '\n' = tokens.length + (tokens.flatMap (·.content.toList)).count '\n' := by
  induction tokens with
  | nil => simp [listing_nil]
  | cons token tokens ih =>
    rw [listing_cons, List.count_append, List.count_cons_self, ih, count_entry, List.flatMap_cons, List.count_append,
      List.length_cons]
    omega

/-- There is one line for each token just where no text holds a line break. -/
theorem count_listing_eq_length {tokens : List Token} :
    (listing tokens).toList.count '\n' = tokens.length ↔ ∀ token ∈ tokens, token.Unbroken := by
  rw [count_listing, Nat.add_eq_left, List.count_eq_zero, List.mem_flatMap]
  simp [Unbroken]

/-- The first line of a listing says what the first token is, and the others what the others are. -/
theorem said_of_listing {tokens others : List Token} (unbroken : ∀ token ∈ tokens, token.Unbroken)
    (alsoUnbroken : ∀ token ∈ others, token.Unbroken) (same : listing tokens = listing others) :
    tokens.map said = others.map said := by
  replace same := congrArg String.toList same
  induction tokens generalizing others with
  | nil =>
    cases others with
    | nil => rfl
    | cons => simp [listing_nil, listing_cons] at same
  | cons token tokens ih =>
    cases others with
    | nil => simp [listing_nil, listing_cons] at same
    | cons other others =>
      obtain ⟨here, behind⟩ := List.forall_mem_cons.mp unbroken
      obtain ⟨alsoHere, alsoBehind⟩ := List.forall_mem_cons.mp alsoUnbroken
      rw [listing_cons, listing_cons] at same
      have line {token : Token} (unbroken : token.Unbroken) (rest : List Char) :
          (token.entry.toList ++ '\n' :: rest).takeWhile (· ≠ '\n') = token.entry.toList :=
        takeWhile_append_stop (fun c member => by simpa using unbroken.entry c member) (by simp)
      have entries : token.entry.toList = other.entry.toList := by rw [← line here, same, line alsoHere]
      rw [entries] at same
      have lines := (List.cons.inj (List.append_cancel_left same)).2
      rw [List.map_cons, List.map_cons, said_of_entry (String.toList_inj.mp entries), ih behind alsoBehind lines]

/-- A listing is made of kinds and texts. -/
theorem listing_of_said {tokens others : List Token} (same : tokens.map said = others.map said) :
    listing tokens = listing others := by
  have entries (tokens : List Token) : tokens.map (fun token => token.entry ++ "\n") =
      (tokens.map said).map fun said => entry ⟨said.1, said.2, .empty (.start ⟨"", ""⟩)⟩ ++ "\n" := by
    simp [said, entry]
  rw [listing, listing, entries, same, entries]

/-! Tokens of a source. Nothing but a literal goes on behind a line break. -/

theorem Kind.symbol_plain {kind : Kind} {symbol : String} (spelled : kind.symbol? = some symbol) :
    '\n' ∉ symbol.toList := by
  cases kind <;> cases spelled <;> simp

/-- A token that is no literal is on one line. -/
theorem front_plain {touching : Bool} {c : Char} {rest : List Char} {kind : Kind} {extent : Nat}
    (found : front touching c rest = .token kind extent) (string : kind ≠ .string) (char : kind ≠ .char) :
    '\n' ∉ c :: rest.take extent := by
  cases front_eq_token.mp found with
  | numeral starts read =>
    have first : '\n' ≠ c := by
      rintro rfl
      rcases starts with digit | ⟨minus, _⟩
      · exact absurd digit (by decide)
      · exact absurd minus (by decide)
    exact List.not_mem_cons_of_ne_of_not_mem first (numeral_excludes (by decide) (by decide) read)
  | word letter read =>
    cases read
    have first : '\n' ≠ c := by
      rintro rfl
      exact absurd letter (by decide)
    exact List.not_mem_cons_of_ne_of_not_mem first (takeWhile_excludes (by decide) rest)
  | quoted opens read =>
    obtain rfl := (quoted_eq_token read).1
    rcases opens with ⟨_, literal⟩ | ⟨_, literal⟩
    · exact absurd literal string
    · exact absurd literal char
  | comment begins line =>
    obtain ⟨rfl, _⟩ := begins
    subst line
    exact List.not_mem_cons_of_ne_of_not_mem (by decide) (takeWhile_excludes (by decide) rest)
  | operator _ _ read =>
    rcases operator?_eq_some read with ⟨rfl, spelled⟩ | ⟨d, first, rfl, spelled⟩
    · simpa using Kind.symbol_plain spelled
    · cases rest with
      | nil => cases first
      | cons e rest =>
        cases first
        simpa using Kind.symbol_plain spelled

/-- The text of a token is part of the characters that it covers. -/
theorem Kind.Spells.subset {kind : Kind} {lexeme : List Char} {text : Option String} (spelled : kind.Spells lexeme text) :
    (text.getD "").toList ⊆ lexeme := by
  cases spelled with
  | whole => simp
  | string => simp
  | char => simp
  | comment => simp
  | symbol => simp

theorem Inner.unbroken {token : Token} (inner : token.Inner) (string : token.kind ≠ .string) (char : token.kind ≠ .char) :
    token.Unbroken := by
  obtain ⟨lexeme, _, known, spelled⟩ := inner.spelled
  obtain ⟨c, more, rfl, found⟩ := front_of_ofLexeme? known
  have plain := front_plain found string char
  rw [List.take_length] at plain
  exact fun broken => plain (spelled.subset broken)

end Token

/-- Where its literals hold no line break, no token of a source does. -/
theorem unbroken_of_tokenize {source : Source} {tokens : List Token} (scanned : tokenize source = .ok tokens) :
    Token.LiteralsUnbroken tokens ↔ ∀ token ∈ tokens, token.Unbroken := by
  have covers := covers_of_tokenize scanned
  have inner := @Token.Covers.inner source [] _ _ covers rfl
  refine forall₂_congr fun token member => ⟨fun literal => ?_, fun unbroken _ => unbroken⟩
  by_cases kind : token.kind = .string ∨ token.kind = .char
  · exact literal kind
  · obtain ⟨string, char⟩ := not_or.mp kind
    rw [← List.dropLast_append_getLast? _ covers.last] at member
    rcases List.mem_append.mp member with member | last
    · exact (inner token member).unbroken string char
    · simp [List.mem_singleton.mp last, Token.Unbroken, Token.content]

/-- The listing of a source has a line for each token, and one more for each line break in a text; only string and
char literals hold any. Where those of two sources hold none, the listings are the same just for the same kinds and
texts. -/
theorem said_of_tokenize_listing {first second : Source} {tokens others : List Token}
    (scanned : tokenize first = .ok tokens) (alsoScanned : tokenize second = .ok others) :
    (Token.listing tokens).toList.count '\n' = tokens.length + (tokens.flatMap (·.content.toList)).count '\n' ∧
    ((Token.listing tokens).toList.count '\n' = tokens.length ↔ Token.LiteralsUnbroken tokens) ∧
    (Token.LiteralsUnbroken tokens → Token.LiteralsUnbroken others →
      (Token.listing tokens = Token.listing others ↔ tokens.map Token.said = others.map Token.said)) := by
  refine ⟨Token.count_listing tokens, ?_, fun unbroken alsoUnbroken => ⟨?_, Token.listing_of_said⟩⟩
  · rw [Token.count_listing_eq_length, unbroken_of_tokenize scanned]
  · rw [unbroken_of_tokenize scanned] at unbroken
    rw [unbroken_of_tokenize alsoScanned] at alsoUnbroken
    exact Token.said_of_listing unbroken alsoUnbroken

/-- The tokens of `tiledSource`, written on other lines. -/
def retiledSource : Source :=
  ⟨"", "x\n// é\n<< \"\\\"\"\n\n-5"⟩

def retiledSpan (start line column stop endLine endColumn : Nat) : Span :=
  ⟨⟨start, line, column, retiledSource⟩, ⟨stop, endLine, endColumn, retiledSource⟩⟩

def retiledTokens : List Token :=
  [⟨.identifier, some "x", retiledSpan 0 0 0 1 0 1⟩, ⟨.comment, some " é", retiledSpan 2 1 0 7 1 4⟩,
   ⟨.shiftLeft, none, retiledSpan 8 2 0 10 2 2⟩, ⟨.string, some "\\\"", retiledSpan 11 2 3 15 2 7⟩,
   ⟨.integer, some "-5", retiledSpan 17 4 0 19 4 2⟩, ⟨.endOfInput, none, retiledSpan 19 4 2 19 4 2⟩]

theorem said_of_retiledSource_listing :
    tokenize tiledSource = .ok tiledTokens ∧ tokenize retiledSource = .ok retiledTokens ∧
      (Token.listing tiledTokens).toList.count '\n' = 6 ∧ Token.listing tiledTokens = Token.listing retiledTokens := by
  have scanned : tokenize tiledSource = .ok tiledTokens := by cbv
  have alsoScanned : tokenize retiledSource = .ok retiledTokens := by cbv
  obtain ⟨_, lines, same⟩ := said_of_tokenize_listing scanned alsoScanned
  have unbroken : Token.LiteralsUnbroken tiledTokens := by decide
  have alsoUnbroken : Token.LiteralsUnbroken retiledTokens := by decide
  exact ⟨scanned, alsoScanned, lines.mpr unbroken, (same unbroken alsoUnbroken).mpr rfl⟩

/-- A string over two lines, the second of which reads like the entry of a comma. -/
def brokenSource : Source :=
  ⟨"", "\"a\nCOMMA\""⟩

/-- The first of these lines, and a comma. -/
def unbrokenSource : Source :=
  ⟨"", "\"a\","⟩

def brokenTokens : List Token :=
  [⟨.string, some "a\nCOMMA", ⟨⟨0, 0, 0, brokenSource⟩, ⟨9, 1, 6, brokenSource⟩⟩⟩,
   ⟨.endOfInput, none, .empty ⟨9, 1, 6, brokenSource⟩⟩]

def unbrokenTokens : List Token :=
  [⟨.string, some "a", ⟨⟨0, 0, 0, unbrokenSource⟩, ⟨3, 0, 3, unbrokenSource⟩⟩⟩,
   ⟨.comma, none, ⟨⟨3, 0, 3, unbrokenSource⟩, ⟨4, 0, 4, unbrokenSource⟩⟩⟩,
   ⟨.endOfInput, none, .empty ⟨4, 0, 4, unbrokenSource⟩⟩]

/-- A listing may have more lines than tokens, and may be that of other tokens. -/
theorem same_listing_of_brokenSource :
    tokenize brokenSource = .ok brokenTokens ∧ tokenize unbrokenSource = .ok unbrokenTokens ∧
      (Token.listing brokenTokens).toList.count '\n' ≠ brokenTokens.length ∧
      Token.listing brokenTokens = Token.listing unbrokenTokens ∧
      brokenTokens.map Token.said ≠ unbrokenTokens.map Token.said := by
  have scanned : tokenize brokenSource = .ok brokenTokens := by cbv
  have alsoScanned : tokenize unbrokenSource = .ok unbrokenTokens := by cbv
  exact ⟨scanned, alsoScanned, by decide, rfl, by decide⟩

end RecordLayout
