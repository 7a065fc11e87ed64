import Mathlib
import RecordLayout.Token.Scan

/-! What a scan finds in a text that is put together from pieces. Each piece is scanned to its end if
the character after it does not go on with its last token; where the scan is and what it has found
before play no part in it. -/

namespace RecordLayout.Token

/-! The front of a text, by the characters that follow it. -/

theorem takeWhile_append_stop {test : α → Bool} {front rest : List α} (inside : ∀ a ∈ front, test a = true)
    (stop : ∀ a ∈ rest.head?, test a = false) : (front ++ rest).takeWhile test = front := by
  rw [List.takeWhile_append_of_pos inside]
  cases rest with
  | nil => simp
  | cons a others => simp [stop a rfl]

theorem toNat_of_isAlpha {c : Char} (letter : c.isAlpha = true) :
    65 ≤ c.toNat ∧ c.toNat ≤ 90 ∨ 97 ≤ c.toNat ∧ c.toNat ≤ 122 := by
  simpa [Char.isAlpha, Char.isUpper, Char.isLower, UInt32.le_iff_toNat_le] using letter

theorem toNat_of_isDigit {c : Char} (digit : c.isDigit = true) : 48 ≤ c.toNat ∧ c.toNat ≤ 57 := by
  simpa [Char.isDigit, UInt32.le_iff_toNat_le] using digit

/-- The characters from the first digit on are not between tokens. -/
theorem not_isSpace {c : Char} (large : 48 ≤ c.toNat) : isSpace c = false := by
  apply Bool.eq_false_iff.mpr
  intro space
  simp only [isSpace, Bool.or_eq_true, beq_iff_eq] at space
  rcases space with ((rfl | rfl) | rfl) | rfl <;> revert large <;> decide

theorem not_isDigit_of_isAlpha {c : Char} (letter : c.isAlpha = true) : c.isDigit = false := by
  apply Bool.eq_false_iff.mpr
  intro digit
  have high := toNat_of_isAlpha letter
  have low := toNat_of_isDigit digit
  omega

theorem front_word {touching : Bool} {c : Char} {more rest : List Char} (letter : c.isAlpha = true)
    (inside : ∀ d ∈ more, isWordChar d = true) (stop : ∀ d ∈ rest.head?, isWordChar d = false) :
    front touching c (more ++ rest) = .token (wordKind (String.ofList (c :: more))) more.length := by
  have range := toNat_of_isAlpha letter
  have noSpace : isSpace c = false := not_isSpace (by omega)
  have noDigit := not_isDigit_of_isAlpha letter
  have noSign : c ≠ '-' := by
    intro same
    subst same
    revert letter
    decide
  unfold front
  rw [if_neg (by simp [noSpace]), if_neg (by simp [noDigit]), if_neg (by simp [noSign]), if_pos letter]
  simp only [word, takeWhile_append_stop inside stop]

/-- Digits, and perhaps a point and digits after it; what follows does not go on with them. -/
inductive Digits : List Char → List Char → Prop where
  | whole {digits after} (inside : ∀ d ∈ digits, d.isDigit = true)
      (stop : ∀ d ∈ after.head?, d.isDigit = false ∧ d ≠ '.') : Digits digits after
  | point {digits fraction after} (inside : ∀ d ∈ digits, d.isDigit = true)
      (behind : ∀ d ∈ fraction, d.isDigit = true) (stop : ∀ d ∈ after.head?, d.isDigit = false) :
      Digits (digits ++ '.' :: fraction) after

theorem numeralExtent_digits {front after : List Char} (digits : Digits front after) :
    numeralExtent (front ++ after) = front.length := by
  cases digits with
  | whole inside stop =>
    have whole : (front ++ after).takeWhile Char.isDigit = front :=
      takeWhile_append_stop inside fun d first => (stop d first).1
    simp only [numeralExtent, whole, List.drop_left]
    split
    next => exact absurd rfl (stop '.' rfl).2
    next => rfl
  | @point digits fraction _ inside behind stop =>
    have whole : (digits ++ '.' :: (fraction ++ after)).takeWhile Char.isDigit = digits :=
      takeWhile_append_stop inside fun d first => by
        cases first
        decide
    simp only [numeralExtent, List.append_assoc, List.cons_append, whole, List.drop_left,
      takeWhile_append_stop behind stop, List.length_append, List.length_cons]
    omega

theorem numeral_eq_token {front after : List Char} {kind : Kind} {extent : Nat} (digits : Digits front after) :
    numeral (front ++ after) = .token kind extent ↔
      (if front.contains '.' then Kind.float else .integer) = kind ∧ front.length = extent := by
  simp [numeral, numeralExtent_digits digits]

theorem numeral_digits {more rest : List Char} (inside : ∀ d ∈ more, d.isDigit = true)
    (stop : ∀ d ∈ rest.head?, d.isDigit = false ∧ d ≠ '.') :
    numeral (more ++ rest) = .token .integer more.length := by
  have pointless : '.' ∉ more := fun point => absurd (inside '.' point) (by decide)
  apply (numeral_eq_token (.whole inside stop)).mpr
  simp [pointless]

theorem front_digits {touching : Bool} {c : Char} {more rest : List Char} (digit : c.isDigit = true)
    (inside : ∀ d ∈ more, d.isDigit = true) (stop : ∀ d ∈ rest.head?, d.isDigit = false ∧ d ≠ '.') :
    front touching c (more ++ rest) = .token .integer more.length := by
  have noSpace : isSpace c = false := not_isSpace (toNat_of_isDigit digit).1
  unfold front
  rw [if_neg (by simp [noSpace]), if_pos digit, numeral_digits inside stop]

theorem front_negative {more rest : List Char} (some : more ≠ []) (inside : ∀ d ∈ more, d.isDigit = true)
    (stop : ∀ d ∈ rest.head?, d.isDigit = false ∧ d ≠ '.') :
    front false '-' (more ++ rest) = .token .integer more.length := by
  cases more with
  | nil => exact absurd rfl some
  | cons d others =>
    unfold front
    rw [if_neg (by decide), if_neg (by decide), if_pos (by simp [inside d]), numeral_digits inside stop]

/-- Kinds that become others when a further character is taken in. -/
def Kind.grows : Kind → Bool
  | .slash | .ampersand | .pipe | .less | .greater => true
  | _ => false

/-- Characters that may be taken in. -/
def isGlue (c : Char) : Bool :=
  c == '&' || c == '|' || c == '<' || c == '>' || c == '=' || c == '/'

theorem front_symbol {touching : Bool} {kind : Kind} {symbol : String} {rest : List Char}
    (spelled : kind.symbol? = some symbol)
    (loose : kind.grows = true → ∀ d ∈ rest.head?, isGlue d = false)
    (apart : kind = .minus → ∀ d ∈ rest.head?, d.isDigit = false) :
    ∃ c more, symbol.toList = c :: more ∧ front touching c (more ++ rest) = .token kind more.length := by
  cases rest with
  | nil => cases kind <;> cases spelled <;> exact ⟨_, _, rfl, rfl⟩
  | cons d others =>
    have noGlue (grows : kind.grows = true) :
        d ≠ '&' ∧ d ≠ '|' ∧ d ≠ '<' ∧ d ≠ '>' ∧ d ≠ '=' ∧ d ≠ '/' := by
      simpa [isGlue, and_assoc] using loose grows d rfl
    cases kind
    case minus =>
      cases spelled
      exact ⟨'-', [], rfl, by simp [front, isSpace, apart rfl d rfl, operator?, punctuation?]⟩
    case slash =>
      cases spelled
      exact ⟨'/', [], rfl, by simp [front, isSpace, noGlue rfl, operator?]⟩
    case ampersand =>
      cases spelled
      exact ⟨'&', [], rfl, by simp [front, isSpace, noGlue rfl, operator?]⟩
    case pipe =>
      cases spelled
      exact ⟨'|', [], rfl, by simp [front, isSpace, noGlue rfl, operator?]⟩
    case less =>
      cases spelled
      exact ⟨'<', [], rfl, by simp [front, isSpace, noGlue rfl, operator?]⟩
    case greater =>
      cases spelled
      exact ⟨'>', [], rfl, by simp [front, isSpace, noGlue rfl, operator?]⟩
    all_goals cases spelled
    all_goals exact ⟨_, _, rfl, rfl⟩

/-! What a scan does with the token at the front. -/

section

variable {here : Position} {touching : Bool} {found : List Token} {c : Char} {rest : List Char}

theorem scanFrom_space (shape : front touching c rest = .space) :
    scanFrom here touching found (c :: rest) = scanFrom (here.step c) false found rest := by
  rw [scanFrom, shape]

theorem scanFrom_token {kind : Kind} {extent : Nat} (shape : front touching c rest = .token kind extent) :
    scanFrom here touching found (c :: rest) =
      scanFrom (here.past (c :: rest.take extent)) kind.endsOperand
        (⟨kind, textOf kind (c :: rest.take extent), ⟨here, here.past (c :: rest.take extent)⟩⟩ :: found)
        (rest.drop extent) := by
  rw [scanFrom, shape]

theorem scanFrom_fault {cause : ScanFault} {extent : Nat} (shape : front touching c rest = .fault cause extent) :
    scanFrom here touching found (c :: rest) =
      .error (cause.toError ⟨here, here.past (c :: rest.take extent)⟩) := by
  rw [scanFrom, shape]

theorem front_of_isSpace (space : isSpace c = true) : front touching c rest = .space :=
  if_pos space

end

/-! Scans of pieces. -/

/-- Scanned from anywhere but right behind an operand, the characters before the others are tokens
of which the condition holds. -/
def Finds (chars rest : List Char) (condition : List Token → Prop) : Prop :=
  ∀ here found, ∃ tokens there, condition tokens ∧
    scanFrom here false found (chars ++ rest) = scanFrom there false (tokens.reverse ++ found) rest

/-- Tokens of the first kind and then tokens of the second. -/
def Successive (first second : List Token → Prop) (tokens : List Token) : Prop :=
  ∃ front back, tokens = front ++ back ∧ first front ∧ second back

namespace Finds

variable {chars rest : List Char} {condition : List Token → Prop}

theorem mono {other : List Token → Prop} (finds : Finds chars rest condition)
    (weaker : ∀ tokens, condition tokens → other tokens) : Finds chars rest other := by
  intro here found
  obtain ⟨tokens, there, holds, scanned⟩ := finds here found
  exact ⟨tokens, there, weaker tokens holds, scanned⟩

theorem append {back : List Char} {second : List Token → Prop}
    (first : Finds chars (back ++ rest) condition) (next : Finds back rest second) :
    Finds (chars ++ back) rest (Successive condition second) := by
  intro here found
  obtain ⟨tokens, middle, holds, scanned⟩ := first here found
  obtain ⟨others, there, follows, continued⟩ := next middle (tokens.reverse ++ found)
  refine ⟨tokens ++ others, there, ⟨tokens, others, rfl, holds, follows⟩, ?_⟩
  rw [List.append_assoc, scanned, continued]
  simp

theorem nil (holds : condition []) : Finds [] rest condition :=
  fun here _ => ⟨[], here, holds, rfl⟩

theorem gap {c : Char} (blank : isSpace c = true) (finds : Finds chars rest condition) :
    Finds (c :: chars) rest condition := by
  intro here found
  obtain ⟨tokens, there, holds, scanned⟩ := finds (here.step c) found
  refine ⟨tokens, there, holds, ?_⟩
  rw [List.cons_append, scanFrom_space (front_of_isSpace blank), ← scanned]

theorem space (finds : Finds chars rest condition) : Finds (' ' :: chars) rest condition :=
  finds.gap rfl

end Finds

/-- What touches an operand matters for a minus alone. -/
theorem scanFrom_touching {here : Position} {touching : Bool} {found : List Token} {rest : List Char}
    (other : ∀ d ∈ rest.head?, d ≠ '-') :
    scanFrom here touching found rest = scanFrom here false found rest := by
  cases rest with
  | nil => rw [scanFrom, scanFrom]
  | cons c rest =>
    have same : front touching c rest = front false c rest := by
      simp [front, other c rfl]
    rw [scanFrom, scanFrom, same]

/-- One token of the kind, with the text that such a token has. -/
def IsOne (kind : Kind) (chars : List Char) (tokens : List Token) : Prop :=
  ∃ token, tokens = [token] ∧ token.kind = kind ∧ token.text = textOf kind chars

theorem finds_token {c : Char} {more rest : List Char} {kind : Kind}
    (shape : front false c (more ++ rest) = .token kind more.length)
    (other : kind.endsOperand = true → ∀ d ∈ rest.head?, d ≠ '-') :
    Finds (c :: more) rest (IsOne kind (c :: more)) := by
  intro here found
  refine ⟨[⟨kind, textOf kind (c :: more), ⟨here, here.past (c :: more)⟩⟩], here.past (c :: more),
    ⟨_, rfl, rfl, rfl⟩, ?_⟩
  have next : scanFrom (here.past (c :: more)) kind.endsOperand
      (⟨kind, textOf kind (c :: more), ⟨here, here.past (c :: more)⟩⟩ :: found) rest =
        scanFrom (here.past (c :: more)) false
          (⟨kind, textOf kind (c :: more), ⟨here, here.past (c :: more)⟩⟩ :: found) rest := by
    cases ends : kind.endsOperand with
    | false => rfl
    | true => exact scanFrom_touching (other ends)
  rw [List.cons_append, scanFrom_token shape]
  simpa using next

theorem finds_symbol {kind : Kind} {chars rest : List Char}
    (spelled : kind.symbol? = some (String.ofList chars))
    (loose : kind.grows = true → ∀ d ∈ rest.head?, isGlue d = false)
    (apart : kind = .minus → ∀ d ∈ rest.head?, d.isDigit = false)
    (other : kind.endsOperand = true → ∀ d ∈ rest.head?, d ≠ '-') :
    Finds chars rest (IsOne kind chars) := by
  obtain ⟨c, more, same, shape⟩ := front_symbol spelled loose apart
  rw [String.toList_ofList] at same
  rw [same]
  exact finds_token shape other

/-- A mark that is the same whatever follows. -/
theorem finds_mark {kind : Kind} {chars rest : List Char}
    (spelled : kind.symbol? = some (String.ofList chars))
    (plain : kind.grows = false ∧ kind ≠ .minus ∧ kind.endsOperand = false) :
    Finds chars rest (IsOne kind chars) := by
  apply finds_symbol spelled
  · simp [plain.1]
  · exact fun minus => absurd minus plain.2.1
  · simp [plain.2.2]

/-- A bracket that closes can end an operand, so no minus may follow. -/
theorem finds_closing {kind : Kind} {chars rest : List Char}
    (spelled : kind.symbol? = some (String.ofList chars)) (plain : kind.grows = false ∧ kind ≠ .minus)
    (stop : ∀ d ∈ rest.head?, d ≠ '-') : Finds chars rest (IsOne kind chars) := by
  apply finds_symbol spelled
  · simp [plain.1]
  · exact fun minus => absurd minus plain.2
  · exact fun _ => stop

theorem finds_lexeme {c : Char} {more rest : List Char} {kind : Kind}
    (known : wordKind (String.ofList (c :: more)) = kind) (letter : c.isAlpha = true)
    (inside : more.all isWordChar = true) (stop : ∀ d ∈ rest.head?, isWordChar d = false ∧ d ≠ '-') :
    Finds (c :: more) rest (IsOne kind (c :: more)) := by
  have shape := @front_word false _ _ _ letter (List.all_eq_true.mp inside) fun d first => (stop d first).1
  rw [known] at shape
  exact finds_token shape fun _ d first => (stop d first).2

/-- A source that is scanned to its end, and the end of input after it. -/
theorem tokenize_of_finds {source : Source} {condition : List Token → Prop}
    (finds : Finds source.text.toList [] condition) :
    ∃ tokens last, tokenize source = .ok (tokens ++ [last]) ∧ condition tokens ∧ last.kind = .endOfInput := by
  obtain ⟨tokens, there, holds, scanned⟩ := finds (.start source) []
  refine ⟨tokens, ⟨.endOfInput, none, .empty there⟩, ?_, holds, rfl⟩
  rw [List.append_nil] at scanned
  rw [tokenize, scanned, scanFrom]
  simp

end RecordLayout.Token
