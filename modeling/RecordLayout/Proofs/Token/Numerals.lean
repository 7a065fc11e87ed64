import RecordLayout.Proofs.Token.Tiling

/-! Numbers and minuses. A minus is the sign of a number exactly where a digit follows and no operand touches it, and a
number takes all characters that can go on with it. What the scan remembers of the token before is all that this
depends on, so it is carried along as what was found last. -/

namespace RecordLayout

namespace Token

def Kind.isNumeral : Kind → Bool
  | .integer | .float => true
  | _ => false

/-- Kinds of tokens that may hold any characters. -/
def Kind.isFree : Kind → Bool
  | .comment | .string | .char => true
  | _ => false

/-- An optional minus and digits, and in a float a point and perhaps more digits. -/
inductive NumeralText : Kind → List Char → Prop where
  | integer {sign digits} (signed : sign = [] ∨ sign = ['-']) (some : digits ≠ [])
      (inside : ∀ d ∈ digits, d.isDigit = true) : NumeralText .integer (sign ++ digits)
  | float {sign digits fraction} (signed : sign = [] ∨ sign = ['-']) (some : digits ≠ [])
      (inside : ∀ d ∈ digits, d.isDigit = true) (behind : ∀ d ∈ fraction, d.isDigit = true) :
      NumeralText .float (sign ++ digits ++ '.' :: fraction)

/-- The token is a number, and what follows it does not go on with it. -/
structure IsNumeral (token : Token) : Prop where
  spelled : ∃ content, token.text = some (String.ofList content) ∧ NumeralText token.kind content
  maximal : ∀ d ∈ token.span.stop.current?, d.isDigit = false ∧ (token.kind = .integer → d ≠ '.')

/-- The place is in no comment and no literal. -/
def IsOutside (tokens : List Token) (here : Position) : Prop :=
  ∀ token ∈ tokens, token.kind.isFree = true →
    ¬ (token.span.start.index ≤ here.index ∧ here.index < token.span.stop.index)

/-- The last of the tokens is an operand, or closes one, and ends at the place. -/
def Touches (before : List Token) (here : Position) : Prop :=
  ∃ previous, before.getLast? = some previous ∧ previous.span.stop.index = here.index ∧
    previous.kind ∈ [.integer, .float, .identifier, .dataType, .rightParen, .rightBracket]

/-- At the place is a token that is a number or else the minus alone. It is a number exactly where a digit follows the
minus and no operand touches it. -/
def SplitsMinus (tokens : List Token) (here : Position) (next : Option Char) : Prop :=
  ∃ before token after, tokens = before ++ token :: after ∧ token.span.start = here ∧
    (token.kind.isNumeral = true ∨ token.kind = .minus ∧ token.span.stop = here.step '-') ∧
    (token.kind.isNumeral = true ↔ next.any Char.isDigit = true ∧ ¬ Touches before here)

theorem endsOperand_iff {kind : Kind} : kind.endsOperand = true ↔
    kind ∈ [Kind.integer, .float, .identifier, .dataType, .rightParen, .rightBracket] := by
  cases kind <;> decide

variable {touching : Bool} {c : Char} {rest chars : List Char} {kind : Kind} {extent : Nat}

/-! One token. -/

theorem front_minus : front touching '-' rest =
    if rest.head?.any Char.isDigit = true ∧ touching = false then numeral rest else .token .minus 0 := by
  simp [front, isSpace, operator?, punctuation?]

theorem isNumeral_wordKind (word : String) : (wordKind word).isNumeral = false := by
  unfold wordKind
  split
  · rfl
  · split <;> rfl

/-- Behind the first character of a token there is a minus only in comments and literals. -/
theorem isFree_of_minus (found : front touching c rest = .token kind extent) (inside : '-' ∈ rest.take extent) :
    kind.isFree = true := by
  cases front_eq_token.mp found with
  | numeral _ read => exact absurd inside (numeral_excludes (by decide) (by decide) read)
  | word _ read =>
    cases read
    exact absurd inside (takeWhile_excludes (by decide) rest)
  | quoted opens read =>
    obtain rfl := (quoted_eq_token read).1
    rcases opens with ⟨_, rfl⟩ | ⟨_, rfl⟩ <;> rfl
  | comment => rfl
  | operator _ _ read =>
    rcases operator?_eq_some read with ⟨rfl, _⟩ | ⟨d, first, rfl, spelled⟩
    · simp at inside
    · cases rest with
      | nil => cases first
      | cons e rest =>
        cases first
        obtain rfl : '-' = d := by simpa using inside
        have said : kind.symbol?.map String.toList = some [c, '-'] := by simp [spelled]
        cases kind <;> simp [Kind.symbol?] at said

theorem numeral_of_front (found : front touching c rest = .token kind extent) (number : kind.isNumeral = true) :
    (c.isDigit = true ∨ SignsNumeral touching c rest) ∧ numeral rest = .token kind extent := by
  cases front_eq_token.mp found with
  | numeral starts read => exact ⟨starts, read⟩
  | word _ read =>
    cases read
    simp [isNumeral_wordKind] at number
  | quoted opens read =>
    obtain rfl := (quoted_eq_token read).1
    rcases opens with ⟨_, rfl⟩ | ⟨_, rfl⟩ <;> cases number
  | comment => cases number
  | operator _ _ read =>
    have symbol := symbol_of_operator? read
    have none : kind.symbol? = none := by cases kind <;> first | rfl | cases number
    rw [none] at symbol
    cases symbol

theorem numeralText_of_front (found : front touching c rest = .token kind extent) (number : kind.isNumeral = true) :
    NumeralText kind (c :: rest.take extent) ∧
      ∀ d ∈ (rest.drop extent).head?, d.isDigit = false ∧ (kind = .integer → d ≠ '.') := by
  obtain ⟨starts, read⟩ := numeral_of_front found number
  obtain ⟨front, back, rfl, digits⟩ := exists_digits rest
  obtain ⟨known, rfl⟩ := (numeral_eq_token digits).mp read
  rw [List.take_left, List.drop_left]
  cases digits with
  | whole inside stop =>
    have pointless : '.' ∉ front := fun point => absurd (inside '.' point) (by decide)
    obtain rfl : Kind.integer = kind := by simpa [pointless] using known
    refine ⟨?_, fun d first => ⟨(stop d first).1, fun _ => (stop d first).2⟩⟩
    rcases starts with digit | ⟨rfl, next, _⟩
    · exact .integer (.inl rfl) (List.cons_ne_nil c front) (List.forall_mem_cons.mpr ⟨digit, inside⟩)
    · refine .integer (.inr rfl) ?_ inside
      rintro rfl
      obtain ⟨d, first, digit⟩ := (Option.any_eq_true _ _).mp next
      simp [(stop d first).1] at digit
  | @point digits fraction _ inside behind stop =>
    obtain rfl : Kind.float = kind := by simpa using known
    refine ⟨?_, fun d first => ⟨stop d first, nofun⟩⟩
    rcases starts with digit | ⟨rfl, next, _⟩
    · exact .float (.inl rfl) (List.cons_ne_nil c digits) (List.forall_mem_cons.mpr ⟨digit, inside⟩) behind
    · refine .float (.inr rfl) ?_ inside behind
      rintro rfl
      simp at next

/-! The whole scan. -/

/-- What the scan knows of the token that it found last. -/
structure Recalls (here : Position) (touching : Bool) (found : List Token) : Prop where
  behind : ∀ last ∈ found.head?, last.span.stop.index ≤ here.index
  touches : touching = true ↔ Touches found.reverse here

variable {here : Position} {found tokens : List Token}

theorem Recalls.nil : Recalls here false [] :=
  ⟨by simp, by simp [Touches]⟩

theorem Recalls.space (recalls : Recalls here touching found) : Recalls (here.step c) false found := by
  have forward := c.utf8Size_pos
  constructor
  · intro last first
    have behind := recalls.behind last first
    rw [Position.index_step]
    omega
  · simp only [Bool.false_eq_true, false_iff]
    rintro ⟨last, first, stop, _⟩
    rw [List.getLast?_reverse] at first
    have behind := recalls.behind last first
    rw [Position.index_step] at stop
    omega

theorem Recalls.token (last : Token) : Recalls last.span.stop last.kind.endsOperand (last :: found) := by
  constructor
  · simp
  · simp [endsOperand_iff, Touches]

/-- The first character of a token is a minus. -/
theorem splitsMinus_of_front {stop : Position} {more : List Token} {text : Option String}
    (recalls : Recalls here touching found) (shape : front touching '-' rest = .token kind extent)
    (ends : stop = here.past ('-' :: rest.take extent)) :
    SplitsMinus (found.reverse ++ ⟨kind, text, ⟨here, stop⟩⟩ :: more) here rest.head? := by
  refine ⟨found.reverse, _, more, rfl, rfl, ?_⟩
  rw [← recalls.touches, Bool.not_eq_true]
  rw [front_minus] at shape
  split at shape
  next sign =>
    have number : kind.isNumeral = true := by rcases kind_of_numeral shape with rfl | rfl <;> rfl
    exact ⟨.inl number, iff_of_true number sign⟩
  next unsigned =>
    cases shape
    exact ⟨.inr ⟨rfl, ends⟩, iff_of_false (by simp [Kind.isNumeral]) unsigned⟩

/-- Each minus is split off where the scan comes to it, or else the token that it is in may hold anything. -/
theorem splitsMinus_of_scanFrom (scanned : scanFrom here touching found chars = .ok tokens)
    (recalls : Recalls here touching found) (mid : List Char) (split : chars = mid ++ '-' :: rest)
    (outside : IsOutside tokens (here.past mid)) : SplitsMinus tokens (here.past mid) rest.head? := by
  fun_induction scanFrom here touching found chars generalizing mid with
  | case1 => simp at split
  | case2 here touching found c chars shape ih =>
    cases mid with
    | nil =>
      cases split
      cases isSpace_of_front shape
    | cons d mid =>
      cases split
      exact ih scanned recalls.space mid rfl outside
  | case3 here touching found c chars kind extent shape covered stop ih =>
    obtain ⟨more, parts, _⟩ := covers_of_scanFrom scanned
    rw [List.reverse_cons, List.append_assoc, List.singleton_append] at parts
    cases mid with
    | nil =>
      cases split
      exact parts ▸ splitsMinus_of_front recalls shape rfl
    | cons d mid =>
      rw [List.cons_append, List.cons.injEq] at split
      obtain ⟨rfl, rfl⟩ := split
      by_cases inside : mid.length < extent
      · obtain ⟨back, taken⟩ : ∃ back, (mid ++ '-' :: rest).take extent = mid ++ '-' :: back := by
          obtain ⟨size, rfl⟩ := Nat.exists_eq_add_of_lt inside
          exact ⟨rest.take size, by simp [List.take_append, Nat.add_assoc]⟩
        have width : stop = (here.past (c :: mid)).past ('-' :: back) := by
          rw [← Position.past_append]
          simp [stop, covered, taken]
        have solid := Text.utf8Length_pos (List.cons_ne_nil '-' back)
        -- A token with a minus behind its first character is a comment or a literal, and the place is in it.
        have free := isFree_of_minus shape (by simp [taken])
        refine absurd ⟨?_, ?_⟩ (outside ⟨kind, textOf kind covered, ⟨here, stop⟩⟩ (by simp [parts]) free)
        · simp only [Position.index_past]
          omega
        · simp only [width, Position.index_past _ ('-' :: back)]
          omega
      · have behind : extent ≤ mid.length := Nat.le_of_not_lt inside
        have there : here.past (c :: mid) = stop.past (mid.drop extent) := by
          rw [← Position.past_append]
          simp [covered, List.take_append_of_le_length behind]
        rw [there] at outside ⊢
        exact ih scanned (.token ⟨kind, textOf kind covered, ⟨here, stop⟩⟩) (mid.drop extent)
          (List.drop_append_of_le_length behind) outside
  | case4 => cases scanned

/-- The numbers among the tokens go as far as they can, if those found before do. -/
theorem isNumeral_of_scanFrom {source : Source} (scanned : scanFrom here touching found chars = .ok tokens)
    (reached : ∃ front, here = (Position.start source).past front ∧ source.text.toList = front ++ chars)
    (before : ∀ token ∈ found, token.kind.isNumeral = true → token.IsNumeral) :
    ∀ token ∈ tokens, token.kind.isNumeral = true → token.IsNumeral := by
  fun_induction scanFrom here touching found chars with
  | case1 here touching found =>
    cases scanned
    intro token member number
    rw [List.mem_reverse, List.mem_cons] at member
    rcases member with rfl | member
    · cases number
    · exact before token member number
  | case2 here touching found c rest shape ih =>
    obtain ⟨front, rfl, whole⟩ := reached
    exact ih scanned ⟨front ++ [c], (Position.past_append _ front [c]).symm, by simp [whole]⟩ before
  | case3 here touching found c rest kind extent shape covered stop ih =>
    obtain ⟨front, rfl, whole⟩ := reached
    have parts : covered ++ rest.drop extent = c :: rest := by simp [covered]
    have wholeNext : source.text.toList = (front ++ covered) ++ rest.drop extent := by
      rw [List.append_assoc, parts, whole]
    have there : stop = (Position.start source).past (front ++ covered) := (Position.past_append ..).symm
    refine ih scanned ⟨front ++ covered, there, wholeNext⟩ (List.forall_mem_cons.mpr ⟨fun number => ?_, before⟩)
    obtain ⟨spelled, stops⟩ := numeralText_of_front shape number
    have text : textOf kind covered = some (String.ofList covered) := by
      cases kind <;> first | rfl | cases number
    have next : stop.current? = (rest.drop extent).head? := by
      rw [there, Position.current?, Position.after_start_past wholeNext]
    exact ⟨⟨covered, text, spelled⟩, next ▸ stops⟩
  | case4 => cases scanned

end Token

/-- Outside of comments and literals each minus is the sign of a number or a token of its own, which the character
behind it and the token before it decide; and no number could be longer than it is. -/
theorem minus_of_tokenize {source : Source} {tokens : List Token} (scanned : tokenize source = .ok tokens) :
    (∀ here, Position.Reached source here → here.current? = some '-' → Token.IsOutside tokens here →
      Token.SplitsMinus tokens here here.advance.current?) ∧
    ∀ token ∈ tokens, token.kind.isNumeral = true → token.IsNumeral := by
  constructor
  · intro here reached minus outside
    obtain ⟨front, ⟨back, whole⟩, rfl⟩ := Position.reached_iff.mp reached
    rw [Position.current?, Position.after_start_past whole.symm] at minus
    obtain ⟨rest, rfl⟩ : ∃ rest, back = '-' :: rest := by
      cases back with
      | nil => cases minus
      | cons c rest => exact ⟨rest, by simpa using minus⟩
    have next : ((Position.start source).past front).advance.current? = rest.head? := by
      have advanced : ((Position.start source).past front).advance = (Position.start source).past (front ++ ['-']) := by
        rw [Position.advance, Position.advanceBy, Position.after_start_past whole.symm, Position.past_append]
        rfl
      rw [advanced, Position.current?, @Position.after_start_past source (front ++ ['-']) rest (by simp [← whole])]
    rw [next]
    exact Token.splitsMinus_of_scanFrom scanned .nil front whole.symm outside
  · exact Token.isNumeral_of_scanFrom scanned ⟨[], rfl, rfl⟩ (by simp)

/-- A name, a bracket and a number that a minus touches, a minus behind a space and one behind a minus. -/
def minusSource : Source :=
  ⟨"", "x-4 -5.(6)-7--8"⟩

def minusSpan (start stop : Nat) : Span :=
  ⟨⟨start, 0, start, minusSource⟩, ⟨stop, 0, stop, minusSource⟩⟩

def minusTokens : List Token :=
  [⟨.identifier, some "x", minusSpan 0 1⟩, ⟨.minus, none, minusSpan 1 2⟩, ⟨.integer, some "4", minusSpan 2 3⟩,
   ⟨.float, some "-5.", minusSpan 4 7⟩, ⟨.leftParen, none, minusSpan 7 8⟩, ⟨.integer, some "6", minusSpan 8 9⟩,
   ⟨.rightParen, none, minusSpan 9 10⟩, ⟨.minus, none, minusSpan 10 11⟩, ⟨.integer, some "7", minusSpan 11 12⟩,
   ⟨.minus, none, minusSpan 12 13⟩, ⟨.integer, some "-8", minusSpan 13 15⟩, ⟨.endOfInput, none, minusSpan 15 15⟩]

theorem minus_minusTokens :
    tokenize minusSource = .ok minusTokens ∧
      Token.SplitsMinus minusTokens ⟨12, 0, 12, minusSource⟩ (some '-') ∧
      Token.SplitsMinus minusTokens ⟨13, 0, 13, minusSource⟩ (some '8') ∧
      ∀ token ∈ minusTokens, token.kind.isNumeral = true → token.IsNumeral := by
  have scanned : tokenize minusSource = .ok minusTokens := by cbv
  obtain ⟨minus, numerals⟩ := minus_of_tokenize scanned
  have outside (here : Position) : Token.IsOutside minusTokens here := by
    intro token member free
    have none : ∀ token ∈ minusTokens, token.kind.isFree = false := by decide
    rw [none token member] at free
    cases free
  refine ⟨scanned, ?_, ?_, numerals⟩
  · have reached : Position.Reached minusSource ⟨12, 0, 12, minusSource⟩ :=
      Position.reached_iff.mpr ⟨"x-4 -5.(6)-7".toList, by decide, by decide⟩
    exact minus _ reached (by decide) (outside _)
  · have reached : Position.Reached minusSource ⟨13, 0, 13, minusSource⟩ :=
      Position.reached_iff.mpr ⟨"x-4 -5.(6)-7-".toList, by decide, by decide⟩
    exact minus _ reached (by decide) (outside _)

end RecordLayout
