import Mathlib.Algebra.Group.Nat.Even
import Mathlib.Data.List.DropRight
import RecordLayout.Proofs.Joined.Scan

/-! What the scan refuses. It stops at the first characters that make up no token, which are of one of four sorts; what
stands before them is scanned to its end when it stands alone, since no token looks further than they begin. -/

namespace RecordLayout

namespace Token

/-! Literals that go on. A quote is escaped where it stands behind an odd number of backslashes. -/

/-- How many backslashes there are at the end. -/
def escapes (content : List Char) : Nat :=
  (content.rtakeWhile (· = '\\')).length

/-- What follows is not escaped. -/
def EndsPaired (content : List Char) : Prop :=
  Even (escapes content)

/-- None of the quotes among the characters closes a literal. -/
def Unclosed (quote : Char) (chars : List Char) : Prop :=
  ∀ content after, chars = content ++ quote :: after → ¬ EndsPaired content

/-- What a char literal may hold: a character, or a backslash and one or two more. -/
def IsCharText (content : List Char) : Prop :=
  (∃ c, c ≠ '\\' ∧ content = [c]) ∨
    ∃ escaped, content = '\\' :: escaped ∧ (escaped.length = 1 ∨ escaped.length = 2)

theorem isOneChar_iff {content : List Char} : isOneChar content = true ↔ IsCharText content := by
  unfold isOneChar IsCharText
  split
  next escaped => simp
  next plain =>
    rw [beq_iff_eq, List.length_eq_one_iff]
    constructor
    · rintro ⟨c, rfl⟩
      exact .inl ⟨c, fun escape => plain [] (by rw [escape]), rfl⟩
    · rintro (⟨c, _, same⟩ | ⟨escaped, rfl, _⟩)
      · exact ⟨c, same⟩
      · exact absurd rfl (plain escaped)

variable {quote c : Char} {content rest : List Char} {count : Nat}

theorem escapes_cons (c : Char) (content : List Char) : escapes (c :: content) =
    if c = '\\' ∧ escapes content = content.length then content.length + 1 else escapes content := by
  have run (chars : List Char) : escapes chars = (chars.reverse.takeWhile (· = '\\')).length := by
    simp [escapes, List.rtakeWhile]
  rw [run, run, List.reverse_cons, List.takeWhile_append, List.length_reverse]
  split
  next all =>
    by_cases escape : c = '\\' <;> simp [escape, all]
  next some => rw [if_neg fun both => some both.2]

theorem endsPaired_cons (plain : c ≠ '\\') : EndsPaired (c :: content) ↔ EndsPaired content := by
  rw [EndsPaired, escapes_cons, if_neg fun both => plain both.1, EndsPaired]

theorem endsPaired_pair : EndsPaired ('\\' :: c :: content) ↔ EndsPaired content := by
  have bound : escapes content ≤ content.length := by
    rw [escapes, List.rtakeWhile, List.length_reverse, ← content.length_reverse]
    exact (List.takeWhile_sublist _).length_le
  simp only [EndsPaired, escapes_cons, List.length_cons, Nat.even_iff, true_and]
  split_ifs <;> omega

theorem unclosed_nil : Unclosed quote [] := by
  simp [Unclosed]

/-- A backslash escapes the character behind it, so a literal goes on behind both. -/
theorem unclosed_pair (quotes : quote ≠ '\\') : Unclosed quote ('\\' :: c :: rest) ↔ Unclosed quote rest := by
  constructor
  · intro unclosed content after split paired
    exact unclosed ('\\' :: c :: content) after (by simp [split]) (endsPaired_pair.mpr paired)
  · intro unclosed content after split paired
    match content, split with
    | [], split => exact quotes (List.cons.inj split).1.symm
    | [d], split =>
      obtain rfl := (List.cons.inj split).1
      simp [EndsPaired, escapes, List.rtakeWhile] at paired
    | d :: e :: content, split =>
      simp only [List.cons_append, List.cons.injEq] at split
      obtain ⟨rfl, rfl, split⟩ := split
      exact unclosed content after split (endsPaired_pair.mp paired)

theorem unclosed_cons (plain : c ≠ '\\') (other : c ≠ quote) : Unclosed quote (c :: rest) ↔ Unclosed quote rest := by
  constructor
  · intro unclosed content after split paired
    exact unclosed (c :: content) after (by simp [split]) ((endsPaired_cons plain).mpr paired)
  · intro unclosed content after split paired
    cases content with
    | nil => exact other (List.cons.inj split).1
    | cons d content =>
      rw [List.cons_append, List.cons.injEq] at split
      obtain ⟨rfl, split⟩ := split
      exact unclosed content after split ((endsPaired_cons plain).mp paired)

/-- A literal ends at the first quote that is not escaped. -/
theorem closing?_cases (quotes : quote ≠ '\\') :
    closing? quote count rest = none ∧ Unclosed quote rest ∨
      ∃ content after, rest = content ++ quote :: after ∧ EndsPaired content ∧ Unclosed quote content ∧
        closing? quote count rest = some (count + content.length + 1) := by
  fun_induction closing? quote count rest with
  | case1 => exact .inl ⟨rfl, unclosed_nil⟩
  | case2 =>
    refine .inl ⟨rfl, fun content after split _ => ?_⟩
    cases content with
    | nil => exact quotes (List.cons.inj split).1.symm
    | cons d content => simp at split
  | case3 count c rest ih =>
    rcases ih with ⟨open_, unclosed⟩ | ⟨content, after, rfl, paired, unclosed, found⟩
    · exact .inl ⟨open_, (unclosed_pair quotes).mpr unclosed⟩
    · refine .inr ⟨'\\' :: c :: content, after, rfl, endsPaired_pair.mpr paired,
        (unclosed_pair quotes).mpr unclosed, ?_⟩
      rw [found, List.length_cons, List.length_cons]
      congr 1
      omega
  | case4 count rest notLast notEscape =>
    refine .inr ⟨[], rest, rfl, by simp [EndsPaired, escapes], unclosed_nil, rfl⟩
  | case5 count c rest notLast notEscape other ih =>
    have plain : c ≠ '\\' := by
      rintro rfl
      cases rest with
      | nil => exact notLast rfl rfl
      | cons d rest => exact notEscape d rest rfl rfl
    rcases ih with ⟨open_, unclosed⟩ | ⟨content, after, rfl, paired, unclosed, found⟩
    · exact .inl ⟨open_, (unclosed_cons plain other).mpr unclosed⟩
    · refine .inr ⟨c :: content, after, rfl, (endsPaired_cons plain).mpr paired,
        (unclosed_cons plain other).mpr unclosed, ?_⟩
      rw [found, List.length_cons]
      congr 1
      omega

/-! The four sorts of mistakes. -/

/-- Characters that something may begin with: layout, words, numbers, operators, punctuation and literals. -/
def Begins (c : Char) : Prop :=
  c ∈ [' ', '\t', '\r', '\n'] ∨ c.isAlpha = true ∨ c.isDigit = true ∨
    c ∈ ['+', '-', '*', '/', '^', '~', '&', '|', '<', '>', '=', '!', '(', ')', '\x7b', '\x7d', '[', ']', ',', '.', ':',
      '?', '\\', '\x22', '\x27']

inductive Mistake where
  | illegal
  | halfOperator
  | unclosed
  | notOneChar

/-- The error says of the characters from the place on that they begin with the mistake. -/
def Mistake.Reported (error : CompileError) (here : Position) (chars : List Char) : Mistake → Prop
  | illegal => ∃ c rest, chars = c :: rest ∧ error = .illegalCharacter ⟨here, here.step c⟩ c ∧ ¬ Begins c
  | halfOperator => ∃ c rest, chars = c :: rest ∧ error = .expectedMore ⟨here, here.step c⟩ ["="] ∧
      (c = '=' ∨ c = '!') ∧ rest.head? ≠ some '='
  | unclosed => ∃ quote rest, chars = quote :: rest ∧
      error = .expectedMore ⟨here, here.past chars⟩ [quote.toString] ∧ (quote = '\x22' ∨ quote = '\x27') ∧
        Unclosed quote rest
  | notOneChar => ∃ content rest, chars = '\x27' :: content ++ '\x27' :: rest ∧
      error = .invalidSyntax ⟨here, here.past ('\x27' :: content ++ ['\x27'])⟩
        ("char literal must hold one character or a short escape, found '" ++ String.ofList content ++ "'") ∧
      Unclosed '\x27' content ∧ EndsPaired content ∧ ¬ IsCharText content

/-- The sort of a mistake can be told from what is reported. -/
def Mistake.ofError? : CompileError → Option Mistake
  | .illegalCharacter .. => some illegal
  | .expectedMore _ expected => some (if expected = ["="] then halfOperator else unclosed)
  | .invalidSyntax .. => some notOneChar
  | _ => none

theorem Mistake.Reported.ofError? {error : CompileError} {here : Position} {chars : List Char} {mistake : Mistake}
    (reported : mistake.Reported error here chars) : ofError? error = some mistake := by
  cases mistake with
  | illegal =>
    obtain ⟨_, _, _, rfl, _⟩ := reported
    rfl
  | halfOperator =>
    obtain ⟨_, _, _, rfl, _⟩ := reported
    rfl
  | unclosed =>
    obtain ⟨_, _, _, rfl, rfl | rfl, _⟩ := reported <;> rfl
  | notOneChar =>
    obtain ⟨_, _, _, rfl, _⟩ := reported
    rfl

variable {touching : Bool} {cause : ScanFault} {extent : Nat}

theorem quoted_eq_fault {literal : Kind} (quotes : quote ≠ '\\')
    (shape : quoted quote literal rest = .fault cause extent) :
    cause = .unfinished quote ∧ extent = rest.length ∧ Unclosed quote rest ∨
      literal = .char ∧ ∃ content after, rest = content ++ quote :: after ∧ extent = content.length + 1 ∧
        cause = .notOneChar (String.ofList content) ∧ Unclosed quote content ∧ EndsPaired content ∧
          ¬ IsCharText content := by
  unfold quoted at shape
  rcases @closing?_cases quote rest 0 quotes with ⟨none, unclosed⟩ | ⟨content, after, rfl, paired, unclosed, found⟩
  · rw [none] at shape
    cases shape
    exact .inl ⟨rfl, rfl, unclosed⟩
  · have taken : ((content ++ quote :: after).take (content.length + 1)).dropLast = content := by
      simp [List.take_append]
    rw [found, Nat.zero_add] at shape
    simp only [taken] at shape
    split at shape
    next bad =>
      cases shape
      rw [isOneChar_iff] at bad
      exact .inr ⟨bad.1, content, after, rfl, rfl, rfl, unclosed, paired, bad.2⟩
    next => cases shape

theorem punctuation?_eq_none (none : punctuation? c = none) :
    c ∉ ['+', '-', '*', '^', '~', '(', ')', '\x7b', '\x7d', '[', ']', ',', '.', ':', '?', '\\'] := by
  intro member
  have known : (['+', '-', '*', '^', '~', '(', ')', '\x7b', '\x7d', '[', ']', ',', '.', ':', '?', '\\'].all
    fun c => (punctuation? c).isSome) = true := rfl
  simpa [none] using List.all_eq_true.mp known c member

/-- Every operator but those of two equality signs begins with a character that is one by itself. -/
theorem operator?_eq_none {next : Option Char} (none : operator? c next = none) :
    c ∉ ['&', '|', '<', '>', '/'] ∧ punctuation? c = Option.none ∧ ((c = '=' ∨ c = '!') → next ≠ some '=') := by
  unfold operator? at none
  split at none
  case h_14 and or less greater slash _ _ _ _ _ _ equal notEqual =>
    refine ⟨?_, Option.map_eq_none_iff.mp none, ?_⟩
    · simpa using ⟨and, or, less, greater, slash⟩
    · rintro (rfl | rfl) rfl
      · exact equal rfl rfl
      · exact notEqual rfl rfl
  all_goals cases none

theorem reported_of_quoted {literal : Kind} (opens : c = '\x22' ∧ literal = .string ∨ c = '\x27' ∧ literal = .char)
    (shape : quoted c literal rest = .fault cause extent) (here : Position) :
    ∃ mistake : Mistake,
      mistake.Reported (cause.toError ⟨here, here.past (c :: rest.take extent)⟩) here (c :: rest) := by
  have quotes : c ≠ '\\' := by rcases opens with ⟨rfl, _⟩ | ⟨rfl, _⟩ <;> decide
  rcases quoted_eq_fault quotes shape with ⟨rfl, rfl, unclosed⟩ | ⟨rfl, content, after, rfl, rfl, rfl, only⟩
  · rw [List.take_length]
    exact ⟨.unclosed, c, rest, rfl, rfl, opens.imp And.left And.left, unclosed⟩
  · obtain rfl : c = '\x27' := by simpa using opens
    have covered : (content ++ '\x27' :: after).take (content.length + 1) = content ++ ['\x27'] := by
      simp [List.take_append]
    rw [covered]
    exact ⟨.notOneChar, content, after, rfl, rfl, only⟩

theorem reported_of_front (shape : front touching c rest = .fault cause extent) (here : Position) :
    ∃ mistake : Mistake,
      mistake.Reported (cause.toError ⟨here, here.past (c :: rest.take extent)⟩) here (c :: rest) := by
  unfold front at shape
  split at shape
  next => cases shape
  next noSpace =>
    split at shape
    next => cases shape
    next noDigit =>
      split at shape
      next => cases shape
      split at shape
      next => cases shape
      next noLetter =>
        split at shape
        next opens => exact reported_of_quoted (.inl ⟨opens, rfl⟩) shape here
        next noString =>
          split at shape
          next opens => exact reported_of_quoted (.inr ⟨opens, rfl⟩) shape here
          next noChar =>
            split at shape
            next => cases shape
            split at shape
            next => cases shape
            next none =>
              obtain ⟨noGrowing, noPunctuation, alone⟩ := operator?_eq_none none
              have other := punctuation?_eq_none noPunctuation
              split at shape
              next half =>
                cases shape
                exact ⟨.halfOperator, c, rest, rfl, rfl, half, alone half⟩
              next whole =>
                cases shape
                refine ⟨.illegal, c, rest, rfl, rfl, ?_⟩
                rintro (space | letter | digit | mark)
                · simp [isSpace] at noSpace
                  simp [noSpace] at space
                · exact noLetter letter
                · exact noDigit digit
                · simp only [List.mem_cons, List.not_mem_nil, or_false, not_or] at mark noGrowing other whole
                  grind

/-! The text before a mistake. -/

/-- What fails has scanned some characters, which it also scans by themselves. -/
theorem fault_of_scanFrom {here : Position} {found : List Token} {chars : List Char} {error : CompileError}
    (failed : scanFrom here touching found chars = .error error) :
    ∃ before c rest inside cause extent, chars = before ++ c :: rest ∧
      front inside c rest = .fault cause extent ∧
      error = cause.toError ⟨here.past before, (here.past before).past (c :: rest.take extent)⟩ ∧
      ∀ there known, ∃ tokens, scanFrom there touching known before = .ok tokens := by
  fun_induction scanFrom here touching found chars with
  | case1 => cases failed
  | case2 here touching found c chars shape ih =>
    obtain ⟨before, d, rest, inside, cause, extent, rfl, fault, rfl, alone⟩ := ih failed
    refine ⟨c :: before, d, rest, inside, cause, extent, rfl, fault, rfl, fun there known => ?_⟩
    obtain ⟨tokens, scanned⟩ := alone (there.step c) known
    exact ⟨tokens, (scanFrom_space (front_of_isSpace (isSpace_of_front shape))).trans scanned⟩
  | case3 here touching found c chars kind size shape covered stop ih =>
    obtain ⟨before, d, rest, inside, cause, extent, split, fault, rfl, alone⟩ := ih failed
    have fits := front_extent_le shape
    have parts : chars = chars.take size ++ (before ++ d :: rest) := by rw [← split, List.take_append_drop]
    have again : front touching c (chars.take size ++ before) = .token kind size :=
      front_breaksOff shape fun e first => .inr (by rw [split, List.head?_append, first]; rfl)
    have length : (chars.take size).length = size := List.length_take_of_le fits
    refine ⟨c :: (chars.take size ++ before), d, rest, inside, cause, extent, ?_, fault, ?_, fun there known => ?_⟩
    · rw [List.cons_append, List.append_assoc, ← parts]
    · rw [← List.cons_append, Position.past_append]
    · obtain ⟨tokens, scanned⟩ :=
        alone (there.past covered) (⟨kind, textOf kind covered, ⟨there, there.past covered⟩⟩ :: known)
      refine ⟨tokens, (scanFrom_token again).trans ?_⟩
      rw [List.take_left' length, List.drop_left' length]
      exact scanned
  | case4 here touching found c rest cause extent shape =>
    cases failed
    refine ⟨[], c, rest, touching, cause, extent, rfl, shape, rfl, fun there known => ?_⟩
    rw [scanFrom]
    exact ⟨_, rfl⟩

end Token

/-- A source is refused because of the first characters in it that make up no token. What stands before them is
accepted by itself, and they are of exactly one of four sorts. -/
theorem mistake_of_tokenize {source : Source} {error : CompileError} (failed : tokenize source = .error error) :
    ∃ front back, source.text.toList = front ++ back ∧
      (∃ tokens, tokenize ⟨source.id, String.ofList front⟩ = .ok tokens) ∧
      ∃! mistake : Token.Mistake, mistake.Reported error ((Position.start source).past front) back := by
  obtain ⟨before, c, rest, inside, cause, extent, whole, fault, rfl, alone⟩ := Token.fault_of_scanFrom failed
  obtain ⟨mistake, reported⟩ := Token.reported_of_front fault ((Position.start source).past before)
  obtain ⟨tokens, scanned⟩ := alone (.start ⟨source.id, String.ofList before⟩) []
  refine ⟨before, c :: rest, whole, ⟨tokens, ?_⟩, mistake, reported, fun other also => ?_⟩
  · rw [tokenize, String.toList_ofList, scanned]
  · exact Option.some.inj (also.ofError?.symm.trans reported.ofError?)

/-- A string with two backslashes before its closing quote, and a char literal with one before a quote, which does not
close it. -/
def escapedSource : Source :=
  ⟨"", "\"a\\\\\" '\\'"⟩

def escapedError : CompileError :=
  .expectedMore ⟨⟨6, 0, 6, escapedSource⟩, ⟨9, 0, 9, escapedSource⟩⟩ ["'"]

theorem mistake_of_escapedSource :
    tokenize escapedSource = .error escapedError ∧ ∃ front back, escapedSource.text.toList = front ++ back ∧
      (∃ tokens, tokenize ⟨"", String.ofList front⟩ = .ok tokens) ∧
      ∃! mistake : Token.Mistake, mistake.Reported escapedError ((Position.start escapedSource).past front) back :=
  have failed : tokenize escapedSource = .error escapedError := by cbv
  ⟨failed, mistake_of_tokenize failed⟩

end RecordLayout
