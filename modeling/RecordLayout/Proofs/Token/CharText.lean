import RecordLayout.Proofs.Text.Pieces
import RecordLayout.Proofs.Token.Faults
import RecordLayout.Proofs.Token.Tiling

/-! What char literals denote. Their texts are counted when they are scanned and decoded by escapes when their bytes
are asked for. The two agree on what one character is, but for a backslash before two characters of which the second
is not a part of the escape. -/

namespace RecordLayout

namespace Text

/-- One character in its bytes, or one byte. -/
def DenotesOne (content : List Char) : Prop :=
  (∃ c, unescape content = String.utf8EncodeChar c) ∨ ∃ byte, unescape content = [byte]

/-- The escape is over before the text is: of two characters behind a backslash, only `x` and a digit belong
together. -/
def LeavesOver (content : List Char) : Prop :=
  ∃ c d, content = ['\\', c, d] ∧ ¬ (c = 'x' ∧ (hexDigit? d).isSome)

/-- The character that an escape of one character stands for. -/
def escaped : Char → Char
  | 'n' => '\n'
  | 't' => '\t'
  | 'r' => '\r'
  | '0' => '\x00'
  | c => c

theorem escapeBytes_eq (c : Char) : escapeBytes c = String.utf8EncodeChar (escaped c) := by
  unfold escapeBytes
  split
  case h_5 => rw [escaped] <;> assumption
  all_goals rfl

/-- Characters can be told from their bytes. -/
theorem flatMap_utf8EncodeChar_inj {first second : List Char}
    (same : first.flatMap String.utf8EncodeChar = second.flatMap String.utf8EncodeChar) : first = second := by
  refine String.ofList_inj.mp (String.toByteArray_inj.mp ?_)
  rw [String.toByteArray_ofList, String.toByteArray_ofList, List.utf8Encode, List.utf8Encode, same]

/-- Two characters are more than one, and more than one byte. -/
theorem not_denotesOne {content : List Char} {first second : Char}
    (bytes : unescape content = String.utf8EncodeChar first ++ String.utf8EncodeChar second) : ¬ DenotesOne content := by
  rintro (⟨c, one⟩ | ⟨byte, one⟩)
  · have same : [first, second].flatMap String.utf8EncodeChar = [c].flatMap String.utf8EncodeChar := by
      simpa using bytes.symm.trans one
    cases flatMap_utf8EncodeChar_inj same
  · have length := congrArg List.length (bytes.symm.trans one)
    simp only [List.length_append, String.length_utf8EncodeChar, List.length_singleton] at length
    have some := first.utf8Size_pos
    have more := second.utf8Size_pos
    omega

theorem unescape_char (c : Char) : unescape [c] = String.utf8EncodeChar c := by
  by_cases escape : c = '\\'
  · subst escape
    rfl
  · rw [unescape_plain escape, unescape, List.append_nil]

theorem unescape_other {c : Char} (other : c ≠ 'x') (rest : List Char) :
    unescape ('\\' :: c :: rest) = String.utf8EncodeChar (escaped c) ++ unescape rest := by
  rw [unescape, escapeBytes_eq]
  all_goals simp [other]

theorem unescape_short (c : Char) : unescape ['\\', c] = String.utf8EncodeChar (escaped c) := by
  by_cases hex : c = 'x'
  · subst hex
    rfl
  · rw [unescape_other hex, unescape, List.append_nil]

theorem unescape_leavesOver {c d : Char} (apart : ¬ (c = 'x' ∧ (hexDigit? d).isSome)) :
    unescape ['\\', c, d] = String.utf8EncodeChar (escaped c) ++ String.utf8EncodeChar d := by
  by_cases hex : c = 'x'
  · have none : hexDigit? d = none := by simpa [hex] using apart
    subst hex
    rw [unescape, none, unescape_char]
    rfl
  · rw [unescape_other hex, unescape_char]

theorem denotesOne_hex {d : Char} {value : Nat} (digit : hexDigit? d = some value) :
    unescape ['\\', 'x', d] = [value.toUInt8] := by
  rw [unescape, digit]

end Text

namespace Token

theorem denotesOne_iff {content : List Char} (known : IsCharText content) :
    Text.DenotesOne content ↔ ¬ Text.LeavesOver content := by
  rcases known with ⟨c, _, rfl⟩ | ⟨behind, rfl, one | two⟩
  · exact iff_of_true (.inl ⟨c, Text.unescape_char c⟩) fun ⟨_, _, same, _⟩ => by cases same
  · obtain ⟨c, rfl⟩ := List.length_eq_one_iff.mp one
    exact iff_of_true (.inl ⟨_, Text.unescape_short c⟩) fun ⟨_, _, same, _⟩ => by cases same
  · obtain ⟨c, d, rfl⟩ := List.length_eq_two.mp two
    constructor
    · rintro denotes ⟨c, d, same, apart⟩
      cases same
      exact Text.not_denotesOne (Text.unescape_leavesOver apart) denotes
    · intro whole
      have together : c = 'x' ∧ (Text.hexDigit? d).isSome := by
        by_contra apart
        exact whole ⟨c, d, rfl, apart⟩
      obtain ⟨rfl, digit⟩ := together
      obtain ⟨value, digit⟩ := Option.isSome_iff_exists.mp digit
      exact .inr ⟨_, Text.denotesOne_hex digit⟩

/-- What closes a char literal has been counted. -/
theorem isCharText_of_quoted {content : List Char} {kind : Kind}
    (read : quoted '\x27' .char (content ++ ['\x27']) = .token kind (content.length + 1)) : IsCharText content := by
  unfold quoted at read
  split at read
  next => cases read
  next extent closed =>
    dsimp only at read
    split at read
    next => cases read
    next counted =>
      cases read
      have whole : ((content ++ ['\x27']).take (content.length + 1)).dropLast = content := by
        rw [List.take_of_length_le (by simp), List.dropLast_concat]
      rw [whole] at counted
      simpa [isOneChar_iff] using counted

theorem isCharText_of_ofLexeme? {content : List Char}
    (known : Kind.ofLexeme? ('\x27' :: (content ++ ['\x27'])) = some .char) : IsCharText content := by
  obtain ⟨c, more, same, found⟩ := front_of_ofLexeme? known
  cases same
  have quote : front false '\x27' (content ++ ['\x27']) = quoted '\x27' .char (content ++ ['\x27']) := rfl
  rw [quote, List.length_append] at found
  exact isCharText_of_quoted found

theorem Covers.charText {here : Position} {chars : List Char} {tokens : List Token} (covers : Covers here chars tokens) :
    ∀ token ∈ tokens, token.kind = .char → ∃ content, token.text = Option.some (String.ofList content) ∧
      IsCharText content := by
  induction covers with
  | finish => simp
  | token _ known spelled _ ih =>
    refine List.forall_mem_cons.mpr ⟨?_, ih⟩
    rintro rfl
    cases spelled with
    | whole plain => simp at plain
    | char => exact ⟨_, rfl, isCharText_of_ofLexeme? known⟩
    | symbol symbol => cases symbol

end Token

/-- The text of a char literal denotes one character, or one byte by an escape, unless something is left over behind
its escape. Then it denotes two characters, and not one. -/
theorem denotesOne_of_tokenize {source : Source} {tokens : List Token} (scanned : tokenize source = .ok tokens) :
    ∀ token ∈ tokens, token.kind = .char → ∃ content, token.text = some (String.ofList content) ∧
      (Text.DenotesOne content ↔ ¬ Text.LeavesOver content) ∧
      ∀ c d, content = ['\\', c, d] → Text.LeavesOver content →
        Text.unescape content = String.utf8EncodeChar (Text.escaped c) ++ String.utf8EncodeChar d := by
  intro token member literal
  obtain ⟨content, text, known⟩ := (covers_of_tokenize scanned).charText token member literal
  refine ⟨content, text, Token.denotesOne_iff known, ?_⟩
  rintro c d rfl ⟨_, _, same, apart⟩
  cases same
  exact Text.unescape_leavesOver apart

/-- A character of two bytes, an escaped quote, a byte of one digit, and an escape with a character behind it. -/
def quotedSource : Source :=
  ⟨"", "'é' '\\'' '\\x5' '\\ab'"⟩

def quotedSpan (start column stop endColumn : Nat) : Span :=
  ⟨⟨start, 0, column, quotedSource⟩, ⟨stop, 0, endColumn, quotedSource⟩⟩

def quotedTokens : List Token :=
  [⟨.char, some "é", quotedSpan 0 0 4 3⟩, ⟨.char, some "\\'", quotedSpan 5 4 9 8⟩,
   ⟨.char, some "\\x5", quotedSpan 10 9 15 14⟩, ⟨.char, some "\\ab", quotedSpan 16 15 21 20⟩,
   ⟨.endOfInput, none, quotedSpan 21 20 21 20⟩]

theorem denotesOne_of_quotedSource :
    tokenize quotedSource = .ok quotedTokens ∧ Text.DenotesOne ['é'] ∧ Text.DenotesOne ['\\', '\x27'] ∧
      Text.DenotesOne ['\\', 'x', '5'] ∧ ¬ Text.DenotesOne ['\\', 'a', 'b'] ∧
      Text.unescape ['\\', 'a', 'b'] = String.utf8EncodeChar 'a' ++ String.utf8EncodeChar 'b' := by
  have scanned : tokenize quotedSource = .ok quotedTokens := by cbv
  have known (content : List Char) (span : Span) (present : ⟨.char, some (String.ofList content), span⟩ ∈ quotedTokens) :
      (Text.DenotesOne content ↔ ¬ Text.LeavesOver content) ∧ ∀ c d, content = ['\\', c, d] →
        Text.LeavesOver content → Text.unescape content = String.utf8EncodeChar (Text.escaped c) ++ String.utf8EncodeChar d := by
    obtain ⟨same, text, rest⟩ := denotesOne_of_tokenize scanned _ present rfl
    obtain rfl := String.ofList_inj.mp (Option.some.inj text)
    exact rest
  have accented : ¬ Text.LeavesOver ['é'] := by
    rintro ⟨_, _, same, _⟩
    cases same
  have quote : ¬ Text.LeavesOver ['\\', '\x27'] := by
    rintro ⟨_, _, same, _⟩
    cases same
  have digit : ¬ Text.LeavesOver ['\\', 'x', '5'] := by
    rintro ⟨_, _, same, apart⟩
    cases same
    exact apart (by decide)
  have left : Text.LeavesOver ['\\', 'a', 'b'] := ⟨'a', 'b', rfl, by decide⟩
  obtain ⟨denotes, bytes⟩ := known ['\\', 'a', 'b'] (quotedSpan 16 15 21 20) (by simp [quotedTokens])
  exact ⟨scanned, (known _ (quotedSpan 0 0 4 3) (by simp [quotedTokens])).1.mpr accented,
    (known _ (quotedSpan 5 4 9 8) (by simp [quotedTokens])).1.mpr quote,
    (known _ (quotedSpan 10 9 15 14) (by simp [quotedTokens])).1.mpr digit,
    fun one => denotes.mp one left, bytes 'a' 'b' rfl left⟩

/-- A literal that is accepted and denotes two characters. -/
theorem two_characters_of_tokenize :
    ∃ span, tokenize ⟨"", "'\\ab'"⟩ = .ok [⟨.char, some "\\ab", span⟩, ⟨.endOfInput, none, .empty span.stop⟩] ∧
      Text.unescape "\\ab".toList = [0x61, 0x62] ∧ ¬ Text.DenotesOne "\\ab".toList := by
  refine ⟨⟨⟨0, 0, 0, ⟨"", "'\\ab'"⟩⟩, ⟨5, 0, 5, ⟨"", "'\\ab'"⟩⟩⟩, by cbv, by cbv, ?_⟩
  exact Text.not_denotesOne (Text.unescape_leavesOver (by decide : ¬ ('a' = 'x' ∧ (Text.hexDigit? 'b').isSome)))

end RecordLayout
