import RecordLayout.Proofs.Grammar.Terminals
import RecordLayout.Proofs.Token.Names
import RecordLayout.Proofs.Token.Numerals

/-! Tokens that can be read. The scan makes a float of digits with a point behind them, and the name of a type of a word
that is one, so their readers take whatever it makes. It makes a name of letters, digits and underscores, so what the
reader of escapes takes of a name has no sign and fits a byte. -/

namespace RecordLayout

namespace Decimal

variable {chars digits fraction : List Char}

/-- Digits, and a point with perhaps more digits. -/
theorem isSome_magnitude? (some : digits ≠ []) (inside : ∀ d ∈ digits, d.isDigit = true)
    (behind : ∀ d ∈ fraction, d.isDigit = true) : (magnitude? (digits ++ '.' :: fraction)).isSome = true := by
  have whole : (digits ++ '.' :: fraction).takeWhile Char.isDigit = digits := by
    rw [List.takeWhile_append_of_pos inside, List.takeWhile_cons_of_neg (by decide), List.append_nil]
  have all : fraction.takeWhile Char.isDigit = fraction := List.takeWhile_eq_self_iff.mpr behind
  have gone : fraction.dropWhile Char.isDigit = [] := List.dropWhile_eq_nil_iff.mpr behind
  have read := natural?_eq_some_iff.mpr ⟨List.append_ne_nil_of_left_ne_nil some fraction,
    List.forall_mem_append.mpr ⟨inside, behind⟩, rfl⟩
  simp [magnitude?, whole, all, gone, read, exponent?]

theorem isSome_float?_of_magnitude? {negative : Bool} {rest : List Char} (split : splitSign chars = (negative, rest))
    (read : (magnitude? rest).isSome = true) : (float? chars).isSome = true := by
  simp only [float?, split, Option.isSome_map]
  split
  · rfl
  · split
    · rfl
    · exact read

theorem isSome_float? {sign : List Char} (signed : sign = [] ∨ sign = ['-']) (some : digits ≠ [])
    (inside : ∀ d ∈ digits, d.isDigit = true) (behind : ∀ d ∈ fraction, d.isDigit = true) :
    (float? (sign ++ digits ++ '.' :: fraction)).isSome = true := by
  have read := isSome_magnitude? some inside behind
  rcases signed with rfl | rfl
  · refine isSome_float?_of_magnitude? (splitSign_of_unsigned fun c first => ?_) read
    have digit : c.isDigit = true := by
      rw [List.nil_append, List.head?_append_of_ne_nil _ some] at first
      exact inside c (List.mem_of_mem_head? first)
    constructor <;> rintro rfl <;> cases digit
  · exact isSome_float?_of_magnitude? rfl read

end Decimal

/-- One or two digits after the letter fit a byte. -/
theorem Parser.hexEscape?_lt {chars : List Char} {value : Int64} (plain : ∀ c ∈ chars, c ≠ '-' ∧ c ≠ '+')
    (read : hexEscape? chars = some value) : 0 ≤ value.toInt ∧ value.toInt < 256 := by
  obtain ⟨number, short⟩ := hexEscape?_eq_some.mp read
  obtain ⟨_, plain⟩ := List.forall_mem_cons.mp plain
  cases number with
  | plus => exact absurd rfl (plain '+' List.mem_cons_self).2
  | minus => exact absurd rfl (plain '-' List.mem_cons_self).1
  | unsigned digits same =>
    have below := digits.lt_pow
    have bound := Nat.pow_le_pow_right (by decide : 0 < 16) short
    omega

namespace Token

/-- The reader of the token's kind takes its text, and what it takes of an escape fits a byte. -/
structure IsReadable (token : Token) : Prop where
  float : token.kind = .float → (Decimal.float? token.content.toList).isSome = true
  dataType : token.kind = .dataType → (Primitive.ofName? token.content).isSome = true
  escape : token.kind = .identifier → ∀ value, Parser.hexEscape? token.content.toList = some value →
    0 ≤ value.toInt ∧ value.toInt < 256

/-- Only words that name a type are names of types. -/
theorem isSome_ofName?_of_word {c : Char} {rest : List Char} {extent : Nat}
    (found : word c rest = .token .dataType extent) :
    (Primitive.ofName? (String.ofList (c :: rest.take extent))).isSome = true := by
  unfold word at found
  injection found with known length
  subst length
  rw [← List.prefix_iff_eq_take.mp (List.takeWhile_prefix isWordChar)]
  unfold wordKind at known
  split at known
  next => cases known
  next =>
    split at known
    next named => exact named
    next => cases known

theorem IsNumeral.isSome_float? {token : Token} (numeral : token.IsNumeral) (literal : token.kind = .float) :
    (Decimal.float? token.content.toList).isSome = true := by
  obtain ⟨content, text, spelled⟩ := numeral.spelled
  have whole : token.content.toList = content := by rw [Token.content, text, Option.getD_some, String.toList_ofList]
  rw [whole]
  rw [literal] at spelled
  cases spelled with
  | float signed some inside behind => exact Decimal.isSome_float? signed some inside behind

/-- There is no sign in a name. -/
theorem IsName.unsigned {name : String} (named : IsName name) : ∀ c ∈ name.toList, c ≠ '-' ∧ c ≠ '+' := by
  obtain ⟨c, more, spelled, letter, others⟩ := named.spelled
  rw [spelled, List.forall_mem_cons]
  refine ⟨?_, fun d member => ?_⟩
  · constructor <;> rintro rfl <;> cases letter
  · have inside := others d member
    constructor <;> rintro rfl <;> revert inside <;> decide

variable {source : Source} {tokens : List Token}

theorem isSome_ofName?_of_tokenize (scanned : tokenize source = .ok tokens) :
    ∀ token ∈ tokens, token.kind = .dataType → (Primitive.ofName? token.content).isSome = true := by
  refine forall_of_scanFrom (fun _ word => by cases word) (fun shape word => ?_) (by simp) scanned
  subst word
  rcases kind_of_front shape with ⟨_, found⟩ | literal | symbol
  · exact isSome_ofName?_of_word found
  · simp at literal
  · cases symbol

theorem isReadable_of_tokenize (scanned : tokenize source = .ok tokens) : ∀ token ∈ tokens, token.IsReadable := by
  have numbers := isNumeral_of_scanFrom scanned ⟨[], rfl, rfl⟩ (by simp)
  intro token member
  refine ⟨fun literal => ?_, isSome_ofName?_of_tokenize scanned token member, fun word value read => ?_⟩
  · exact (numbers token member (by rw [literal]; rfl)).isSome_float? literal
  · exact Parser.hexEscape?_lt (isName_of_tokenize scanned token member word).unsigned read

end Token

end RecordLayout
