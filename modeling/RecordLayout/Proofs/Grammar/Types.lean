import RecordLayout.Grammar.Member
import RecordLayout.Proofs.Grammar.Condition

/-! Byte orders, delimiters and types. A choice between byte orders and a choice between types have the
same head; where the first alternative is no byte order, the search for one gives all of it back. -/

namespace RecordLayout

open Grammar

namespace Parser

variable {tokens rest : List Token}

/-! Tests on the next token. -/

theorem nextIs_bind {test : Token → Bool} {next : Bool → Parser α} :
    (nextIs test >>= next) tokens = next (tokens.head?.any test) tokens := rfl

theorem nextIsKind_bind {kind : Token.Kind} {next : Bool → Parser α} :
    (nextIsKind kind >>= next) tokens = next (tokens.head?.any (·.kind == kind)) tokens := rfl

theorem peek?_bind {next : Option Token → Parser α} :
    (peek? >>= next) tokens = next tokens.head? tokens := rfl

theorem get_bind {next : List Token → Parser α} : (get >>= next) tokens = next tokens tokens := rfl

/-! Byte orders. -/

theorem pickOrder_eq_some {token : Token} {order : ByteOrder} :
    (if token.kind = .keyword then ByteOrder.ofKeyword? token.content else none) = some order ↔
      token.IsWord order.keyword := by
  rw [Option.ite_none_right_eq_some, ByteOrder.ofKeyword?_eq_some, Token.IsWord]

theorem byteOrder?_reads : ReadsOptional byteOrder? OrderWord never := by
  refine ⟨?_, ?_, ?_⟩
  · intro tokens order rest read
    obtain ⟨token, rfl, picked⟩ := accept?_eq_some.mp read
    exact ⟨[token], rfl, .mk (pickOrder_eq_some.mp picked)⟩
  · intro tokens rest read
    exact (accept?_eq_none.mp read).1.symm
  · intro front order rest word _
    cases word with
    | @mk token _ keyword => exact accept?_eq_some.mpr ⟨token, rfl, pickOrder_eq_some.mpr keyword⟩

/-- No byte order is where the next token is no keyword. -/
theorem byteOrder?_absent (other : Clear (·.kind == .keyword) tokens) :
    byteOrder? tokens = .ok (none, tokens) := by
  refine accept?_eq_none.mpr ⟨rfl, fun token first => ?_⟩
  have different := other token first
  simp_all

/-- What stands before the alternatives of a choice. -/
inductive ChoiceHead (depth : Nat) : Phrase (Token × Condition) where
  | mk {opening front condition question} (opens : opening.kind = .leftParen)
      (test : Logic depth front condition) (asks : question.kind = .question) :
      ChoiceHead depth (opening :: (front ++ [question])) (opening, condition)

theorem choiceHead_reads (room : Nat) : Reads (choiceHead room) (ChoiceHead room) never := by
  refine ⟨?_, ?_⟩
  · intro tokens value rest read
    simp only [choiceHead, bind_eq_ok, token_eq_ok, pure_eq_ok] at read
    obtain ⟨opening, after, ⟨rfl, opens⟩, condition, _, tested, question, _, ⟨rfl, asks⟩, rfl, rfl⟩ := read
    obtain ⟨front, rfl, test⟩ := (condition_reads room).sound tested
    exact ⟨opening :: (front ++ [question]), by simp, .mk opens test asks⟩
  · intro front value rest head _
    cases head with
    | @mk opening front condition question opens test asks =>
      simp only [choiceHead, bind_eq_ok, token_eq_ok, pure_eq_ok]
      have clear : Clear extendsCondition (question :: rest) := by simp [not_extendsCondition, asks]
      have tested := (condition_reads room).complete test clear
      exact ⟨opening, front ++ question :: rest, ⟨by simp, opens⟩, condition, _, tested, question, rest,
        ⟨rfl, asks⟩, rfl, rfl⟩

/-- The rest of a choice once its condition is read. -/
theorem choiceOf_of_head {depth : Nat} {arm : Phrase α} {head first second : List Token}
    {opening colon closing : Token} {condition : Condition} {ifTrue ifFalse : α}
    (headed : ChoiceHead depth head (opening, condition)) (firstArm : arm first ifTrue)
    (parts : colon.kind = .colon) (secondArm : arm second ifFalse) (closes : closing.kind = .rightParen) :
    Chosen arm (depth + 1) (head ++ (first ++ colon :: (second ++ [closing])))
      ⟨condition, ifTrue, ifFalse, opening.span.through closing.span⟩ := by
  cases headed with
  | mk opens test asks =>
    have choice := ChoiceOf.mk opens test asks firstArm parts secondArm closes
    simpa [Chosen] using choice

theorem head_of_chosen {depth : Nat} {arm : Phrase α} {choice : Choice α}
    (chosen : Chosen arm depth tokens choice) :
    ∃ inner head opening first colon second closing, depth = inner + 1 ∧
      tokens = head ++ (first ++ colon :: (second ++ [closing])) ∧
      ChoiceHead inner head (opening, choice.condition) ∧ arm first choice.ifTrue ∧
      colon.kind = .colon ∧ arm second choice.ifFalse ∧ closing.kind = .rightParen ∧
      choice.span = opening.span.through closing.span := by
  cases depth with
  | zero => exact chosen.elim
  | succ inner =>
    cases chosen with
    | @mk opening front _ question first _ colon second _ closing opens test asks firstArm parts secondArm closes =>
      exact ⟨inner, opening :: (front ++ [question]), opening, first, colon, second, closing, rfl, by simp,
        .mk opens test asks, firstArm, parts, secondArm, closes, rfl⟩

/-- Either nothing is taken or a whole choice of byte orders. -/
theorem orderChoice?_cases {room : Nat} {found : Option (Choice ByteOrder)}
    (read : orderChoice? room tokens = .ok (found, rest)) :
    found = none ∧ tokens = rest ∨
      ∃ choice front, found = some choice ∧ tokens = front ++ rest ∧ Chosen OrderWord room front choice := by
  simp only [orderChoice?, get_bind] at read
  obtain ⟨inner, rfl, read⟩ := nested_eq_ok.mp read
  obtain ⟨⟨opening, condition⟩, after, head, read⟩ := bind_eq_ok.mp read
  obtain ⟨order, middle, first, read⟩ := bind_eq_ok.mp read
  cases order with
  | none =>
    cases read
    exact .inl ⟨rfl, rfl⟩
  | some ifTrue =>
    simp only [bind_eq_ok, token_eq_ok] at read
    obtain ⟨colon, after, ⟨rfl, parts⟩, other, last, second, read⟩ := read
    cases other with
    | none =>
      cases read
      exact .inl ⟨rfl, rfl⟩
    | some ifFalse =>
      simp only [bind_eq_ok, token_eq_ok, pure_eq_ok] at read
      obtain ⟨closing, _, ⟨rfl, closes⟩, rfl, rfl⟩ := read
      obtain ⟨front, rfl, headed⟩ := (choiceHead_reads inner).sound head
      obtain ⟨yes, rfl, firstWord⟩ := byteOrder?_reads.sound first
      obtain ⟨no, rfl, secondWord⟩ := byteOrder?_reads.sound second
      exact .inr ⟨_, _, rfl, by simp, choiceOf_of_head headed firstWord parts secondWord closes⟩

theorem orderChoice?_reads (room : Nat) :
    ReadsOptional (orderChoice? room) (Chosen OrderWord room) never := by
  refine ⟨?_, ?_, ?_⟩
  · intro tokens choice rest read
    rcases orderChoice?_cases read with ⟨none, _⟩ | ⟨_, front, same, split, chosen⟩
    · cases none
    · cases same
      exact ⟨front, split, chosen⟩
  · intro tokens rest read
    rcases orderChoice?_cases read with ⟨_, rfl⟩ | ⟨_, _, same, _⟩
    · rfl
    · cases same
  · intro front choice rest chosen _
    obtain ⟨inner, head, opening, first, colon, second, closing, rfl, rfl, headed, firstWord, parts,
      secondWord, closes, located⟩ := head_of_chosen chosen
    simp only [orderChoice?, get_bind]
    refine nested_eq_ok.mpr ⟨inner, rfl, ?_⟩
    rw [List.append_assoc, List.append_assoc]
    refine bind_eq_ok.mpr ⟨_, _, (choiceHead_reads inner).complete headed (clear_never _), ?_⟩
    refine bind_eq_ok.mpr ⟨_, _, byteOrder?_reads.complete firstWord (clear_never _), ?_⟩
    simp only [List.cons_append, List.append_assoc, bind_eq_ok, token_eq_ok]
    refine ⟨colon, _, ⟨rfl, parts⟩, _, _, byteOrder?_reads.complete secondWord (clear_never _), ?_⟩
    simp only [bind_eq_ok, token_eq_ok, pure_eq_ok]
    refine ⟨closing, rest, ⟨rfl, closes⟩, ?_, rfl⟩
    rw [← located]

/-- A choice whose first alternative begins with no keyword is left as it is. -/
theorem orderChoice?_absent {room : Nat} {arm : Phrase α} {front : List Token} {choice : Choice α}
    (begins : Phrase.Begins arm (·.kind ≠ .keyword)) (chosen : Chosen arm room front choice) :
    orderChoice? room (front ++ rest) = .ok (none, front ++ rest) := by
  obtain ⟨inner, head, opening, first, colon, second, closing, rfl, rfl, headed, firstArm, _⟩ :=
    head_of_chosen chosen
  obtain ⟨token, others, rfl, different⟩ := begins _ _ firstArm
  simp only [orderChoice?, get_bind]
  refine nested_eq_ok.mpr ⟨inner, rfl, ?_⟩
  rw [List.append_assoc, List.append_assoc]
  refine bind_eq_ok.mpr ⟨_, _, (choiceHead_reads inner).complete headed (clear_never _), ?_⟩
  exact bind_eq_ok.mpr ⟨none, _, byteOrder?_absent (by simpa using different), rfl⟩

/-! Types. -/

theorem hexEscape_eq_ok {value : Delimiter} :
    hexEscape tokens = .ok (value, rest) ↔
      ∃ backslash digits number, tokens = backslash :: digits :: rest ∧ backslash.kind = .backslash ∧
        digits.kind = .identifier ∧ Token.SpellsByte digits.content.toList number ∧
        value = .int number (backslash.span.through digits.span) := by
  simp only [hexEscape, bind_eq_ok, token_eq_ok, ← hexEscape?_eq_some]
  constructor
  · intro ⟨backslash, _, ⟨same, escape⟩, digits, _, ⟨after, word⟩, returned⟩
    cases read : hexEscape? digits.content.toList with
    | none =>
      simp only [read] at returned
      exact absurd returned failAt_ne_ok
    | some number =>
      simp only [read, pure_eq_ok] at returned
      obtain ⟨rfl, rfl⟩ := returned
      exact ⟨backslash, digits, number, after ▸ same, escape, word, read, rfl⟩
  · intro ⟨backslash, digits, number, same, escape, word, read, written⟩
    refine ⟨backslash, _, ⟨same, escape⟩, digits, rest, ⟨rfl, word⟩, ?_⟩
    simp only [read, pure_eq_ok, written, and_self]

theorem delimiter_reads : Reads delimiter (Phrase.InParens Ending) never := by
  refine inParens_reads (show Reads _ Ending (·.kind == .dot) from ⟨?_, ?_⟩) (by simp +contextual)
  · intro tokens value rest read
    rw [peek?_bind] at read
    cases tokens with
    | nil => exact absurd read unexpected_ne_ok
    | cons next others =>
      simp only [List.head?_cons] at read
      cases kind : next.kind
      case string =>
        simp only [kind] at read
        cases read
        exact ⟨[next], rfl, .string kind⟩
      case char =>
        simp only [kind] at read
        cases read
        exact ⟨[next], rfl, .char kind⟩
      case integer =>
        simp only [kind, bind_eq_ok, pure_eq_ok] at read
        obtain ⟨⟨number, span⟩, after, taken, rfl, rfl⟩ := read
        obtain ⟨token, same, literal, written, rfl⟩ := integer_eq_ok.mp taken
        exact ⟨[token], same, .int literal written⟩
      case backslash =>
        simp only [kind] at read
        obtain ⟨backslash, digits, number, same, escape, word, written, rfl⟩ := hexEscape_eq_ok.mp read
        exact ⟨[backslash, digits], same, .hex escape word written⟩
      case identifier =>
        simp only [kind, bind_eq_ok, pure_eq_ok] at read
        obtain ⟨found, after, taken, rfl, rfl⟩ := read
        obtain ⟨front, same, dotted⟩ := path_reads.sound taken
        exact ⟨front, same, .member dotted⟩
      all_goals
        simp only [kind] at read
        exact absurd read unexpected_ne_ok
  · intro front value rest ending clear
    rw [peek?_bind]
    cases ending with
    | string literal =>
      simp only [List.singleton_append, List.head?_cons, literal]
      rfl
    | char literal =>
      simp only [List.singleton_append, List.head?_cons, literal]
      rfl
    | @int token number literal read =>
      simp only [List.singleton_append, List.head?_cons, literal, bind_eq_ok, pure_eq_ok]
      exact ⟨(number, token.span), rest, integer_eq_ok.mpr ⟨token, rfl, literal, read, rfl⟩, rfl, rfl⟩
    | @hex backslash digits number escape word read =>
      simp only [List.cons_append, List.nil_append, List.head?_cons, escape]
      exact hexEscape_eq_ok.mpr ⟨backslash, digits, number, rfl, escape, word, read, rfl⟩
    | @member _ path dotted =>
      have taken := path_reads.complete dotted clear
      cases dotted with
      | mk start more =>
        simp only [List.cons_append, List.head?_cons, start, bind_eq_ok, pure_eq_ok]
        exact ⟨_, rest, taken, rfl, rfl⟩

theorem dataType_reads : Reads dataType Primary (·.kind == .leftParen) := by
  refine ⟨?_, ?_⟩
  · intro tokens type rest read
    simp only [dataType, bind_eq_ok, token_eq_ok] at read
    obtain ⟨token, after, ⟨rfl, word⟩, read⟩ := read
    cases known : Primitive.ofName? token.content with
    | none =>
      simp only [known] at read
      exact absurd read failAt_ne_ok
    | some primitive =>
      simp only [known, nextIsKind_bind] at read
      split at read
      next follows =>
        obtain ⟨found, last, taken, returned⟩ := bind_eq_ok.mp read
        cases returned
        obtain ⟨front, rfl, ending⟩ := delimiter_reads.sound taken
        have takes := Primitive.takesDelimiter_iff.mp (Bool.and_eq_true_iff.mp follows).1
        exact ⟨token :: front, rfl, .delimited word (Primitive.ofName?_eq_some.mp known) takes ending⟩
      next =>
        cases read
        exact ⟨[token], rfl, .bare word (Primitive.ofName?_eq_some.mp known)⟩
  · intro front type rest primary clear
    simp only [dataType, bind_eq_ok, token_eq_ok]
    cases primary with
    | @bare token primitive word spelled =>
      refine ⟨token, rest, ⟨rfl, word⟩, ?_⟩
      simp only [Primitive.ofName?_eq_some.mpr spelled, nextIsKind_bind, clear.any_eq_false, Bool.and_false,
        Bool.false_eq_true, if_false]
      rfl
    | @delimited token primitive last found word spelled takes ending =>
      refine ⟨token, last ++ rest, ⟨rfl, word⟩, ?_⟩
      have taken := delimiter_reads.complete ending (clear_never rest)
      obtain ⟨opening, others, rfl, opens⟩ := Phrase.begins_inParens _ _ ending
      simp only [Primitive.ofName?_eq_some.mpr spelled, nextIsKind_bind, Primitive.takesDelimiter_iff.mpr takes,
        List.cons_append, List.head?_cons, Option.any_some, opens, BEq.rfl, Bool.and_self, if_true]
      exact bind_eq_ok.mpr ⟨found, rest, taken, rfl⟩

theorem withDefaultDelimiter_eq_ok {type whole : DataType} :
    withDefaultDelimiter type tokens = .ok (whole, rest) ↔ tokens = rest ∧ Completed type whole := by
  obtain ⟨primitive, ending, span⟩ := type
  constructor
  · intro read
    cases primitive with
    | unsigned | signed | float | double =>
      cases read
      exact ⟨rfl, .fixedSize (by simp [Primitive.IsDelimited])⟩
    | string =>
      cases ending <;> cases read
      · exact ⟨rfl, .zeroByte⟩
      · exact ⟨rfl, .written rfl⟩
    | bytes =>
      cases ending with
      | none => cases read
      | some found =>
        cases read
        exact ⟨rfl, .written rfl⟩
  · rintro ⟨rfl, completed⟩
    cases completed with
    | fixedSize sized =>
      cases primitive <;> first | rfl | simp [Primitive.IsDelimited] at sized
    | written given =>
      cases given
      cases primitive <;> rfl
    | zeroByte => rfl

/-- The token goes on with a type that it follows. -/
def extendsType (token : Token) : Bool :=
  token.kind == .dot || token.kind == .leftParen

theorem begins_dotted : Phrase.Begins Dotted (·.kind = .identifier) := by
  intro tokens path dotted
  cases dotted with
  | mk start _ => exact ⟨_, _, rfl, start⟩

theorem begins_primary : Phrase.Begins Primary (·.kind = .dataType) := by
  intro tokens type primary
  cases primary with
  | bare word _ | delimited word _ _ _ => exact ⟨_, _, rfl, word⟩

theorem typeRef_reads : Reads typeRef Arm extendsType := by
  refine ⟨?_, ?_⟩
  · intro tokens type rest read
    rw [typeRef, nextIsKind_bind] at read
    split at read
    next =>
      simp only [bind_eq_ok, withDefaultDelimiter_eq_ok] at read
      obtain ⟨found, after, taken, whole, _, ⟨rfl, completed⟩, returned⟩ := read
      cases returned
      obtain ⟨front, same, primary⟩ := dataType_reads.sound taken
      exact ⟨front, same, .data primary completed⟩
    next =>
      rw [nextIsKind_bind] at read
      split at read
      next =>
        obtain ⟨found, after, taken, returned⟩ := bind_eq_ok.mp read
        cases returned
        obtain ⟨front, same, dotted⟩ := path_reads.sound taken
        exact ⟨front, same, .named dotted⟩
      next => exact absurd read unexpected_ne_ok
  · intro front type rest arm clear
    have apart : Clear (·.kind == .dot) rest ∧ Clear (·.kind == .leftParen) rest := clear_or.mp clear
    rw [typeRef, nextIsKind_bind]
    cases arm with
    | @data _ type whole primary completed =>
      have taken := dataType_reads.complete primary apart.2
      obtain ⟨token, others, rfl, word⟩ := begins_primary _ _ primary
      rw [if_pos (by simp [word])]
      simp only [bind_eq_ok, withDefaultDelimiter_eq_ok]
      exact ⟨type, rest, taken, whole, rest, ⟨rfl, completed⟩, rfl⟩
    | @named _ path dotted =>
      have taken := path_reads.complete dotted apart.1
      obtain ⟨token, others, rfl, start⟩ := begins_dotted _ _ dotted
      rw [if_neg (by simp [start]), nextIsKind_bind, if_pos (by simp [start])]
      exact bind_eq_ok.mpr ⟨path, rest, taken, rfl⟩

theorem begins_arm : Phrase.Begins Arm (·.kind ≠ .keyword) := by
  intro tokens type arm
  cases arm with
  | data primary _ =>
    obtain ⟨token, others, rfl, word⟩ := begins_primary _ _ primary
    exact ⟨token, others, rfl, by simp [word]⟩
  | named dotted =>
    obtain ⟨token, others, rfl, start⟩ := begins_dotted _ _ dotted
    exact ⟨token, others, rfl, by simp [start]⟩

theorem typeChoice_reads (room : Nat) : Reads (typeChoice room) (Chosen Arm room) never := by
  refine ⟨?_, ?_⟩
  · intro tokens choice rest read
    obtain ⟨inner, rfl, inside⟩ := nested_eq_ok.mp read
    simp only [bind_eq_ok, token_eq_ok, pure_eq_ok] at inside
    obtain ⟨⟨opening, condition⟩, _, head, ifTrue, _, first, colon, _, ⟨rfl, parts⟩, ifFalse, _, second,
      closing, _, ⟨rfl, closes⟩, rfl, rfl⟩ := inside
    obtain ⟨front, rfl, headed⟩ := (choiceHead_reads inner).sound head
    obtain ⟨yes, rfl, firstArm⟩ := typeRef_reads.sound first
    obtain ⟨no, rfl, secondArm⟩ := typeRef_reads.sound second
    exact ⟨_, by simp, choiceOf_of_head headed firstArm parts secondArm closes⟩
  · intro front choice rest chosen _
    obtain ⟨inner, head, opening, first, colon, second, closing, rfl, rfl, headed, firstArm, parts,
      secondArm, closes, located⟩ := head_of_chosen chosen
    refine nested_eq_ok.mpr ⟨inner, rfl, ?_⟩
    rw [List.append_assoc, List.append_assoc]
    refine bind_eq_ok.mpr ⟨_, _, (choiceHead_reads inner).complete headed (clear_never _), ?_⟩
    have clearColon : Clear extendsType (colon :: (second ++ [closing] ++ rest)) := by
      simp [extendsType, parts]
    have clearClosing : Clear extendsType (closing :: rest) := by simp [extendsType, closes]
    refine bind_eq_ok.mpr ⟨_, _, typeRef_reads.complete firstArm clearColon, ?_⟩
    simp only [bind_eq_ok, token_eq_ok, pure_eq_ok]
    refine ⟨colon, _, ⟨rfl, parts⟩, choice.ifFalse, closing :: rest, ?_, closing, rest, ⟨rfl, closes⟩, ?_, rfl⟩
    · simpa using typeRef_reads.complete secondArm clearClosing
    · rw [← located]

end Parser

end RecordLayout
