import RecordLayout.Proofs.Grammar.Language
import RecordLayout.Proofs.Grammar.Loops

/-! The parsers of expressions read the phrases of expressions: at any room just those that nest no
deeper. Only an operator or a dot can go on with an expression. -/

namespace RecordLayout

open Grammar

namespace Parser

/-! Paths. -/

theorem segment_reads : Reads (expect .segment (ofKind? .identifier))
    (fun tokens segment => tokens = [segment] ∧ segment.kind = .identifier) never := by
  refine ⟨?_, ?_⟩
  · intro tokens value rest read
    obtain ⟨token, rfl, fits⟩ := expect_eq_ok.mp read
    obtain ⟨rfl, identifier⟩ := ofKind?_eq_some.mp fits
    exact ⟨[token], rfl, rfl, identifier⟩
  · intro front value rest ⟨same, identifier⟩ _
    subst same
    exact expect_eq_ok.mpr ⟨value, rfl, ofKind?_eq_some.mpr ⟨rfl, identifier⟩⟩

theorem path_reads : Reads path Dotted (·.kind == .dot) := by
  have segments : ReadsOptional _ (Phrase.After .dot _) never := after_reads segment_reads
  refine ⟨?_, ?_⟩
  · intro tokens value rest read
    simp only [path, bind_eq_ok, token_eq_ok, pure_eq_ok] at read
    obtain ⟨first, after, ⟨rfl, start⟩, others, last, repeated, rfl, rfl⟩ := read
    obtain ⟨back, rfl, more⟩ := many_sound segments repeated
    exact ⟨first :: back, rfl, .mk start more⟩
  · intro front value rest dotted clear
    cases dotted with
    | @mk first back others start more =>
      simp only [path, bind_eq_ok, token_eq_ok, pure_eq_ok]
      refine ⟨first, back ++ rest, ⟨rfl, start⟩, others, rest, ?_, rfl, rfl⟩
      exact many_complete segments Phrase.begins_after.nonempty (fun _ _ => clear_never _) more
        (clear_never _) (after_absent clear)

/-! Factors. -/

theorem integer_eq_ok {tokens rest : List Token} {value : Int64} {span : Span} :
    integer tokens = .ok ((value, span), rest) ↔
      ∃ token, tokens = token :: rest ∧ token.kind = .integer ∧
        Decimal.Numeral 10 token.content.toList value ∧ token.span = span := by
  simp only [integer, bind_eq_ok, token_eq_ok, ← Decimal.int64?_eq_some]
  constructor
  · intro ⟨token, after, ⟨same, literal⟩, returned⟩
    cases read : Decimal.int64? token.content.toList with
    | none =>
      simp only [read] at returned
      exact absurd returned failAt_ne_ok
    | some found =>
      simp only [read, pure_eq_ok, Prod.mk.injEq] at returned
      obtain ⟨⟨rfl, rfl⟩, rfl⟩ := returned
      exact ⟨token, same, literal, read, rfl⟩
  · intro ⟨token, same, literal, read, located⟩
    refine ⟨token, rest, ⟨same, literal⟩, ?_⟩
    simp only [read, pure_eq_ok, located, and_self]

theorem float_eq_ok {tokens rest : List Token} {value : Float} {span : Span} :
    float tokens = .ok ((value, span), rest) ↔
      ∃ token, tokens = token :: rest ∧ token.kind = .float ∧
        Decimal.float? token.content.toList = some value ∧ token.span = span := by
  simp only [float, bind_eq_ok, token_eq_ok]
  constructor
  · intro ⟨token, after, ⟨same, literal⟩, returned⟩
    cases read : Decimal.float? token.content.toList with
    | none =>
      simp only [read] at returned
      exact absurd returned failAt_ne_ok
    | some found =>
      simp only [read, pure_eq_ok, Prod.mk.injEq] at returned
      obtain ⟨⟨rfl, rfl⟩, rfl⟩ := returned
      exact ⟨token, same, literal, read, rfl⟩
  · intro ⟨token, same, literal, read, located⟩
    refine ⟨token, rest, ⟨same, literal⟩, ?_⟩
    simp only [read, pure_eq_ok, located, and_self]

theorem fail_reads {fault : SyntaxFault} {blocks : Token → Bool} :
    Reads (fail fault : Parser α) Phrase.nothing blocks :=
  ⟨fun read => absurd read fail_ne_ok, fun impossible => impossible.elim⟩

theorem inParens_reads {inner : Parser α} {phrase : Phrase α} {blocks : Token → Bool}
    (reads : Reads inner phrase blocks)
    (apart : ∀ token : Token, token.kind = .rightParen → blocks token = false) :
    Reads (inParens inner) (Phrase.InParens phrase) never := by
  refine ⟨?_, ?_⟩
  · intro tokens value rest read
    obtain ⟨opening, after, closing, rfl, opens, inside, closes⟩ := inParens_eq_ok.mp read
    obtain ⟨front, rfl, there⟩ := reads.sound inside
    exact ⟨opening :: (front ++ [closing]), by simp, .mk opens there closes⟩
  · intro front value rest there _
    cases there with
    | @mk opening tokens _ closing opens inside closes =>
      refine inParens_eq_ok.mpr ⟨opening, tokens ++ closing :: rest, closing, by simp, opens, ?_, closes⟩
      exact reads.complete inside (clear_cons.mpr (apart closing closes))

theorem signed_reads {operand : Parser Expr} {phrase : Phrase Expr} {blocks : Token → Bool}
    (reads : Reads operand phrase blocks) : Reads (signed operand) (Signed phrase) blocks := by
  refine ⟨?_, ?_⟩
  · intro tokens value rest read
    simp only [signed, bind_eq_ok, expect_eq_ok, Option.map_eq_some_iff, pure_eq_ok] at read
    obtain ⟨_, after, ⟨token, rfl, op, sign, rfl⟩, found, last, taken, rfl, rfl⟩ := read
    obtain ⟨front, rfl, there⟩ := reads.sound taken
    obtain ⟨allowed, same⟩ := additive?_eq_some.mp sign
    exact ⟨token :: front, rfl, .mk allowed same there⟩
  · intro front value rest there clear
    cases there with
    | @mk token op tokens found allowed sign before =>
      simp only [signed, bind_eq_ok, expect_eq_ok, Option.map_eq_some_iff, pure_eq_ok]
      exact ⟨_, _, ⟨token, rfl, op, additive?_eq_some.mpr ⟨allowed, sign⟩, rfl⟩, found, rest,
        reads.complete before clear, rfl, rfl⟩

theorem begins_signed {operand : Phrase Expr} :
    Phrase.Begins (Signed operand) fun token => (additive? token).isSome = true := by
  intro tokens value there
  cases there with
  | mk allowed sign _ => exact ⟨_, _, rfl, by simp [additive?_eq_some.mpr ⟨allowed, sign⟩]⟩

/-- The token can be the first of an expression. -/
def beginsOperand (token : Token) : Bool :=
  (additive? token).isSome || token.kind == .integer || token.kind == .float ||
    token.kind == .leftParen || token.kind == .identifier

section

variable {signed grouped : Parser Expr} {signedPhrase groupedPhrase : Phrase Expr}

theorem factorWith_sound (signedReads : Reads signed signedPhrase (·.kind == .dot))
    (groupedReads : Reads grouped groupedPhrase never) {tokens rest : List Token} {value : Expr}
    (read : factorWith signed grouped tokens = .ok (value, rest)) :
    ∃ front, tokens = front ++ rest ∧ FactorOf signedPhrase groupedPhrase front value := by
  simp only [factorWith, bind_eq_ok, peek?_apply, Except.ok.injEq, Prod.mk.injEq] at read
  obtain ⟨_, _, ⟨rfl, rfl⟩, read⟩ := read
  cases tokens with
  | nil => exact absurd read unexpected_ne_ok
  | cons next others =>
    simp only [List.head?_cons] at read
    split at read
    next =>
      obtain ⟨front, same, there⟩ := signedReads.sound read
      exact ⟨front, same, .signed there⟩
    next =>
      cases kind : next.kind
      case integer =>
        simp only [kind, bind_eq_ok, pure_eq_ok] at read
        obtain ⟨⟨number, span⟩, after, taken, rfl, rfl⟩ := read
        obtain ⟨token, same, literal, written, rfl⟩ := integer_eq_ok.mp taken
        exact ⟨[token], same, .int literal written⟩
      case float =>
        simp only [kind, bind_eq_ok, pure_eq_ok] at read
        obtain ⟨⟨number, span⟩, after, taken, rfl, rfl⟩ := read
        obtain ⟨token, same, literal, written, rfl⟩ := float_eq_ok.mp taken
        exact ⟨[token], same, .float literal written⟩
      case leftParen =>
        simp only [kind] at read
        obtain ⟨front, same, there⟩ := groupedReads.sound read
        exact ⟨front, same, .grouped there⟩
      case identifier =>
        simp only [kind, bind_eq_ok, pure_eq_ok] at read
        obtain ⟨found, after, taken, rfl, rfl⟩ := read
        obtain ⟨front, same, there⟩ := path_reads.sound taken
        exact ⟨front, same, .ref there⟩
      all_goals
        simp only [kind] at read
        exact absurd read unexpected_ne_ok

theorem additive?_eq_none {token : Token} (kind : token.kind = .integer ∨ token.kind = .float ∨
    token.kind = .leftParen ∨ token.kind = .identifier) : additive? token = none := by
  rcases kind with kind | kind | kind | kind <;> simp [additive?, kind]

theorem factorWith_complete (signedReads : Reads signed signedPhrase (·.kind == .dot))
    (groupedReads : Reads grouped groupedPhrase never)
    (signedBegins : Phrase.Begins signedPhrase fun token => (additive? token).isSome = true)
    (groupedBegins : Phrase.Begins groupedPhrase (·.kind = .leftParen)) {front rest : List Token}
    {value : Expr} (there : FactorOf signedPhrase groupedPhrase front value)
    (clear : Clear (·.kind == .dot) rest) :
    factorWith signed grouped (front ++ rest) = .ok (value, rest) := by
  simp only [factorWith, bind_eq_ok, peek?_apply, Except.ok.injEq, Prod.mk.injEq]
  refine ⟨_, _, ⟨rfl, rfl⟩, ?_⟩
  cases there with
  | @int token value literal read =>
    have plain : additive? token = none := additive?_eq_none (by simp [literal])
    simp only [List.singleton_append, List.head?_cons, plain, Option.isSome_none, Bool.false_eq_true,
      if_false, literal, bind_eq_ok, pure_eq_ok]
    exact ⟨(value, token.span), rest, integer_eq_ok.mpr ⟨token, rfl, literal, read, rfl⟩, rfl, rfl⟩
  | @float token value literal read =>
    have plain : additive? token = none := additive?_eq_none (by simp [literal])
    simp only [List.singleton_append, List.head?_cons, plain, Option.isSome_none, Bool.false_eq_true,
      if_false, literal, bind_eq_ok, pure_eq_ok]
    exact ⟨(value, token.span), rest, float_eq_ok.mpr ⟨token, rfl, literal, read, rfl⟩, rfl, rfl⟩
  | @ref _ path dotted =>
    have taken := path_reads.complete dotted clear
    cases dotted with
    | @mk first back others start more =>
      have plain : additive? first = none := additive?_eq_none (by simp [start])
      simp only [List.cons_append, List.head?_cons, plain, Option.isSome_none, Bool.false_eq_true,
        if_false, start, bind_eq_ok, pure_eq_ok]
      exact ⟨_, rest, taken, rfl, rfl⟩
  | signed there =>
    have taken := signedReads.complete there clear
    obtain ⟨token, others, rfl, sign⟩ := signedBegins _ _ there
    simpa only [List.cons_append, List.head?_cons, sign, if_true] using taken
  | grouped there =>
    have taken := groupedReads.complete there (clear_never rest)
    obtain ⟨token, others, rfl, opens⟩ := groupedBegins _ _ there
    have plain : additive? token = none := additive?_eq_none (by simp [opens])
    simpa only [List.cons_append, List.head?_cons, plain, Option.isSome_none, Bool.false_eq_true,
      if_false, opens] using taken

end

section

variable {operator? : Token → Option Operator} {among : Operator → Prop} {operand : Parser Expr}
  {phrase : Phrase Expr} {blocks : Token → Bool}

/-- The test picks out the operators of the sort. -/
def Picks (operator? : Token → Option Operator) (among : Operator → Prop) : Prop :=
  ∀ {token op}, operator? token = some op ↔ among op ∧ token.kind = op.kind

theorem operation_reads (picks : Picks operator? among) (reads : Reads operand phrase blocks) :
    ReadsOptional (do match ← accept? operator? with
        | some op => return some (op, ← operand)
        | none => return none)
      (Phrase.Operation among phrase) blocks := by
  refine ⟨?_, ?_, ?_⟩
  · intro tokens value rest read
    obtain ⟨found, after, accepted, continued⟩ := bind_eq_ok.mp read
    cases found with
    | none => cases continued
    | some op =>
      obtain ⟨token, rfl, applied⟩ := accept?_eq_some.mp accepted
      obtain ⟨right, last, taken, returned⟩ := bind_eq_ok.mp continued
      cases returned
      obtain ⟨front, rfl, there⟩ := reads.sound taken
      obtain ⟨sorted, sign⟩ := picks.mp applied
      exact ⟨token :: front, rfl, .mk sorted sign there⟩
  · intro tokens rest read
    obtain ⟨found, after, accepted, continued⟩ := bind_eq_ok.mp read
    cases found with
    | none =>
      cases continued
      exact (accept?_eq_none.mp accepted).1.symm
    | some op =>
      obtain ⟨right, last, taken, returned⟩ := bind_eq_ok.mp continued
      cases returned
  · intro front value rest there clear
    cases there with
    | @mk token op tokens right sorted sign operated =>
      refine bind_eq_ok.mpr ⟨some op, _, accept?_eq_some.mpr ⟨token, rfl, picks.mpr ⟨sorted, sign⟩⟩, ?_⟩
      exact bind_eq_ok.mpr ⟨right, rest, reads.complete operated clear, rfl⟩

theorem begins_operation (picks : Picks operator? among) {operand : Phrase Expr} :
    Phrase.Begins (Phrase.Operation among operand) fun token => (operator? token).isSome = true :=
  Phrase.begins_operation.mono fun _ ⟨_, sorted, sign⟩ => Option.isSome_of_eq_some (picks.mpr ⟨sorted, sign⟩)

/-- Operands with operators between them. -/
theorem operations_reads (picks : Picks operator? among) (reads : Reads operand phrase blocks)
    (apart : ∀ token, (operator? token).isSome = true → blocks token = false) :
    Reads (chain operator? operand) (Operations among phrase)
      (fun token => (operator? token).isSome || blocks token) :=
  chain_reads applied reads (operation_reads picks reads) (begins_operation picks) apart
    fun clear => bind_eq_ok.mpr ⟨none, _, accept?_eq_none.mpr ⟨rfl, clear⟩, rfl⟩

end

/-- The token goes on with an expression that it follows. -/
def extendsSum (token : Token) : Bool :=
  (additive? token).isSome || ((multiplicative? token).isSome || token.kind == .dot)

theorem multiplicative?_apart {token : Token} (found : (multiplicative? token).isSome = true) :
    (token.kind == .dot) = false := by
  unfold multiplicative? at found
  split at found <;> simp_all

theorem additive?_apart {token : Token} (found : (additive? token).isSome = true) :
    ((multiplicative? token).isSome || token.kind == .dot) = false := by
  unfold additive? at found
  split at found <;> simp_all [multiplicative?]

theorem term_reads {factor : Parser Expr} {phrase : Phrase Expr} (reads : Reads factor phrase (·.kind == .dot)) :
    Reads (chain multiplicative? factor) (Term phrase)
      (fun token => (multiplicative? token).isSome || token.kind == .dot) :=
  operations_reads multiplicative?_eq_some reads fun _ => multiplicative?_apart

theorem sum_reads {factor : Parser Expr} {phrase : Phrase Expr} (reads : Reads factor phrase (·.kind == .dot)) :
    Reads (sum factor) (Sum phrase) extendsSum :=
  operations_reads additive?_eq_some (term_reads reads) fun _ => additive?_apart

theorem not_extendsSum {token : Token} (kind : token.kind = .rightParen ∨ token.kind = .rightBracket ∨
    token.kind = .colon ∨ token.kind = .question ∨ token.kind = .comma ∨ token.kind = .and ∨
    token.kind = .or ∨ (relation? token).isSome = true) : extendsSum token = false := by
  rcases kind with kind | kind | kind | kind | kind | kind | kind | related
  iterate 7 simp [extendsSum, additive?, multiplicative?, kind]
  unfold relation? at related
  split at related <;> simp_all [extendsSum, additive?, multiplicative?]

theorem factor_reads (room : Nat) : Reads (factor room) (Factor room) (·.kind == .dot) := by
  induction room with
  | zero =>
    have failing : Reads (fail .nestingTooDeep : Parser Expr) Phrase.nothing (·.kind == .dot) := fail_reads
    exact ⟨fun read => factorWith_sound failing fail_reads read, fun there clear =>
      factorWith_complete failing fail_reads Phrase.begins_nothing Phrase.begins_nothing there clear⟩
  | succ room ih =>
    have grouped := inParens_reads (sum_reads ih) fun _ closes => not_extendsSum (.inl closes)
    exact ⟨fun read => factorWith_sound (signed_reads ih) grouped read, fun there clear =>
      factorWith_complete (signed_reads ih) grouped begins_signed Phrase.begins_inParens there clear⟩

theorem expr_reads (room : Nat) : Reads (expr room) (Arithmetic room) extendsSum :=
  sum_reads (factor_reads room)

theorem begins_factor (depth : Nat) : Phrase.Begins (Factor depth) fun token => beginsOperand token = true := by
  have form (signed grouped : Phrase Expr) (first : Phrase.Begins signed fun token => (additive? token).isSome = true)
      (second : Phrase.Begins grouped (·.kind = .leftParen)) :
      Phrase.Begins (FactorOf signed grouped) fun token => beginsOperand token = true := by
    intro tokens value there
    cases there with
    | int literal _ => exact ⟨_, _, rfl, by simp [beginsOperand, literal]⟩
    | float literal _ => exact ⟨_, _, rfl, by simp [beginsOperand, literal]⟩
    | ref dotted =>
      cases dotted with
      | mk start _ => exact ⟨_, _, rfl, by simp [beginsOperand, start]⟩
    | signed there =>
      obtain ⟨token, others, rfl, sign⟩ := first _ _ there
      exact ⟨token, others, rfl, by simp [beginsOperand, sign]⟩
    | grouped there =>
      obtain ⟨token, others, rfl, opens⟩ := second _ _ there
      exact ⟨token, others, rfl, by simp [beginsOperand, opens]⟩
  cases depth with
  | zero => exact form _ _ Phrase.begins_nothing Phrase.begins_nothing
  | succ depth => exact form _ _ begins_signed Phrase.begins_inParens

theorem begins_arithmetic (depth : Nat) :
    Phrase.Begins (Arithmetic depth) fun token => beginsOperand token = true :=
  (begins_factor depth).chain.chain

end Parser

end RecordLayout
