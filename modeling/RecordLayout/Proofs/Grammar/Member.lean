import RecordLayout.Proofs.Grammar.Types

/-! Members. The parser decides by the next token alone, except at a parenthesis, which may choose
byte orders or types. Whether a delimiter stands before the repetition or after it, the member has the
same type. -/

namespace RecordLayout

open Grammar

namespace Parser

variable {tokens rest : List Token}

/-! The type before its repetition. -/

inductive Undelimited (depth : Nat) : Phrase MemberType where
  | data {tokens type} (primary : Primary tokens type) : Undelimited depth tokens (.plain (.data type))
  | named {tokens path} (dotted : Dotted tokens path) : Undelimited depth tokens (.plain (.named path))
  | chosen {tokens choice} (choosing : Chosen Arm depth tokens choice) :
      Undelimited depth tokens (.chosen choice)

theorem begins_chosen {depth : Nat} {arm : Phrase α} :
    Phrase.Begins (Chosen arm depth) (·.kind = .leftParen) := by
  intro tokens choice chosen
  cases depth with
  | zero => exact chosen.elim
  | succ depth =>
    cases chosen with
    | mk opens _ _ _ _ _ _ => exact ⟨_, _, rfl, opens⟩

theorem begins_undelimited {depth : Nat} : Phrase.Begins (Undelimited depth) fun token =>
    token.kind = .dataType ∨ token.kind = .identifier ∨ token.kind = .leftParen := by
  intro tokens type there
  cases there with
  | data primary =>
    obtain ⟨token, others, rfl, word⟩ := begins_primary _ _ primary
    exact ⟨token, others, rfl, .inl word⟩
  | named dotted =>
    obtain ⟨token, others, rfl, start⟩ := begins_dotted _ _ dotted
    exact ⟨token, others, rfl, .inr (.inl start)⟩
  | chosen choosing =>
    obtain ⟨token, others, rfl, opens⟩ := begins_chosen _ _ choosing
    exact ⟨token, others, rfl, .inr (.inr opens)⟩

theorem memberType_reads (room : Nat) : Reads (memberType room) (Undelimited room) extendsType := by
  refine ⟨?_, ?_⟩
  · intro tokens type rest read
    rw [memberType, nextIsKind_bind] at read
    split at read
    next =>
      obtain ⟨choice, after, taken, returned⟩ := bind_eq_ok.mp read
      cases returned
      obtain ⟨front, same, choosing⟩ := (typeChoice_reads room).sound taken
      exact ⟨front, same, .chosen choosing⟩
    next =>
      rw [nextIsKind_bind] at read
      split at read
      next =>
        obtain ⟨found, after, taken, returned⟩ := bind_eq_ok.mp read
        cases returned
        obtain ⟨front, same, primary⟩ := dataType_reads.sound taken
        exact ⟨front, same, .data primary⟩
      next =>
        rw [nextIsKind_bind] at read
        split at read
        next =>
          obtain ⟨found, after, taken, returned⟩ := bind_eq_ok.mp read
          cases returned
          obtain ⟨front, same, dotted⟩ := path_reads.sound taken
          exact ⟨front, same, .named dotted⟩
        next => exact absurd read unexpected_ne_ok
  · intro front type rest there clear
    have apart : Clear (·.kind == .dot) rest ∧ Clear (·.kind == .leftParen) rest := clear_or.mp clear
    rw [memberType, nextIsKind_bind]
    cases there with
    | @data _ type primary =>
      have taken := dataType_reads.complete primary apart.2
      obtain ⟨token, others, rfl, word⟩ := begins_primary _ _ primary
      rw [if_neg (by simp [word]), nextIsKind_bind, if_pos (by simp [word])]
      exact bind_eq_ok.mpr ⟨type, rest, taken, rfl⟩
    | @named _ path dotted =>
      have taken := path_reads.complete dotted apart.1
      obtain ⟨token, others, rfl, start⟩ := begins_dotted _ _ dotted
      rw [if_neg (by simp [start]), nextIsKind_bind, if_neg (by simp [start]), nextIsKind_bind,
        if_pos (by simp [start])]
      exact bind_eq_ok.mpr ⟨path, rest, taken, rfl⟩
    | @chosen _ choice choosing =>
      have taken := (typeChoice_reads room).complete choosing (clear_never rest)
      obtain ⟨token, others, rfl, opens⟩ := begins_chosen _ _ choosing
      rw [if_pos (by simp [opens])]
      exact bind_eq_ok.mpr ⟨choice, rest, taken, rfl⟩

theorem orderAndType_sound {room : Nat} {order : Option OrderRule} {type : MemberType}
    (read : orderAndType room tokens = .ok ((order, type), rest)) :
    ∃ front after, tokens = front ++ after ∧ Phrase.Optional (Order room) front order ∧
      memberType room after = .ok (type, rest) := by
  obtain ⟨word, after, ordered, continued⟩ := bind_eq_ok.mp read
  cases word with
  | some fixed =>
    obtain ⟨front, rfl, word⟩ := byteOrder?_reads.sound ordered
    obtain ⟨found, last, typed, returned⟩ := bind_eq_ok.mp continued
    cases returned
    exact ⟨front, after, rfl, .present (.fixed word), typed⟩
  | none =>
    have same := byteOrder?_reads.absent ordered
    subst same
    simp only [nextIsKind_bind] at continued
    split at continued
    next opens =>
      obtain ⟨choice, middle, chosen, finished⟩ := bind_eq_ok.mp continued
      cases choice with
      | some choice =>
        obtain ⟨front, rfl, choosing⟩ := (orderChoice?_reads room).sound chosen
        obtain ⟨found, last, typed, returned⟩ := bind_eq_ok.mp finished
        cases returned
        exact ⟨front, middle, rfl, .present (.chosen choosing), typed⟩
      | none =>
        have same := (orderChoice?_reads room).absent chosen
        subst same
        obtain ⟨found, last, typed, returned⟩ := bind_eq_ok.mp finished
        cases returned
        refine ⟨[], _, rfl, .absent, ?_⟩
        rw [memberType, nextIsKind_bind, if_pos opens]
        exact bind_eq_ok.mpr ⟨found, rest, typed, rfl⟩
    next =>
      obtain ⟨found, last, typed, returned⟩ := bind_eq_ok.mp continued
      cases returned
      exact ⟨[], _, rfl, .absent, typed⟩

/-- A parenthesis that belongs to the type is not taken for one of a byte order. -/
theorem orderAndType_unordered {room : Nat} {type : MemberType}
    (typed : memberType room tokens = .ok (type, rest)) :
    orderAndType room tokens = .ok ((none, type), rest) := by
  obtain ⟨front, rfl, there⟩ := (memberType_reads room).sound typed
  obtain ⟨token, others, rfl, first⟩ := begins_undelimited _ _ there
  have noWord : byteOrder? (token :: others ++ rest) = .ok (none, token :: others ++ rest) :=
    byteOrder?_absent (by rcases first with kind | kind | kind <;> simp [kind])
  refine bind_eq_ok.mpr ⟨none, _, noWord, ?_⟩
  simp only [nextIsKind_bind]
  split
  next opens =>
    cases there with
    | data primary =>
      obtain ⟨_, _, same, word⟩ := begins_primary _ _ primary
      cases same
      simp [word] at opens
    | named dotted =>
      obtain ⟨_, _, same, start⟩ := begins_dotted _ _ dotted
      cases same
      simp [start] at opens
    | @chosen _ choice choosing =>
      refine bind_eq_ok.mpr ⟨none, _, orderChoice?_absent begins_arm choosing, ?_⟩
      exact bind_eq_ok.mpr ⟨choice, rest, (typeChoice_reads room).complete choosing (clear_never _), rfl⟩
  next => exact bind_eq_ok.mpr ⟨type, rest, typed, rfl⟩

theorem orderAndType_ordered {room : Nat} {front after : List Token} {order : OrderRule} {type : MemberType}
    (ordered : Order room front order) (typed : memberType room after = .ok (type, rest)) :
    orderAndType room (front ++ after) = .ok ((some order, type), rest) := by
  cases ordered with
  | @fixed _ fixed word =>
    refine bind_eq_ok.mpr ⟨some fixed, _, byteOrder?_reads.complete word (clear_never _), ?_⟩
    exact bind_eq_ok.mpr ⟨type, rest, typed, rfl⟩
  | @chosen _ choice choosing =>
    have chosen := (orderChoice?_reads room).complete choosing (clear_never after)
    obtain ⟨token, others, rfl, opens⟩ := begins_chosen _ _ choosing
    have noWord : byteOrder? (token :: others ++ after) = .ok (none, token :: others ++ after) :=
      byteOrder?_absent (by simp [opens])
    refine bind_eq_ok.mpr ⟨none, _, noWord, ?_⟩
    simp only [nextIsKind_bind]
    rw [if_pos (by simp [opens])]
    refine bind_eq_ok.mpr ⟨some choice, after, chosen, ?_⟩
    exact bind_eq_ok.mpr ⟨type, rest, typed, rfl⟩

theorem orderAndType_eq_ok {room : Nat} {order : Option OrderRule} {type : MemberType} :
    orderAndType room tokens = .ok ((order, type), rest) ↔
      ∃ front after, tokens = front ++ after ∧ Phrase.Optional (Order room) front order ∧
        memberType room after = .ok (type, rest) := by
  constructor
  · exact orderAndType_sound
  · intro ⟨front, after, same, ordered, typed⟩
    subst same
    cases ordered with
    | absent => exact orderAndType_unordered typed
    | present there => exact orderAndType_ordered there typed

/-! Repetitions. -/

theorem begins_logic (depth : Nat) :
    Phrase.Begins (Logic depth) fun token => beginsOperand token = true := by
  cases depth with
  | zero => exact Phrase.begins_nothing
  | succ depth =>
    apply Phrase.Begins.chain
    apply Phrase.Begins.chain
    intro tokens value there
    cases there with
    | compared leftSide _ _ =>
      obtain ⟨token, others, rfl, begins⟩ := begins_arithmetic _ _ _ leftSide
      exact ⟨token, _, rfl, begins⟩
    | grouped inside =>
      obtain ⟨token, others, rfl, opens⟩ := Phrase.begins_inParens _ _ inside
      exact ⟨token, others, rfl, by simp [beginsOperand, opens]⟩

theorem not_beginsOperand {token : Token} (begins : beginsOperand token = true) :
    token.kind ≠ .rightBracket ∧ token.kind ≠ .rightBrace ∧ token.kind ≠ .leftBrace := by
  refine ⟨?_, ?_, ?_⟩ <;> intro kind <;> simp [beginsOperand, additive?, kind] at begins

/-- A repetition, brackets and all, where one is. -/
def repeated? (room : Nat) : Parser (Option Repetition) := do
  if ← eat .leftBracket then some <$> repetition room else pure none

/-- A repetition that is a count, once its bracket is open. -/
def counted (room : Nat) : Parser Repetition := do
  let amount ← expr room
  let _ ← token .rightBracket
  return .count amount

/-- A repetition that is a condition, once its bracket is open. -/
def conditional (room : Nat) : Parser Repetition := do
  let condition ← condition room
  let _ ← token .rightBracket
  return .whileTrue condition

theorem closed_eq_ok {parser : Parser α} {make : α → Repetition} {value : Repetition} :
    (do let found ← parser; let _ ← token .rightBracket; return make found : Parser _) tokens = .ok (value, rest) ↔
      ∃ found closing, parser tokens = .ok (found, closing :: rest) ∧ closing.kind = .rightBracket ∧
        value = make found := by
  simp only [bind_eq_ok, token_eq_ok, pure_eq_ok]
  constructor
  · rintro ⟨found, _, taken, closing, _, ⟨rfl, closes⟩, rfl, rfl⟩
    exact ⟨found, closing, taken, closes, rfl⟩
  · rintro ⟨found, closing, taken, closes, rfl⟩
    exact ⟨found, _, taken, closing, rest, ⟨rfl, closes⟩, rfl, rfl⟩

theorem counted_eq_ok {room : Nat} {value : Repetition} :
    counted room tokens = .ok (value, rest) ↔
      ∃ amount closing, expr room tokens = .ok (amount, closing :: rest) ∧ closing.kind = .rightBracket ∧
        value = .count amount :=
  closed_eq_ok

theorem conditional_eq_ok {room : Nat} {value : Repetition} :
    conditional room tokens = .ok (value, rest) ↔
      ∃ inner closing, condition room tokens = .ok (inner, closing :: rest) ∧ closing.kind = .rightBracket ∧
        value = .whileTrue inner :=
  closed_eq_ok

theorem repetition_sound {room : Nat} {opening : Token} {value : Repetition}
    (opens : opening.kind = .leftBracket) (read : repetition room tokens = .ok (value, rest)) :
    ∃ front, tokens = front ++ rest ∧ Repeated room (opening :: front) value := by
  obtain ⟨closed, after, eaten, continued⟩ := bind_eq_ok.mp read
  rcases eat_eq_ok.mp eaten with ⟨rfl, closing, rfl, closes⟩ | ⟨rfl, rfl, _⟩
  · cases continued
    exact ⟨[closing], rfl, .untilEnd opens closes⟩
  · simp only [Bool.false_eq_true, if_false] at continued
    rcases tryCatch_eq_ok.mp continued with counts | ⟨failure, _, holds⟩
    · obtain ⟨amount, closing, taken, closes, rfl⟩ := counted_eq_ok.mp counts
      obtain ⟨front, same, inside⟩ := (expr_reads room).sound taken
      exact ⟨front ++ [closing], by simpa using same, .count opens inside closes⟩
    · obtain ⟨condition, closing, taken, closes, rfl⟩ := conditional_eq_ok.mp holds
      obtain ⟨front, same, inside⟩ := (condition_reads room).sound taken
      exact ⟨front ++ [closing], by simpa using same, .whileTrue opens inside closes⟩

theorem repetition_complete {room : Nat} {opening : Token} {front : List Token} {value : Repetition}
    (there : Repeated room (opening :: front) value) :
    repetition room (front ++ rest) = .ok (value, rest) := by
  cases there with
  | @untilEnd _ closing _ closes =>
    exact bind_eq_ok.mpr ⟨true, rest, eat_eq_ok.mpr (.inl ⟨rfl, closing, rfl, closes⟩), rfl⟩
  | @count _ inner amount closing _ inside closes =>
    have clear : Clear extendsSum (closing :: rest) := by simp [not_extendsSum, closes]
    have taken := (expr_reads room).complete inside clear
    have amountNext : Clear (·.kind == .rightBracket) (inner ++ [closing] ++ rest) := by
      obtain ⟨token, others, rfl, begins⟩ := begins_arithmetic _ _ _ inside
      simpa using (not_beginsOperand begins).1
    refine bind_eq_ok.mpr ⟨false, _, eat_eq_ok.mpr (.inr ⟨rfl, rfl, amountNext⟩), ?_⟩
    refine tryCatch_eq_ok.mpr (.inl (counted_eq_ok.mpr ?_))
    exact ⟨amount, closing, by simpa using taken, closes, rfl⟩
  | @whileTrue _ inner condition closing _ inside closes =>
    have clear : Clear extendsCondition (closing :: rest) := by simp [not_extendsCondition, closes]
    have taken := (condition_reads room).complete inside clear
    have conditionNext : Clear (·.kind == .rightBracket) (inner ++ [closing] ++ rest) := by
      obtain ⟨token, others, rfl, begins⟩ := begins_logic _ _ _ inside
      simpa using (not_beginsOperand begins).1
    refine bind_eq_ok.mpr ⟨false, _, eat_eq_ok.mpr (.inr ⟨rfl, rfl, conditionNext⟩), ?_⟩
    apply tryCatch_eq_ok_of_fails
    · intro found after counts
      obtain ⟨amount, bracket, taken, brackets, _⟩ := counted_eq_ok.mp counts
      obtain ⟨front, same, count⟩ := (expr_reads room).sound taken
      exact condition_apart inside count brackets ((List.append_assoc ..).symm.trans same)
    · exact fun failure => conditional_eq_ok.mpr ⟨condition, closing, by simpa using taken, closes, rfl⟩

theorem begins_repeated {depth : Nat} : Phrase.Begins (Repeated depth) (·.kind = .leftBracket) := by
  intro tokens value there
  cases there with
  | untilEnd opens _ | count opens _ _ | whileTrue opens _ _ => exact ⟨_, _, rfl, opens⟩

theorem repeated?_reads (room : Nat) : ReadsOptional (repeated? room) (Repeated room) never := by
  refine ⟨?_, ?_, ?_⟩
  · intro tokens value rest read
    obtain ⟨bracket, after, eaten, continued⟩ := bind_eq_ok.mp read
    rcases eat_eq_ok.mp eaten with ⟨rfl, opening, rfl, opens⟩ | ⟨rfl, rfl, _⟩
    · simp only [↓reduceIte, map_eq_ok, Option.some.injEq] at continued
      obtain ⟨found, taken, rfl⟩ := continued
      obtain ⟨front, rfl, there⟩ := repetition_sound opens taken
      exact ⟨opening :: front, rfl, there⟩
    · simp only [Bool.false_eq_true, if_false] at continued
      cases continued
  · intro tokens rest read
    obtain ⟨bracket, after, eaten, continued⟩ := bind_eq_ok.mp read
    rcases eat_eq_ok.mp eaten with ⟨rfl, opening, rfl, opens⟩ | ⟨rfl, rfl, _⟩
    · simp only [↓reduceIte, map_eq_ok, reduceCtorEq, and_false, exists_false] at continued
    · simp only [Bool.false_eq_true, if_false] at continued
      cases continued
      rfl
  · intro front value rest there _
    obtain ⟨opening, others, rfl, opens⟩ := begins_repeated _ _ there
    refine bind_eq_ok.mpr ⟨true, others ++ rest, eat_eq_ok.mpr (.inl ⟨rfl, opening, rfl, opens⟩), ?_⟩
    simp only [↓reduceIte, map_eq_ok, Option.some.injEq]
    exact ⟨value, repetition_complete there, rfl⟩

theorem repeated?_absent {room : Nat} (clear : Clear (·.kind == .leftBracket) tokens) :
    repeated? room tokens = .ok (none, tokens) :=
  bind_eq_ok.mpr ⟨false, tokens, eat_eq_ok.mpr (.inr ⟨rfl, rfl, clear⟩), rfl⟩

/-! Late delimiters. -/

/-- What may follow the repetition of a type, and the type it makes. -/
inductive Finished : MemberType → Phrase MemberType where
  | completed {type whole} (completed : Completed type whole) :
      Finished (.plain (.data type)) [] (.plain (.data whole))
  | late {type tokens delimiter} (takes : type.primitive.IsDelimited)
      (absent : type.delimiter = none) (ending : Phrase.InParens Ending tokens delimiter) :
      Finished (.plain (.data type)) tokens (.plain (.data { type with delimiter := some delimiter }))
  | named {path} : Finished (.plain (.named path)) [] (.plain (.named path))
  | chosen {choice} : Finished (.chosen choice) [] (.chosen choice)

theorem withLateDelimiter_reads (type : MemberType) :
    Reads (withLateDelimiter type) (Finished type) (·.kind == .leftParen) := by
  refine ⟨?_, ?_⟩
  · intro tokens whole rest read
    cases type with
    | chosen choice =>
      cases read
      exact ⟨[], rfl, .chosen⟩
    | plain type =>
      cases type with
      | named path =>
        cases read
        exact ⟨[], rfl, .named⟩
      | data type =>
        simp only [withLateDelimiter, nextIsKind_bind] at read
        split at read
        next follows =>
          have takes := Primitive.takesDelimiter_iff.mp (Bool.and_eq_true_iff.mp follows).1
          split at read
          next => exact absurd read fail_ne_ok
          next single =>
            obtain ⟨found, after, taken, returned⟩ := bind_eq_ok.mp read
            cases returned
            obtain ⟨front, same, ending⟩ := delimiter_reads.sound taken
            exact ⟨front, same, .late takes (by simpa using single) ending⟩
        next =>
          obtain ⟨found, after, defaulted, returned⟩ := bind_eq_ok.mp read
          cases returned
          obtain ⟨rfl, completed⟩ := withDefaultDelimiter_eq_ok.mp defaulted
          exact ⟨[], rfl, .completed completed⟩
  · intro front whole rest finished clear
    cases finished with
    | @completed type whole completed =>
      simp only [withLateDelimiter, nextIsKind_bind, List.nil_append, clear.any_eq_false, Bool.and_false,
        Bool.false_eq_true, if_false]
      exact bind_eq_ok.mpr ⟨whole, rest, withDefaultDelimiter_eq_ok.mpr ⟨rfl, completed⟩, rfl⟩
    | @late type tokens found takes absent ending =>
      have taken := delimiter_reads.complete ending (clear_never rest)
      obtain ⟨opening, others, rfl, opens⟩ := Phrase.begins_inParens _ _ ending
      simp only [withLateDelimiter, nextIsKind_bind, Primitive.takesDelimiter_iff.mpr takes, List.cons_append,
        List.head?_cons, Option.any_some, opens, BEq.rfl, Bool.and_self, if_true, absent, Option.isSome_none,
        Bool.false_eq_true, if_false]
      exact bind_eq_ok.mpr ⟨found, rest, taken, rfl⟩
    | named => rfl
    | chosen => rfl

/-! Members. -/

theorem typed_of_parts {depth : Nat} {front middle last : List Token} {type whole : MemberType}
    {repetition : Option Repetition} (undelimited : Undelimited depth front type)
    (repeated : Phrase.Optional (Repeated depth) middle repetition) (finished : Finished type last whole) :
    Typed depth (front ++ (middle ++ last)) (whole, repetition) := by
  cases finished with
  | completed completed =>
    cases undelimited with
    | data primary => simpa using Typed.data primary repeated completed
  | late takes absent ending =>
    cases undelimited with
    | data primary =>
      cases primary with
      | bare word spelled =>
        have line := Typed.late word spelled takes repeated ending
        exact line
      | delimited => cases absent
  | named =>
    cases undelimited with
    | named dotted => simpa using Typed.named dotted repeated
  | chosen =>
    cases undelimited with
    | chosen choosing => simpa using Typed.chosen choosing repeated

/-- A delimiter is taken as late only behind a repetition. -/
theorem parts_of_typed {depth : Nat} {whole : MemberType} {repetition : Option Repetition}
    (typed : Typed depth tokens (whole, repetition)) :
    ∃ front middle last type, tokens = front ++ (middle ++ last) ∧ Undelimited depth front type ∧
      Phrase.Optional (Repeated depth) middle repetition ∧ Finished type last whole ∧
      (middle = [] → last = []) := by
  cases typed with
  | @data front type back _ _ primary repeated completed =>
    exact ⟨front, back, [], _, by simp, .data primary, repeated, .completed completed, fun _ => rfl⟩
  | @late token primitive back _ last delimiter word spelled takes repeated ending =>
    cases repeated with
    | absent =>
      refine ⟨token :: last, [], [], _, by simp, .data (.delimited word spelled takes ending), .absent, ?_,
        fun _ => rfl⟩
      exact .completed (.written rfl)
    | present there =>
      refine ⟨[token], back, last, _, by simp, .data (.bare word spelled), .present there,
        .late takes rfl ending, fun none => ?_⟩
      exact absurd none (begins_repeated.nonempty there)
  | @named front _ back _ dotted repeated =>
    exact ⟨front, back, [], _, by simp, .named dotted, repeated, .named, fun _ => rfl⟩
  | @chosen front _ back _ choosing repeated =>
    exact ⟨front, back, [], _, by simp, .chosen choosing, repeated, .chosen, fun _ => rfl⟩

/-- The token goes on with all of a member but its name. -/
def extendsInfo (token : Token) : Bool :=
  token.kind == .leftBracket || extendsType token

theorem memberInfo_eq (room : Nat) (inherited : OrderRule) :
    memberInfo room inherited = (do
      let (order, type) ← orderAndType room
      let repetition ← repeated? room
      let type ← withLateDelimiter type
      return ⟨type, order.getD inherited, repetition⟩) := by
  simp only [memberInfo, repeated?, bind_assoc]
  refine bind_congr fun ordered => bind_congr fun bracket => ?_
  cases bracket <;> rfl

theorem memberInfo_reads (room : Nat) (inherited : OrderRule) :
    Reads (memberInfo room inherited) (Info room inherited) extendsInfo := by
  rw [memberInfo_eq]
  refine ⟨?_, ?_⟩
  · intro tokens info rest read
    simp only [bind_eq_ok, pure_eq_ok] at read
    obtain ⟨⟨order, type⟩, after, typed, repetition, middle, repeated, whole, _, finished, rfl, rfl⟩ := read
    obtain ⟨front, last, rfl, ordered, plain⟩ := orderAndType_eq_ok.mp typed
    obtain ⟨back, rfl, undelimited⟩ := (memberType_reads room).sound plain
    obtain ⟨ending, rfl, finish⟩ := (withLateDelimiter_reads type).sound finished
    cases repetition with
    | none =>
      have same := (repeated?_reads room).absent repeated
      subst same
      exact ⟨front ++ (back ++ ([] ++ ending)), by simp, .mk ordered (typed_of_parts undelimited .absent finish)⟩
    | some value =>
      obtain ⟨brackets, rfl, there⟩ := (repeated?_reads room).sound repeated
      refine ⟨front ++ (back ++ (brackets ++ ending)), by simp, .mk ordered ?_⟩
      exact typed_of_parts undelimited (.present there) finish
  · intro tokens info rest there clear
    cases there with
    | @mk front order back whole repetition ordered typed =>
      obtain ⟨first, middle, last, type, rfl, undelimited, repeated, finished, together⟩ :=
        parts_of_typed typed
      obtain ⟨clearBracket, clearType⟩ : Clear (·.kind == .leftBracket) rest ∧ Clear extendsType rest :=
        clear_or.mp clear
      have clearParen : Clear (·.kind == .leftParen) rest := (clear_or.mp clearType).2
      have finish := (withLateDelimiter_reads type).complete finished clearParen
      have bracketed : repeated? room (middle ++ (last ++ rest)) = .ok (repetition, last ++ rest) := by
        cases repeated with
        | absent =>
          rw [together rfl]
          exact repeated?_absent clearBracket
        | present there => exact (repeated?_reads room).complete there (clear_never _)
      have clearNext : Clear extendsType (middle ++ (last ++ rest)) := by
        cases repeated with
        | absent =>
          rw [together rfl]
          exact clearType
        | present there =>
          obtain ⟨opening, others, rfl, opens⟩ := begins_repeated _ _ there
          simp [extendsType, opens]
      have plain := (memberType_reads room).complete undelimited clearNext
      simp only [bind_eq_ok, pure_eq_ok]
      refine ⟨(order, type), _, orderAndType_eq_ok.mpr ⟨front, _, ?_, ordered, plain⟩, repetition, _,
        bracketed, whole, rest, finish, rfl, rfl⟩
      simp

theorem member_reads (room : Nat) (inherited : OrderRule) :
    Reads (member room inherited) (MemberLine room inherited) never := by
  refine ⟨?_, ?_⟩
  · intro tokens value rest read
    simp only [member, bind_eq_ok, name_eq_ok, token_eq_ok, pure_eq_ok] at read
    obtain ⟨info, _, taken, _, _, ⟨name, rfl, named, rfl⟩, comma, _, ⟨rfl, ends⟩, rfl, rfl⟩ := read
    obtain ⟨front, rfl, body⟩ := (memberInfo_reads room inherited).sound taken
    exact ⟨front ++ [name, comma], by simp, .mk body named ends⟩
  · intro front value rest line _
    cases line with
    | @mk tokens info name comma body named ends =>
      have clear : Clear extendsInfo (name :: comma :: rest) := by simp [extendsInfo, extendsType, named]
      have taken := (memberInfo_reads room inherited).complete body clear
      simp only [member, bind_eq_ok, name_eq_ok, token_eq_ok, pure_eq_ok]
      exact ⟨info, _, by simpa using taken, _, _, ⟨name, rfl, named, rfl⟩, comma, rest, ⟨rfl, ends⟩, rfl, rfl⟩

/-- All a member can begin with. -/
theorem begins_info {depth : Nat} {inherited : OrderRule} : Phrase.Begins (Info depth inherited) fun token =>
    token.kind = .dataType ∨ token.kind = .identifier ∨ token.kind = .leftParen ∨
      ∃ order : ByteOrder, token.IsWord order.keyword := by
  intro tokens info there
  cases there with
  | mk ordered typed =>
    cases ordered with
    | present order =>
      cases order with
      | fixed word =>
        cases word with
        | mk keyword => exact ⟨_, _, rfl, .inr (.inr (.inr ⟨_, keyword⟩))⟩
      | chosen choosing =>
        obtain ⟨token, others, rfl, opens⟩ := begins_chosen _ _ choosing
        exact ⟨token, _, rfl, .inr (.inr (.inl opens))⟩
    | absent =>
      obtain ⟨first, middle, last, type, rfl, undelimited, _⟩ := parts_of_typed typed
      obtain ⟨token, others, rfl, kind⟩ := begins_undelimited _ _ undelimited
      refine ⟨token, _, rfl, ?_⟩
      rcases kind with word | start | opens
      · exact .inl word
      · exact .inr (.inl start)
      · exact .inr (.inr (.inl opens))

end Parser

end RecordLayout
