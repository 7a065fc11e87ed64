import RecordLayout.Proofs.Grammar.Member
import RecordLayout.Proofs.Pairing.Condition

/-! Members side by side. Two more failures are dropped here: a count that cannot be read is read as a
condition, and a choice that is none of byte orders is read as one of types. Where the first run departs
from the count it departs from the condition as well. Where it ends in the alternatives of a choice, it
gives up the search for byte orders and fails in the search for types. -/

namespace RecordLayout

open Grammar RecordLayout.Parser

namespace Parser

/-- The alternatives of a choice of byte orders. The tokens to which the search for them goes back are given. -/
def orderArms (start : List Token) (head : Token × Condition) : Parser (Option (Choice ByteOrder)) := do
  match ← byteOrder? with
  | none =>
    set start
    return none
  | some ifTrue =>
    let _ ← token .colon
    match ← byteOrder? with
    | none =>
      set start
      return none
    | some ifFalse =>
      let closing ← token .rightParen
      return some ⟨head.2, ifTrue, ifFalse, head.1.span.through closing.span⟩

theorem orderChoice?_succ {room : Nat} {tokens : List Token} :
    orderChoice? (room + 1) tokens = (choiceHead room >>= orderArms tokens) tokens := rfl

/-- The alternatives of a choice of types. -/
def typeArms (head : Token × Condition) : Parser (Choice TypeRef) := do
  let ifTrue ← typeRef
  let _ ← token .colon
  let ifFalse ← typeRef
  let closing ← token .rightParen
  return ⟨head.2, ifTrue, ifFalse, head.1.span.through closing.span⟩

theorem typeChoice_eq {room : Nat} : typeChoice room = nested room fun room => choiceHead room >>= typeArms := rfl

end Parser

namespace Pairing

variable {pair : Pairing} {room other : Nat} {front back rest : List Token}

/-! Delimiters. -/

theorem hexEscape_follows (inline : pair.Inline) : pair.Follows hexEscape hexEscape := by
  refine (token_follows (inline.takes_kind (by simp))).bind fun backslash => ?_
  apply token_bind (inline.takes_kind (by simp))
  intro digits
  cases hexEscape? digits.content.toList with
  | none => exact failAt_along
  | some value => exact Follows.pure.along

theorem delimiter_follows (inline : pair.Inline) : pair.Follows delimiter delimiter := by
  apply parens_follows inline
  apply peek?_follows _ unexpected_follows
  intro token front back together
  cases kind : token.kind
  case string | char =>
    obtain ⟨others, rfl, aligned⟩ := pair.step together
    simp only [kind]
    exact match_ok (aligned (inline.takes_kind (by simp) token kind))
  case integer =>
    simp only [kind]
    exact ((integer_follows inline).bind fun _ => .pure).along _ _ together
  case backslash =>
    simp only [kind]
    exact (hexEscape_follows inline).along _ _ together
  case identifier =>
    simp only [kind]
    exact ((path_follows inline).bind fun _ => .pure).along _ _ together
  all_goals
    simp only [kind]
    exact unexpected_follows.along _ _ together

/-! Types. -/

theorem dataType_follows (inline : pair.Inline) : pair.Follows dataType dataType := by
  apply token_bind (inline.takes_kind (by simp))
  intro token
  cases Primitive.ofName? token.content with
  | none => exact failAt_along
  | some primitive =>
    have plain : pair.Follows (pure (DataType.mk primitive none token.span))
        (pure ⟨primitive, none, token.span⟩) := .pure
    have whole : pair.Follows (do return DataType.mk primitive (some (← delimiter)) token.span)
        (do return ⟨primitive, some (← delimiter), token.span⟩) := (delimiter_follows inline).bind fun _ => .pure
    apply Follows.along
    apply nextIs_follows
    · intro next front back together
      split
      · exact whole.along _ _ together
      · exact plain.along _ _ together
    · simpa using plain

theorem withDefaultDelimiter_follows (inline : pair.Inline) (type : DataType) :
    pair.Follows (withDefaultDelimiter type) (withDefaultDelimiter type) := by
  unfold withDefaultDelimiter
  split
  · exact .pure
  · exact failAt_follows fun short => inline.cut short _ _ .undelimited
  · exact .pure

theorem typeRef_follows (inline : pair.Inline) : pair.Follows typeRef typeRef := by
  apply either_follows
  · exact fun _ _ _ => ((dataType_follows inline).bind fun type =>
      (withDefaultDelimiter_follows inline type).bind fun _ => .pure).along _ _
  · apply either_follows
    · exact fun _ _ _ => ((path_follows inline).bind fun _ => .pure).along _ _
    · exact unexpected_follows

/-! Choices. -/

theorem nested_follows (inline : pair.Inline) (rooms : pair.rooms room other) {first second : Nat → Parser α}
    (body : ∀ {room other}, pair.rooms room other → pair.Follows (first room) (second other)) :
    pair.Follows (nested room first) (nested other second) := by
  cases room with
  | zero =>
    rcases inline.room_zero rooms with rfl | departs
    · exact inline.tooDeep_follows
    · exact fail_departs departs
  | succ room =>
    obtain ⟨inner, rfl, inside⟩ := inline.room_succ rooms
    exact body inside

theorem choiceHead_follows (inline : pair.Inline) (rooms : pair.rooms room other) :
    pair.Follows (choiceHead room) (choiceHead other) :=
  (token_follows (inline.takes_kind (by simp))).bind fun _ =>
    (condition_follows inline rooms).bind fun _ =>
      (token_follows (inline.takes_kind (by simp))).bind fun _ => .pure

theorem typeArms_follows (inline : pair.Inline) (head : Token × Condition) :
    pair.Follows (typeArms head) (typeArms head) :=
  (typeRef_follows inline).bind fun _ =>
    (token_follows (inline.takes_kind (by simp))).bind fun _ =>
      (typeRef_follows inline).bind fun _ =>
        (token_follows (inline.takes_kind (by simp))).bind fun _ => .pure

theorem typeChoice_follows (inline : pair.Inline) (rooms : pair.rooms room other) :
    pair.Follows (typeChoice room) (typeChoice other) :=
  nested_follows inline rooms fun inside => (choiceHead_follows inline inside).bind (typeArms_follows inline)

/-! Byte orders. -/

theorem takes_byteOrder (inline : pair.Inline) (token : Token)
    (found : (if token.kind = .keyword then ByteOrder.ofKeyword? token.content else none).isSome = true) :
    pair.takes token := by
  split at found
  next keyword => exact inline.takes_kind (by simp) token keyword
  next => simp at found

/-- Both runs have the same byte order before them, or none, unless the first one has come to its end. -/
theorem byteOrder?_cases (inline : pair.Inline) (together : pair.aligned front back) :
    front = [] ∧ pair.short ∨
    byteOrder? front = .ok (none, front) ∧ byteOrder? back = .ok (none, back) ∨
    ∃ token order left right, front = token :: left ∧ back = token :: right ∧ OrderWord [token] order ∧
      byteOrder? front = .ok (some order, left) ∧ byteOrder? back = .ok (some order, right) ∧
      pair.aligned left right := by
  cases front with
  | nil =>
    rcases pair.stop together with rfl | short
    · exact .inr (.inl ⟨rfl, rfl⟩)
    · exact .inl ⟨rfl, short⟩
  | cons token front =>
    obtain ⟨others, rfl, aligned⟩ := pair.step together
    right
    cases picked : if token.kind = .keyword then ByteOrder.ofKeyword? token.content else none with
    | none => exact .inl ⟨accept?_eq_none.mpr ⟨rfl, by simp [picked]⟩, accept?_eq_none.mpr ⟨rfl, by simp [picked]⟩⟩
    | some order =>
      have taken := takes_byteOrder inline token (by simp [picked])
      have read {rest : List Token} : byteOrder? (token :: rest) = .ok (some order, rest) :=
        accept?_eq_some.mpr ⟨token, rfl, picked⟩
      exact .inr ⟨token, order, front, others, rfl, rfl, .mk (pickOrder_eq_some.mp picked), read, read, aligned taken⟩

/-- No type is where the alternatives of a choice begin with a byte order. -/
theorem typeArms_departs (inline : pair.Inline) (short : pair.short) {head : Token × Condition} {word : Token}
    {order : ByteOrder} (there : pair.known word) (ordered : OrderWord [word] order) :
    pair.Departs (typeArms head (word :: rest)) := by
  cases ordered with
  | mk keyword =>
    have noType : typeRef (word :: rest) = .error (.fault (some word.span) (.unexpected .type word)) := by
      simp [typeRef, nextIsKind_bind, keyword.1, unexpected]
    rw [typeArms, bind_of_error noType]
    exact inline.cut short _ _ (.untyped there keyword.1 (ByteOrder.ofKeyword?_eq_some.mpr keyword.2))

/-- The first run may end in the alternatives. It goes back then, and finds no types there either. -/
theorem orderArms_match (inline : pair.Inline) (head : Token × Condition) {others : List Token}
    (start : pair.aligned front back) (together : pair.aligned rest others) :
    pair.Match (orderArms front head rest) (orderArms back head others) ∨
      pair.short ∧ orderArms front head rest = .ok (none, front) ∧ pair.Departs (typeArms head rest) := by
  rcases byteOrder?_cases inline together with
    ⟨rfl, short⟩ | ⟨first, second⟩ | ⟨word, _, left, right, rfl, rfl, ordered, first, second, remaining⟩
  · exact .inr ⟨short, rfl, (typeArms_follows inline head).out short⟩
  · rw [orderArms, bind_of_ok first, orderArms, bind_of_ok second]
    exact .inl (match_ok start)
  · rw [orderArms, bind_of_ok first, orderArms, bind_of_ok second]
    dsimp only
    have known := pair.knows together word (by simp)
    have colons : pair.Follows (token .colon) (token .colon) :=
      token_follows (inline.takes_kind (by simp))
    apply (colons.along _ _ remaining).elim
    · intro failure failed departs
      exact .inl (.inl (by rwa [bind_of_error failed]))
    · intro colon read short
      -- The order that has been read is a word that no type begins with.
      refine .inr ⟨short, ?_, typeArms_departs inline short known ordered⟩
      rw [bind_of_ok read]
      rfl
    · intro failure failed same
      rw [bind_of_error failed, bind_of_error same]
      exact .inl match_error
    · intro colon left right read same remaining
      rw [bind_of_ok read, bind_of_ok same]
      rcases byteOrder?_cases inline remaining with
        ⟨rfl, short⟩ | ⟨first, second⟩ | ⟨_, _, _, _, rfl, rfl, _, first, second, remaining⟩
      · exact .inr ⟨short, rfl, typeArms_departs inline short known ordered⟩
      · rw [bind_of_ok first, bind_of_ok second]
        exact .inl (match_ok start)
      · rw [bind_of_ok first, bind_of_ok second]
        have closes : pair.Follows (token .rightParen) (token .rightParen) :=
          token_follows (inline.takes_kind (by simp))
        exact .inl ((closes.along _ _ remaining).bind fun _ => .pure)

theorem orderChoice?_match (inline : pair.Inline) (rooms : pair.rooms room other)
    (together : pair.aligned front back) :
    pair.Match (orderChoice? room front) (orderChoice? other back) ∨
      pair.short ∧ orderChoice? room front = .ok (none, front) ∧ pair.Departs (typeChoice room front) := by
  cases room with
  | zero =>
    rcases inline.room_zero rooms with rfl | departs
    · exact .inl (inline.tooDeep_follows.along _ _ together)
    · exact .inl (match_departed (departs _))
  | succ room =>
    obtain ⟨inner, rfl, inside⟩ := inline.room_succ rooms
    rw [orderChoice?_succ, orderChoice?_succ, typeChoice_eq]
    simp only [nested]
    apply ((choiceHead_follows inline inside).along _ _ together).elim
    · intro failure failed departs
      exact .inl (.inl (by rwa [bind_of_error failed]))
    · intro head read short
      refine .inr ⟨short, ?_, ?_⟩
      · rw [bind_of_ok read]
        rfl
      · rw [bind_of_ok read]
        exact (typeArms_follows inline head).out short
    · intro failure failed same
      rw [bind_of_error failed, bind_of_error same]
      exact .inl match_error
    · intro head rest others read same remaining
      rw [bind_of_ok read, bind_of_ok same, bind_of_ok read]
      exact orderArms_match inline head together remaining

/-! Types of members. -/

theorem memberType_follows (inline : pair.Inline) (rooms : pair.rooms room other) :
    pair.Follows (memberType room) (memberType other) := by
  apply either_follows
  · exact fun _ _ _ => ((typeChoice_follows inline rooms).bind fun _ => .pure).along _ _
  · apply either_follows
    · exact fun _ _ _ => ((dataType_follows inline).bind fun _ => .pure).along _ _
    · apply either_follows
      · exact fun _ _ _ => ((path_follows inline).bind fun _ => .pure).along _ _
      · exact unexpected_follows

theorem orderAndType_follows (inline : pair.Inline) (rooms : pair.rooms room other) :
    pair.Follows (orderAndType room) (orderAndType other) := by
  have types := memberType_follows inline rooms
  refine (accept?_follows (takes_byteOrder inline)).bind fun found => ?_
  cases found with
  | some order => exact types.bind fun _ => .pure
  | none =>
    apply either_follows _ (types.bind fun _ => .pure)
    intro token front back together
    rcases orderChoice?_match inline rooms together with matched | ⟨short, given, departed⟩
    · apply matched.bind
      intro choice
      cases choice with
      | some choice => exact types.bind fun _ => .pure
      | none => exact (typeChoice_follows inline rooms).bind fun _ => .pure
    · rw [bind_of_ok given]
      exact .inl (departed.bind fun short _ => ⟨short, rfl⟩)

/-! Repetitions. -/

theorem junction_departs {item : Parser Condition} {op : Connective} {kind : Token.Kind}
    (departed : pair.Departs (item front)) : pair.Departs (junction op kind item front) :=
  departed.bind fun short _ => ⟨short, rfl⟩

theorem exists_departs {one : Except Failure (α × List Token)} (departed : pair.Departs one) :
    ∃ failure, pair.departs failure := by
  cases one with
  | error failure => exact ⟨failure, departed⟩
  | ok result => exact ⟨.ended .expression, pair.ended departed.1⟩

/-- Where the first run departs from an expression, it departs from a condition with the same room. -/
theorem condition_departs (inline : pair.Inline) (rooms : pair.rooms room other) (together : pair.aligned front back)
    {value : Expr} (read : expr other back = .ok (value, rest)) (departed : pair.Departs (expr room front)) :
    pair.Departs (condition room front) := by
  obtain ⟨reason, departs⟩ := exists_departs departed
  cases room with
  | zero => exact inline.deep departs .tooDeep
  | succ room =>
    obtain ⟨inner, rfl, inside⟩ := inline.room_succ rooms
    -- Inside of a condition there is less room for the same expression.
    have operand : pair.Departs (expr room front) := by
      rcases expr_deeper (Nat.le_succ room) front with same | ⟨failure, ofDepth, failed⟩
      · rwa [same]
      · rw [failed]
        refine inline.deep departs (ofDepth.mono fun token member => ?_)
        exact pair.knows together token (pair.fewer together member)
    apply junction_departs
    apply junction_departs
    apply relationOrGroup_departs
    · exact operand.bind fun short _ => pair.ended short
    · intro opens
      have begins : Parenthesized back := by
        rcases pair.head together with same | ⟨rfl, _⟩
        · exact parenthesized_of_read read (same ▸ opens)
        · simp at opens
      exact group_departs inline (condition_follows inline inside) together begins departs

theorem counted_follows (inline : pair.Inline) (rooms : pair.rooms room other) :
    pair.Follows (counted room) (counted other) :=
  (expr_follows inline rooms).bind fun _ =>
    (token_follows (inline.takes_kind (by simp))).bind fun _ => .pure

theorem conditional_follows (inline : pair.Inline) (rooms : pair.rooms room other) :
    pair.Follows (conditional room) (conditional other) :=
  (condition_follows inline rooms).bind fun _ =>
    (token_follows (inline.takes_kind (by simp))).bind fun _ => .pure

/-- Where the first run departs from a count that the second run reads, it departs within the expression. -/
theorem expr_departs (inline : pair.Inline) (rooms : pair.rooms room other) (together : pair.aligned front back)
    {value : Expr} {closing : Token} (closes : closing.kind = .rightBracket)
    (read : expr other back = .ok (value, closing :: rest)) {failure : Failure}
    (failed : counted room front = .error failure) : pair.Departs (expr room front) := by
  apply ((expr_follows inline rooms).along _ _ together).elim
  · intro failure failed departs
    rwa [failed]
  · intro amount found short
    rw [found]
    exact ⟨short, rfl⟩
  · intro failure _ refused
    rw [read] at refused
    cases refused
  · intro amount left right found same remaining
    rw [read] at same
    cases same
    rcases pair.head remaining with head | ⟨rfl, short⟩
    · obtain ⟨others, rfl⟩ : ∃ others, left = closing :: others := List.head?_eq_some_iff.mp head
      have finished : token .rightBracket (closing :: others) = .ok (closing, others) := token_eq_ok.mpr ⟨rfl, closes⟩
      rw [counted, bind_of_ok found, bind_of_ok finished] at failed
      cases failed
    · rw [found]
      exact ⟨short, rfl⟩

theorem repetition_follows (inline : pair.Inline) (rooms : pair.rooms room other) :
    pair.Follows (repetition room) (repetition other) := by
  have counts := counted_follows inline rooms
  have conditions := conditional_follows inline rooms
  refine (eat_follows (inline.takes_kind (by simp))).bind fun closed => ?_
  cases closed with
  | true => exact .pure
  | false =>
    change pair.Follows (tryCatch (counted room) fun _ => conditional room)
      (tryCatch (counted other) fun _ => conditional other)
    refine ⟨fun front back together => ?_, fun short => ?_⟩
    · apply (counts.along _ _ together).elim
      · intro failure failed departs
        rw [tryCatch_of_error failed]
        cases read : counted other back with
        | ok result =>
          obtain ⟨repetition, rest⟩ := result
          obtain ⟨amount, closing, taken, closes, _⟩ := counted_eq_ok.mp read
          -- Only the second run has a count. The first one departs from its expression under either reading.
          have departed := expr_departs inline rooms together closes taken failed
          exact .inl ((condition_departs inline rooms together taken departed).bind fun short _ => pair.ended short)
        | error reason =>
          rw [tryCatch_of_error read]
          exact conditions.along _ _ together
      · intro value read short
        rw [tryCatch_of_ok read]
        exact .inl ⟨short, rfl⟩
      · intro failure failed same
        rw [tryCatch_of_error failed, tryCatch_of_error same]
        exact conditions.along _ _ together
      · intro value left right read same remaining
        rw [tryCatch_of_ok read, tryCatch_of_ok same]
        exact match_ok remaining
    · cases read : counted room [] with
      | ok result => exact tryCatch_of_ok read ▸ read ▸ counts.out short
      | error failure => exact tryCatch_of_error read ▸ conditions.out short

theorem repeated?_follows (inline : pair.Inline) (rooms : pair.rooms room other) :
    pair.Follows (repeated? room) (repeated? other) := by
  refine (eat_follows (inline.takes_kind (by simp))).bind fun opened => ?_
  cases opened with
  | true => exact (repetition_follows inline rooms).map
  | false => exact .pure

/-! All of a member but its name. -/

theorem withLateDelimiter_follows (inline : pair.Inline) (type : MemberType) :
    pair.Follows (withLateDelimiter type) (withLateDelimiter type) := by
  cases type with
  | chosen choice => exact .pure
  | plain type =>
    cases type with
    | named path => exact .pure
    | data type =>
      have plain : pair.Follows (do return MemberType.plain (.data (← withDefaultDelimiter type)))
          (do return .plain (.data (← withDefaultDelimiter type))) :=
        (withDefaultDelimiter_follows inline type).bind fun _ => .pure
      apply nextIs_follows
      · intro token front back together
        split
        · split
          · exact fail_match together
          · exact ((delimiter_follows inline).bind fun _ => .pure).along _ _ together
        · exact plain.along _ _ together
      · simpa using plain

theorem memberInfo_follows (inline : pair.Inline) (rooms : pair.rooms room other) (inherited : OrderRule) :
    pair.Follows (memberInfo room inherited) (memberInfo other inherited) := by
  rw [memberInfo_eq, memberInfo_eq]
  refine (orderAndType_follows inline rooms).bind fun typed => ?_
  refine (repeated?_follows inline rooms).bind fun repetition => ?_
  exact (withLateDelimiter_follows inline typed.2).bind fun _ => .pure

end Pairing

end RecordLayout
