import RecordLayout.Proofs.Grammar.Depth
import RecordLayout.Proofs.Pairing.Expr

/-! Conditions side by side. Where no comparison can be read at a parenthesis, its failure is dropped and a
condition in that parenthesis is tried. If the first run departs there and the second run does not, then the
second run has found an expression in that parenthesis. No condition is in it at any room, so that the first
run fails again. -/

namespace RecordLayout

open Grammar RecordLayout.Parser

namespace Pairing

variable {tokens rest : List Token}

/-! More and less room for the same tokens. -/

/-- The first run has no more room than the second one, and the same of all tokens left. -/
def deeper (all : List Token) : Pairing where
  aligned front back := front = back ∧ front ⊆ all
  takes _ := True
  known := (· ∈ all)
  rooms := (· ≤ ·)
  departs := Failure.OfDepth (· ∈ all)
  short := False
  step together := ⟨_, together.1.symm, fun _ => ⟨rfl, (List.cons_subset.mp together.2).2⟩⟩
  stop together := .inl together.1.symm
  fewer together := together.1 ▸ List.Subset.refl _
  knows together _ member := together.2 (together.1 ▸ member)
  ended impossible := impossible.elim

theorem inline_deeper (all : List Token) : (deeper all).Inline where
  takes _ _ := trivial
  room_zero _ := .inr fun _ => .tooDeep
  room_succ {room other} fewer := ⟨other - 1, by have := Nat.le_trans (Nat.le_add_left 1 room) fewer; omega,
    Nat.le_sub_one_of_lt fewer⟩
  deep _ ofDepth := ofDepth
  cut impossible := impossible.elim

/-- Both results are the same, or the first one is a failure that speaks of the depth. -/
theorem match_deeper {all : List Token} {one other : Except Failure (α × List Token)}
    (matched : (deeper all).Match one other) :
    one = other ∨ ∃ failure, failure.OfDepth (· ∈ all) ∧ one = .error failure := by
  apply matched.elim
  · exact fun failure failed ofDepth => .inr ⟨failure, ofDepth, failed⟩
  · exact fun _ _ impossible => impossible.elim
  · exact fun _ failed same => .inl (failed.trans same.symm)
  · intro value rest others read same together
    exact .inl (read.trans (together.1 ▸ same.symm))

theorem expr_deeper {room other : Nat} (fewer : room ≤ other) (tokens : List Token) :
    expr room tokens = expr other tokens ∨
      ∃ failure, failure.OfDepth (· ∈ tokens) ∧ expr room tokens = .error failure :=
  match_deeper ((expr_follows (inline_deeper tokens) fewer).along _ _ ⟨rfl, List.Subset.refl tokens⟩)

end Pairing

namespace Parser

variable {tokens rest : List Token}

theorem relationOrGroup_of_ok {operand : Parser Expr} {inner : Parser Condition}
    {result : Condition × List Token} (read : comparison operand tokens = .ok result) :
    relationOrGroup operand inner tokens = .ok result :=
  tryCatch_of_ok read

theorem relationOrGroup_of_error {operand : Parser Expr} {inner : Parser Condition} {failure : Failure}
    (failed : comparison operand tokens = .error failure) :
    relationOrGroup operand inner tokens =
      if tokens.head?.any (·.kind == .leftParen) then inParens inner tokens else .error failure := by
  refine (tryCatch_of_error failed).trans ?_
  rw [nextIsKind_bind]
  split <;> rfl

theorem inParens_of_error {inner : Parser α} {opening : Token} {failure : Failure} (opens : opening.kind = .leftParen)
    (failed : inner tokens = .error failure) : inParens inner (opening :: tokens) = .error failure := by
  have opened : token .leftParen (opening :: tokens) = .ok (opening, tokens) := token_eq_ok.mpr ⟨rfl, opens⟩
  rw [inParens, bind_of_ok opened, bind_of_error failed]

/-! Expressions where conditions are sought. -/

/-- The tokens begin with an expression in parentheses. -/
inductive Parenthesized : List Token → Prop where
  | mk {opening inner closing more depth value} (opens : opening.kind = .leftParen)
      (inside : Arithmetic depth inner value) (closes : closing.kind = .rightParen) :
      Parenthesized (opening :: (inner ++ closing :: more))

theorem Parenthesized.append (begins : Parenthesized tokens) : Parenthesized (tokens ++ rest) := by
  cases begins with
  | mk opens inside closes => simpa using Parenthesized.mk opens inside closes

theorem parenthesized_of_factor {depth : Nat} {value : Expr} (there : Factor depth tokens value)
    (opens : tokens.head?.any (·.kind == .leftParen) = true) : Parenthesized tokens := by
  have form (signed grouped : Phrase Expr) (factor : FactorOf signed grouped tokens value)
      (noSign : signed tokens value → Parenthesized tokens)
      (group : grouped tokens value → Parenthesized tokens) : Parenthesized tokens := by
    cases factor with
    | int literal _ => simp [literal] at opens
    | float literal _ => simp [literal] at opens
    | ref dotted =>
      obtain ⟨token, others, rfl, start⟩ := begins_dotted _ _ dotted
      simp [start] at opens
    | signed there => exact noSign there
    | grouped there => exact group there
  cases depth with
  | zero => exact form _ _ there (fun impossible => impossible.elim) fun impossible => impossible.elim
  | succ depth =>
    apply form _ _ there
    · intro signed
      cases signed with
      | mk _ sign _ =>
        have plain := (plain_of_operator sign).2.1
        simp [plain] at opens
    · intro grouped
      cases grouped with
      | mk first inside closes => exact .mk first inside closes

theorem parenthesized_of_arithmetic {depth : Nat} {value : Expr} (there : Arithmetic depth tokens value)
    (opens : tokens.head?.any (·.kind == .leftParen) = true) : Parenthesized tokens := by
  obtain ⟨_, _, _, _, rfl, term, _⟩ := there.exists_many
  obtain ⟨_, _, _, _, rfl, factor, _⟩ := term.exists_many
  obtain ⟨token, others, rfl, _⟩ := begins_factor _ _ _ factor
  exact (parenthesized_of_factor factor opens).append.append

theorem parenthesized_of_read {room : Nat} {value : Expr} (read : expr room tokens = .ok (value, rest))
    (opens : tokens.head?.any (·.kind == .leftParen) = true) : Parenthesized tokens := by
  obtain ⟨front, rfl, there⟩ := (expr_reads room).sound read
  obtain ⟨token, others, rfl, _⟩ := begins_arithmetic _ _ _ there
  exact (parenthesized_of_arithmetic there opens).append

/-- No comparison is where an expression is closed. -/
theorem comparison_fails (room : Nat) {depth : Nat} {value : Expr} {closing : Token}
    (there : Arithmetic depth tokens value) (closes : closing.kind = .rightParen) (rest : List Token) :
    ∃ failure, failure.OfDepth (· ∈ tokens ++ closing :: rest) ∧
      comparison (expr room) (tokens ++ closing :: rest) = .error failure := by
  have deep : Arithmetic (max room depth) tokens value :=
    within_arithmetic (.inl (Nat.le_max_right room depth)) _ _ (Nat.le_refl _) there
  have clear : Clear extendsSum (closing :: rest) := by simp [not_extendsSum, closes]
  have read := (expr_reads _).complete deep clear
  rcases Pairing.expr_deeper (Nat.le_max_left room depth) (tokens ++ closing :: rest) with
    same | ⟨failure, ofDepth, failed⟩
  · refine ⟨_, .retried (by simp) closes, ?_⟩
    have unrelated : relation? closing = none := by simp [relation?, closes]
    rw [comparison, bind_of_ok (same.trans read)]
    simp [expect, accept?, bind, StateT.bind, Except.bind, unrelated, unexpected]
  · exact ⟨failure, ofDepth, bind_of_error failed⟩

/-- No condition is where an expression is closed, whatever the room. Either there is no room for the
expression, or there is no comparison where it is closed. -/
theorem condition_fails (room : Nat) {depth : Nat} {value : Expr} {closing : Token}
    (there : Arithmetic depth tokens value) (closes : closing.kind = .rightParen) (rest : List Token) :
    ∃ failure, failure.OfDepth (· ∈ tokens ++ closing :: rest) ∧
      condition room (tokens ++ closing :: rest) = .error failure := by
  -- A parenthesis that begins the expression is tried as a condition with less room, which fails in turn.
  induction room generalizing tokens depth value closing rest with
  | zero => exact ⟨_, .tooDeep, rfl⟩
  | succ room ih =>
    obtain ⟨failure, ofDepth, failed⟩ := comparison_fails room there closes rest
    have fails : ∃ failure, failure.OfDepth (· ∈ tokens ++ closing :: rest) ∧
        relationOrGroup (expr room) (condition room) (tokens ++ closing :: rest) = .error failure := by
      rw [relationOrGroup_of_error failed]
      split
      next opens =>
        have begins : Parenthesized tokens := by
          obtain ⟨token, others, rfl, _⟩ := begins_arithmetic _ _ _ there
          exact parenthesized_of_arithmetic there opens
        cases begins with
        | @mk opening inner other more _ _ first inside closesInner =>
          obtain ⟨again, ofDepth, refused⟩ := ih inside closesInner (more ++ closing :: rest)
          refine ⟨again, ofDepth.mono (by simp +contextual), ?_⟩
          simpa using inParens_of_error first refused
      next => exact ⟨failure, ofDepth, rfl⟩
    obtain ⟨again, ofDepth, refused⟩ := fails
    exact ⟨again, ofDepth, bind_of_error (bind_of_error refused)⟩

/-- No condition in parentheses is where an expression in parentheses is. -/
theorem group_fails (room : Nat) (begins : Parenthesized tokens) :
    ∃ failure, failure.OfDepth (· ∈ tokens) ∧ inParens (condition room) tokens = .error failure := by
  cases begins with
  | @mk opening inner closing more _ _ opens inside closes =>
    obtain ⟨failure, ofDepth, refused⟩ := condition_fails room inside closes more
    exact ⟨failure, ofDepth.mono fun _ => List.mem_cons_of_mem opening, inParens_of_error opens refused⟩

end Parser

namespace Pairing

variable {pair : Pairing}

/-! Comparisons and groups. -/

theorem comparison_follows (inline : pair.Inline) {first second : Parser Expr} (follows : pair.Follows first second) :
    pair.Follows (comparison first) (comparison second) :=
  follows.bind fun _ => (expect_follows inline.takes_relation?).bind fun _ => follows.bind fun _ => .pure

/-- Where the first run may depart at all, it departs where the second run has a failure that speaks of the
depth. -/
theorem Match.departs (inline : pair.Inline) {one other : Except Failure (α × List Token)} {failure : Failure}
    (matched : pair.Match one other) (ofDepth : failure.OfDepth pair.known) (failed : other = .error failure)
    {reason : Failure} (departs : pair.departs reason) : pair.Departs one := by
  rcases matched with departed | agreed
  · exact departed
  · subst failed
    cases one with
    | error again =>
      cases agreed
      exact inline.deep departs ofDepth
    | ok result =>
      obtain ⟨_, impossible, _⟩ := agreed
      cases impossible

variable {room other : Nat} {front back : List Token}

theorem group_departs (inline : pair.Inline) (inside : pair.Follows (condition room) (condition other))
    (together : pair.aligned front back) (begins : Parenthesized back) {reason : Failure}
    (departs : pair.departs reason) : pair.Departs (inParens (condition room) front) := by
  obtain ⟨failure, ofDepth, failed⟩ := group_fails other begins
  exact ((parens_follows inline inside).along _ _ together).departs inline
    (ofDepth.mono (pair.knows together)) failed departs

/-- Where the first run departs from a comparison it goes on to depart, unless it reads a group. -/
theorem relationOrGroup_departs {operand : Parser Expr} {inner : Parser Condition}
    (departed : pair.Departs (comparison operand front))
    (group : front.head?.any (·.kind == .leftParen) = true → pair.Departs (inParens inner front)) :
    pair.Departs (relationOrGroup operand inner front) := by
  cases compared : comparison operand front with
  | ok result =>
    rw [relationOrGroup_of_ok compared]
    rwa [compared] at departed
  | error failure =>
    rw [relationOrGroup_of_error compared]
    split
    next opens => exact group opens
    next => rwa [compared] at departed

theorem relationOrGroup_follows (inline : pair.Inline) (rooms : pair.rooms room other)
    (inside : pair.Follows (condition room) (condition other)) :
    pair.Follows (relationOrGroup (expr room) (condition room)) (relationOrGroup (expr other) (condition other)) := by
  have compares := comparison_follows inline (expr_follows inline rooms)
  have groups := parens_follows inline inside
  have atEnd (short : pair.short) : pair.Departs (relationOrGroup (expr room) (condition room) []) :=
    relationOrGroup_departs (compares.out short) (by simp)
  refine ⟨fun front back together => ?_, atEnd⟩
  rcases pair.head together with same | ⟨rfl, short⟩
  · apply (compares.along _ _ together).elim
    · intro failure failed departs
      cases read : comparison (expr other) back with
      -- Only the second run has a comparison. The parenthesis before it holds an expression, and no condition.
      | ok result =>
        refine .inl (relationOrGroup_departs (failed ▸ departs) fun opens => ?_)
        obtain ⟨left, token, after, _, _, first, _⟩ := comparison_eq_ok.mp read
        exact group_departs inline inside together (parenthesized_of_read first (same ▸ opens)) departs
      | error reason =>
        rw [relationOrGroup_of_error failed, relationOrGroup_of_error read, same]
        split
        · exact groups.along _ _ together
        · exact match_departed departs
    · intro value read short
      rw [relationOrGroup_of_ok read]
      exact .inl ⟨short, rfl⟩
    · intro failure failed refused
      rw [relationOrGroup_of_error failed, relationOrGroup_of_error refused, same]
      split
      · exact groups.along _ _ together
      · exact match_error
    · intro value rest others read found remaining
      rw [relationOrGroup_of_ok read, relationOrGroup_of_ok found]
      exact match_ok remaining
  · exact .inl (atEnd short)

/-! Connectives. -/

theorem junction_follows {first second : Parser Condition} {phrase otherPhrase : Phrase Condition}
    {blocks otherBlocks : Token → Bool} {op : Connective} {kind : Token.Kind}
    (taken : ∀ token : Token, token.kind = kind → pair.takes token) (reads : Reads first phrase blocks)
    (otherReads : Reads second otherPhrase otherBlocks) (follows : pair.Follows first second) :
    pair.Follows (junction op kind first) (junction op kind second) := by
  have others := manyAfter_follows kind taken reads otherReads follows
  exact follows.bind fun _ => others.bind fun _ => .pure

theorem condition_follows (inline : pair.Inline) (rooms : pair.rooms room other) :
    pair.Follows (condition room) (condition other) := by
  induction room generalizing other with
  | zero =>
    rcases inline.room_zero rooms with rfl | departs
    · exact inline.tooDeep_follows
    · exact fail_departs departs
  | succ room ih =>
    obtain ⟨inner, rfl, inside⟩ := inline.room_succ rooms
    have items := relationOrGroup_follows inline inside (ih inside)
    have reads (room : Nat) := relation_reads (condition_reads room)
    have both (room : Nat) := conjunction_reads (condition_reads room)
    have conjunctions : pair.Follows (junction .and .and _) (junction .and .and _) :=
      junction_follows (inline.takes_kind (by simp)) (reads room) (reads inner) items
    exact junction_follows (inline.takes_kind (by simp)) (both room) (both inner) conjunctions

end Pairing

end RecordLayout
