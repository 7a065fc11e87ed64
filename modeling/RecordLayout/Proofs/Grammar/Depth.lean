import RecordLayout.Proofs.Grammar.Declaration

/-! How deep a phrase nests. Whatever nests takes a token for it, so a depth as large as the number of
tokens allows all that any depth does, and a larger depth never allows less. -/

namespace RecordLayout

namespace Phrase

/-- Up to a number of tokens, what is the first phrase is the second one as well. -/
def Within (size : Nat) (first second : Phrase α) : Prop :=
  ∀ tokens value, tokens.length ≤ size → first tokens value → second tokens value

namespace Within

variable {size : Nat}

theorem shorter {first second : Phrase α} {other : Nat} (within : Within size first second)
    (fewer : other ≤ size) : Within other first second :=
  fun tokens value bound there => within tokens value (Nat.le_trans bound fewer) there

theorem optional {first second : Phrase α} (within : Within size first second) :
    Within size (Optional first) (Optional second) := by
  intro tokens value bound there
  cases there with
  | absent => exact .absent
  | present there => exact .present (within _ _ bound there)

theorem many {first second : Phrase α} (within : Within size first second) :
    Within size (Many first) (Many second) := by
  intro tokens values bound there
  induction there with
  | nil => exact .nil
  | cons item _ ih =>
    rw [List.length_append] at bound
    exact .cons (within _ _ (by omega) item) (ih (by omega))

theorem chain {first second : Phrase α} {link other : Phrase β} {join : α → β → α}
    (within : Within size first second) (linked : Within size link other) :
    Within size (Chain first link join) (Chain second other join) := by
  intro tokens value bound there
  induction there with
  | single only => exact .single (within _ _ bound only)
  | more _ next ih =>
    rw [List.length_append] at bound
    exact .more (ih (by omega)) (linked _ _ (by omega) next)

theorem inParens {first second : Phrase α} (within : Within size first second) :
    Within (size + 1) (InParens first) (InParens second) := by
  intro tokens value bound there
  cases there with
  | mk opens inside closes =>
    simp only [List.length_cons, List.length_append] at bound
    exact .mk opens (within _ _ (by omega) inside) closes

theorem operation {among : Operator → Prop} {first second : Phrase Expr}
    (within : Within size first second) : Within size (Operation among first) (Operation among second) := by
  intro tokens value bound there
  cases there with
  | mk sorted sign right =>
    rw [List.length_cons] at bound
    exact .mk sorted sign (within _ _ (by omega) right)

theorem after {kind : Token.Kind} {first second : Phrase α} (within : Within size first second) :
    Within size (After kind first) (After kind second) := by
  intro tokens value bound there
  cases there with
  | mk mark there =>
    rw [List.length_cons] at bound
    exact .mk mark (within _ _ (by omega) there)

end Within

end Phrase

namespace Grammar

open Phrase RecordLayout.Parser

variable {depth other size : Nat}

/-! Expressions and conditions. -/

theorem within_operations {among : Operator → Prop} {first second : Phrase Expr} (within : Within size first second) :
    Within size (Operations among first) (Operations among second) :=
  within.chain within.operation

theorem within_sum {first second : Phrase Expr} (within : Within size first second) :
    Within size (Sum first) (Sum second) :=
  within_operations (within_operations within)

theorem within_factorOf {signed grouped otherSigned otherGrouped : Phrase Expr}
    (withinSigned : Within size signed otherSigned) (withinGrouped : Within size grouped otherGrouped) :
    Within size (FactorOf signed grouped) (FactorOf otherSigned otherGrouped) := by
  intro tokens value bound there
  cases there with
  | int literal number => exact .int literal number
  | float literal read => exact .float literal read
  | ref dotted => exact .ref dotted
  | signed there => exact .signed (withinSigned _ _ bound there)
  | grouped there => exact .grouped (withinGrouped _ _ bound there)

theorem within_signed {first second : Phrase Expr} (within : Within size first second) :
    Within (size + 1) (Signed first) (Signed second) := by
  intro tokens value bound there
  cases there with
  | mk allowed sign before =>
    rw [List.length_cons] at bound
    exact .mk allowed sign (within _ _ (by omega) before)

theorem within_nothing {phrase : Phrase α} : Within size nothing phrase :=
  fun _ _ _ impossible => impossible.elim

/-- Nothing is up to no tokens, whatever begins with one. -/
theorem within_zero {first second : Phrase α} {sort : Token → Prop} (begins : Begins first sort) :
    Within 0 first second := by
  intro tokens value bound there
  exact absurd (List.length_eq_zero_iff.mp (Nat.le_zero.mp bound)) (begins.nonempty there)

theorem within_factor (enough : depth ≤ other ∨ size ≤ other) :
    Within size (Factor depth) (Factor other) := by
  induction depth generalizing other size with
  | zero => cases other <;> exact within_factorOf within_nothing within_nothing
  | succ depth ih =>
    cases size with
    | zero => exact within_zero (begins_factor _)
    | succ size =>
      obtain ⟨other, rfl⟩ : ∃ smaller, other = smaller + 1 := ⟨other - 1, by omega⟩
      have inner : Within size (Factor depth) (Factor other) := ih (by omega)
      exact within_factorOf (within_signed inner) (within_sum inner).inParens

theorem within_arithmetic (enough : depth ≤ other ∨ size ≤ other) :
    Within size (Arithmetic depth) (Arithmetic other) :=
  within_sum (within_factor enough)

theorem within_relationOf {operand otherOperand : Phrase Expr} {condition otherCondition : Phrase Condition}
    (withinOperand : Within size operand otherOperand)
    (withinCondition : Within size condition otherCondition) :
    Within (size + 1) (RelationOf operand condition) (RelationOf otherOperand otherCondition) := by
  intro tokens value bound there
  cases there with
  | compared leftSide related rightSide =>
    simp only [List.length_append, List.length_cons] at bound
    exact .compared (withinOperand _ _ (by omega) leftSide) related (withinOperand _ _ (by omega) rightSide)
  | grouped inside => exact .grouped (withinCondition.inParens _ _ bound inside)

theorem within_junction {op : Connective} {kind : Token.Kind} {first second : Phrase Condition}
    (within : Within size first second) : Within size (Junction op kind first) (Junction op kind second) :=
  within.chain within.after

theorem within_logic (enough : depth ≤ other ∨ size ≤ other) : Within size (Logic depth) (Logic other) := by
  induction depth generalizing other size with
  | zero => exact within_nothing
  | succ depth ih =>
    cases size with
    | zero => exact within_zero (begins_logic _)
    | succ size =>
      obtain ⟨other, rfl⟩ : ∃ smaller, other = smaller + 1 := ⟨other - 1, by omega⟩
      have operands : Within size (Arithmetic depth) (Arithmetic other) := within_arithmetic (by omega)
      have conditions : Within size (Logic depth) (Logic other) := ih (by omega)
      exact within_junction (within_junction (within_relationOf operands conditions))

/-! Members. -/

theorem within_chosen {arm : Phrase α} (enough : depth ≤ other ∨ size ≤ other) :
    Within size (Chosen arm depth) (Chosen arm other) := by
  cases depth with
  | zero => exact within_nothing
  | succ depth =>
    cases size with
    | zero => exact within_zero begins_chosen
    | succ size =>
      obtain ⟨other, rfl⟩ : ∃ smaller, other = smaller + 1 := ⟨other - 1, by omega⟩
      intro tokens choice bound there
      cases there with
      | mk opens test asks first parts second closes =>
        simp only [List.length_append, List.length_cons] at bound
        have inner : Within size (Logic depth) (Logic other) := within_logic (by omega)
        exact .mk opens (inner _ _ (by omega) test) asks first parts second closes

theorem within_order (enough : depth ≤ other ∨ size ≤ other) : Within size (Order depth) (Order other) := by
  intro tokens order bound there
  cases there with
  | fixed word => exact .fixed word
  | chosen choosing => exact .chosen (within_chosen enough _ _ bound choosing)

theorem within_repeated (enough : depth ≤ other ∨ size ≤ other) :
    Within size (Repeated depth) (Repeated other) := by
  intro tokens repetition bound there
  cases there with
  | untilEnd opens closes => exact .untilEnd opens closes
  | count opens inside closes =>
    simp only [List.length_append, List.length_cons] at bound
    exact .count opens (within_arithmetic enough _ _ (by omega) inside) closes
  | whileTrue opens inside closes =>
    simp only [List.length_append, List.length_cons] at bound
    exact .whileTrue opens (within_logic enough _ _ (by omega) inside) closes

theorem within_typed (enough : depth ≤ other ∨ size ≤ other) : Within size (Typed depth) (Typed other) := by
  intro tokens typed bound there
  have repetitions := (within_repeated enough).optional
  cases there with
  | data primary repeated completed =>
    rw [List.length_append] at bound
    exact .data primary (repetitions _ _ (by omega) repeated) completed
  | late word spelled takes repeated ending =>
    simp only [List.length_append, List.length_cons] at bound
    exact .late word spelled takes (repetitions _ _ (by omega) repeated) ending
  | named dotted repeated =>
    rw [List.length_append] at bound
    exact .named dotted (repetitions _ _ (by omega) repeated)
  | chosen choosing repeated =>
    rw [List.length_append] at bound
    exact .chosen (within_chosen enough _ _ (by omega) choosing) (repetitions _ _ (by omega) repeated)

theorem within_info {inherited : OrderRule} (enough : depth ≤ other ∨ size ≤ other) :
    Within size (Info depth inherited) (Info other inherited) := by
  intro tokens info bound there
  cases there with
  | mk ordered typed =>
    rw [List.length_append] at bound
    exact .mk ((within_order enough).optional _ _ (by omega) ordered) (within_typed enough _ _ (by omega) typed)

theorem within_memberLine {inherited : OrderRule} (enough : depth ≤ other ∨ size ≤ other) :
    Within size (MemberLine depth inherited) (MemberLine other inherited) := by
  intro tokens member bound there
  cases there with
  | mk body named ends =>
    rw [List.length_append] at bound
    exact .mk (within_info enough _ _ (by omega) body) named ends

/-! Selections. -/

theorem within_caseLine {first second : Phrase α} (enough : depth ≤ other ∨ size ≤ other)
    (within : Within size first second) : Within size (CaseLine depth first) (CaseLine other second) := by
  intro tokens line bound there
  cases there with
  | mk chosen parts there ends =>
    simp only [List.length_append, List.length_cons] at bound
    exact .mk (within_arithmetic enough _ _ (by omega) chosen) parts (within _ _ (by omega) there) ends

theorem within_braced {first second : Phrase α} (within : Within size first second) :
    Within size (Braced first) (Braced second) := by
  intro tokens values bound there
  cases there with
  | mk opens items some closes =>
    simp only [List.length_append, List.length_cons] at bound
    exact .mk opens (within.many _ _ (by omega) items) some closes

theorem within_selecting {inherited : OrderRule} (enough : depth ≤ other ∨ size ≤ other) :
    Within size (Selecting depth inherited) (Selecting other inherited) := by
  intro tokens selected bound there
  cases there with
  | single body named =>
    rw [List.length_append] at bound
    exact .single (within_braced (within_caseLine enough (within_info enough)) _ _ (by omega) body) named
  | groups body =>
    have groups := within_braced (@within_memberLine _ _ _ inherited enough)
    exact .groups (within_braced (within_caseLine enough groups) _ _ bound body)

theorem within_selectionLine {inherited : OrderRule} (enough : depth ≤ other ∨ size ≤ other) :
    Within size (SelectionLine depth inherited) (SelectionLine other inherited) := by
  intro tokens selection bound there
  cases there with
  | mk keyword asked body ends =>
    simp only [List.length_append, List.length_cons] at bound
    have question := (within_arithmetic enough).inParens.shorter (Nat.le_succ size)
    exact .mk keyword (question _ _ (by omega) asked) (within_selecting enough _ _ (by omega) body) ends

/-! Declarations. -/

theorem within_item {inherited : OrderRule} (enough : depth ≤ other ∨ size ≤ other) :
    Within size (Item depth inherited) (Item other inherited) := by
  intro tokens item bound there
  cases there with
  | member line => exact .member (within_memberLine enough _ _ bound line)
  | selection line => exact .selection (within_selectionLine enough _ _ bound line)

theorem within_structBlock (enough : depth ≤ other ∨ size ≤ other) :
    Within size (StructBlock depth) (StructBlock other) := by
  intro tokens struct bound there
  cases there with
  | mk ordered keyword named opens body closes =>
    simp only [List.length_append, List.length_cons] at bound
    have order := (within_order enough).optional _ _ (by omega) ordered
    exact .mk order keyword named opens ((within_item enough).many _ _ (by omega) body) closes

theorem within_size (enough : depth ≤ other ∨ size ≤ other) :
    Within size (Optional (InParens (Arithmetic depth))) (Optional (InParens (Arithmetic other))) :=
  ((within_arithmetic enough).inParens.shorter (Nat.le_succ size)).optional

theorem within_bitfieldLine (enough : depth ≤ other ∨ size ≤ other) :
    Within size (BitfieldLine depth) (BitfieldLine other) := by
  intro tokens member bound there
  cases there with
  | mk named sized ends =>
    simp only [List.length_append, List.length_cons] at bound
    exact .mk named (within_size enough _ _ (by omega) sized) ends

theorem within_bitfieldBlock (enough : depth ≤ other ∨ size ≤ other) :
    Within size (BitfieldBlock depth) (BitfieldBlock other) := by
  intro tokens bitfield bound there
  cases there with
  | mk keyword named sized opens body closes =>
    simp only [List.length_append, List.length_cons] at bound
    have size := within_size enough _ _ (by omega) sized
    exact .mk keyword named size opens ((within_bitfieldLine enough).many _ _ (by omega) body) closes

theorem within_declared (enough : depth ≤ other ∨ size ≤ other) :
    Within size (Declared depth) (Declared other) := by
  intro tokens declaration bound there
  cases there with
  | struct block => exact .struct (within_structBlock enough _ _ bound block)
  | bitfield block => exact .bitfield (within_bitfieldBlock enough _ _ bound block)

theorem within_description (enough : depth ≤ other ∨ size ≤ other) :
    Within size (Description depth) (Description other) :=
  (within_declared enough).many

end Grammar

end RecordLayout
