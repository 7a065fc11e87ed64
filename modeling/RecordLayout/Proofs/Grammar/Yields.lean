import RecordLayout.Proofs.Grammar.Stretches

/-! What is true of everything that tokens of some sort make up, wherever these stand. There is one rule for each way
to build a phrase from others. Tokens of a sort are the simplest of stretches: all of their parts are of that sort. -/

namespace RecordLayout.Grammar

open Phrase RecordLayout.Parser

variable {good : Token → Prop} {property : α → Prop} {phrase : Phrase α}

/-- All that good tokens make up has the property. -/
def Yields (good : Token → Prop) (phrase : Phrase α) (property : α → Prop) : Prop :=
  ∀ tokens value, (∀ token ∈ tokens, good token) → phrase tokens value → property value

theorem divides_sort (good : Token → Prop) : Divides fun tokens => ∀ token ∈ tokens, good token where
  left all := (List.forall_mem_append.mp all).1
  right all := (List.forall_mem_append.mp all).2

namespace Yields

theorem nothing : Yields good (Phrase.nothing : Phrase α) property :=
  fun _ _ _ impossible => impossible.elim

theorem mono {weaker : α → Prop} (yields : Yields good phrase property)
    (implies : ∀ value, property value → weaker value) : Yields good phrase weaker :=
  fun tokens value all there => implies value (yields tokens value all there)

theorem many (yields : Yields good phrase property) :
    Yields good (Many phrase) fun values => ∀ value ∈ values, property value :=
  YieldsIn.many (divides_sort good) yields

theorem inParens (yields : Yields good phrase property) : Yields good (InParens phrase) property :=
  YieldsIn.inParens (divides_sort good) yields

theorem after {kind : Token.Kind} (yields : Yields good phrase property) :
    Yields good (After kind phrase) property := by
  intro tokens value all there
  cases there with
  | mk _ there => exact yields _ _ (List.forall_mem_cons.mp all).2 there

/-- What is true of the first phrase stays true with each link. -/
theorem chain {link : Phrase β} {join : α → β → α} {linked : β → Prop} (first : Yields good phrase property)
    (links : Yields good link linked)
    (joins : ∀ left right, property left → linked right → property (join left right)) :
    Yields good (Chain phrase link join) property := by
  intro tokens value all there
  induction there with
  | single only => exact first _ _ all only
  | more _ next ih =>
    rw [List.forall_mem_append] at all
    exact joins _ _ (ih all.1) (links _ _ all.2 next)

theorem operations {among : Operator → Prop} {operand : Phrase Expr} {first whole : Expr → Prop}
    (yields : Yields good operand first) (single : ∀ value, first value → whole value)
    (joins : ∀ left op right, whole left → first right → whole (.binary left op right)) :
    Yields good (Operations among operand) whole := by
  have links : Yields good (Operation among operand) fun next => first next.2 := by
    intro tokens next all there
    cases there with
    | mk _ _ right => exact yields _ _ (List.forall_mem_cons.mp all).2 right
  exact (yields.mono single).chain links fun left next before after => joins left next.1 next.2 before after

theorem junction {op : Connective} {kind : Token.Kind} {item : Phrase Condition} {first whole : Condition → Prop}
    (yields : Yields good item first) (single : ∀ value, first value → whole value)
    (joins : ∀ left op right, whole left → first right → whole (.junction left op right)) :
    Yields good (Junction op kind item) whole :=
  (yields.mono single).chain yields.after fun left right before after => joins left op right before after

end Yields

/-- The parts of a description of the depth, each made up of good tokens, are as demanded. The size of one bit stands
for a size that is not written. -/
structure Supplies (good : Token → Prop) (depth : Nat) (demands : Demands) : Prop where
  name : ∀ token, good token → token.kind = .identifier → demands.name ⟨token.content, token.span⟩
  path : Yields good Dotted demands.path
  expr : Yields good (Arithmetic depth) demands.expr
  oneBit : ∀ span, demands.expr (.int 1 span)
  condition : ∀ inner ≤ depth, Yields good (Logic inner) demands.condition
  type : ∀ whole, Yields good Primary fun type => Completed type whole → demands.type whole

variable {depth : Nat} {demands : Demands}

theorem Supplies.inStretches (supplies : Supplies good depth demands) :
    SuppliesIn (fun tokens => ∀ token ∈ tokens, good token) depth demands where
  divides := divides_sort good
  name token head := supplies.name token (List.forall_mem_singleton.mp head)
  path := supplies.path
  expr := supplies.expr
  condition := supplies.condition
  bare _ _ head word spelled sized := supplies.type _ _ _ head (.bare word spelled) (.fixedSize sized)
  zeroByte _ head word spelled := supplies.type _ _ _ head (.bare word spelled) .zeroByte
  delimited _ _ _ _ head word spelled takes inside ending :=
    supplies.type _ _ _ (List.forall_mem_cons.mpr ⟨List.forall_mem_singleton.mp head, inside⟩)
      (.delimited word spelled takes ending) (.written rfl)

/-- All declarations of a description meet demands that its parts do. -/
theorem yields_description (supplies : Supplies good depth demands) :
    Yields good (Description depth) fun declared => ∀ declaration ∈ declared, declaration.Meets demands := by
  intro tokens declared all there declaration present
  have meets := yieldsIn_description supplies.inStretches _ _ all there declaration present
  exact meets.meets supplies.oneBit

end RecordLayout.Grammar
