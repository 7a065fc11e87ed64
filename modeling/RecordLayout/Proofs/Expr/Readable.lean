import RecordLayout.Proofs.Grammar.Yields
import RecordLayout.Proofs.Token.Names

/-! Expressions as a description can hold them: before an operand stands only what may stand there, and
references are made of names. All expressions that well-named tokens make up are of this form. -/

namespace RecordLayout

open Grammar Phrase RecordLayout.Parser

namespace Expr

def Readable : Expr → Prop
  | int _ _ | float _ _ => True
  | ref path => path.segments ≠ [] ∧ ∀ segment ∈ path.segments, Token.IsName segment
  | unary op operand _ => op.IsPrefix ∧ operand.Readable
  | binary left _ right => left.Readable ∧ right.Readable

end Expr

namespace Condition

def Readable : Condition → Prop
  | relation left _ right => left.Readable ∧ right.Readable
  | junction left _ right => left.Readable ∧ right.Readable

end Condition

/-- If the token is a name, it is spelled as one. -/
def Token.WellNamed (token : Token) : Prop :=
  token.kind = .identifier → Token.IsName token.content

/-- The names among the tokens are spelled as names. -/
def WellNamed (tokens : List Token) : Prop :=
  ∀ token ∈ tokens, token.WellNamed

theorem yields_dotted : Yields Token.WellNamed Dotted fun path =>
    path.segments ≠ [] ∧ ∀ segment ∈ path.segments, Token.IsName segment := by
  intro tokens path named dotted
  cases dotted with
  | @mk first back others start more =>
    have segment : Yields Token.WellNamed (fun tokens segment => tokens = [segment] ∧ segment.kind = .identifier)
        fun segment => Token.IsName segment.content := by
      rintro _ segment named ⟨rfl, identifier⟩
      exact named segment (List.mem_singleton_self segment) identifier
    rw [List.forall_mem_cons] at named
    have rest := segment.after.many _ _ named.2 more
    refine ⟨by simp, ?_⟩
    rw [List.map_cons, List.forall_mem_cons, List.forall_mem_map]
    exact ⟨named.1 start, rest⟩

theorem readable_factorOf {signed grouped : Phrase Expr} (signedMakes : Yields Token.WellNamed signed Expr.Readable)
    (groupedMakes : Yields Token.WellNamed grouped Expr.Readable) :
    Yields Token.WellNamed (FactorOf signed grouped) Expr.Readable := by
  intro tokens value named there
  cases there with
  | int | float => trivial
  | ref dotted => exact yields_dotted _ _ named dotted
  | signed there => exact signedMakes _ _ named there
  | grouped there => exact groupedMakes _ _ named there

theorem readable_sum {factor : Phrase Expr} (makes : Yields Token.WellNamed factor Expr.Readable) :
    Yields Token.WellNamed (Sum factor) Expr.Readable :=
  .operations (.operations makes (fun _ => id) fun _ _ _ => And.intro) (fun _ => id) fun _ _ _ => And.intro

theorem readable_factor (depth : Nat) : Yields Token.WellNamed (Factor depth) Expr.Readable := by
  induction depth with
  | zero => exact readable_factorOf .nothing .nothing
  | succ depth ih =>
    have signed : Yields Token.WellNamed (Signed (Factor depth)) Expr.Readable := by
      intro tokens value named there
      cases there with
      | mk allowed _ before => exact ⟨allowed, ih _ _ (List.forall_mem_cons.mp named).2 before⟩
    exact readable_factorOf signed (readable_sum ih).inParens

theorem readable_arithmetic (depth : Nat) : Yields Token.WellNamed (Arithmetic depth) Expr.Readable :=
  readable_sum (readable_factor depth)

theorem readable_logic (depth : Nat) : Yields Token.WellNamed (Logic depth) Condition.Readable := by
  induction depth with
  | zero => exact .nothing
  | succ depth ih =>
    have relation : Yields Token.WellNamed (RelationOf (Arithmetic depth) (Logic depth)) Condition.Readable := by
      intro tokens value named there
      cases there with
      | compared leftSide _ rightSide =>
        rw [List.forall_mem_append, List.forall_mem_cons] at named
        exact ⟨readable_arithmetic depth _ _ named.1 leftSide, readable_arithmetic depth _ _ named.2.2 rightSide⟩
      | grouped inside => exact ih.inParens _ _ named inside
    exact .junction (.junction relation (fun _ => id) fun _ _ _ => And.intro) (fun _ => id) fun _ _ _ => And.intro

end RecordLayout
