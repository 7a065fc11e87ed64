import RecordLayout.Condition
import RecordLayout.Expr.Constant

/-! Expressions up to their places, and with a minus before a literal made part of it. Neither changes
what value an expression has. -/

namespace RecordLayout

/-- No place but the empty one at the start of nothing. -/
def Span.nowhere : Span :=
  .empty (.start ⟨"", ""⟩)

namespace Expr

/-- The expression without any place. -/
def forgetSpans : Expr → Expr
  | int value _ => .int value .nowhere
  | float value _ => .float value .nowhere
  | ref path => .ref { path with span := .nowhere }
  | unary op operand _ => .unary op operand.forgetSpans .nowhere
  | binary left op right => .binary left.forgetSpans op right.forgetSpans

/-- The expression with the sign of every literal that a minus stands before in the literal. -/
def foldSigns : Expr → Expr
  | unary .sub (.int value span) outer =>
    if 0 ≤ value.toInt then .int (-value) outer else .unary .sub (.int value span) outer
  | unary op operand span => .unary op operand.foldSigns span
  | binary left op right => .binary left.foldSigns op right.foldSigns
  | literal => literal

def FloatFree : Expr → Prop
  | int _ _ | ref _ => True
  | float _ _ => False
  | unary _ operand _ => operand.FloatFree
  | binary left _ right => left.FloatFree ∧ right.FloatFree

/-- Neither places nor signs of literals matter for the value. -/
theorem constant?_of_forgetSpans {first second : Expr} (same : first.forgetSpans = second.forgetSpans) :
    first.constant? = second.constant? := by
  induction first generalizing second with
  | int | float | ref => cases second <;> simp_all [forgetSpans, constant?]
  | unary op operand span ih =>
    cases second <;> simp only [forgetSpans, reduceCtorEq, unary.injEq] at same
    obtain ⟨rfl, inner, _⟩ := same
    simp only [constant?, ih inner]
  | binary left op right leftIh rightIh =>
    cases second <;> simp only [forgetSpans, reduceCtorEq, binary.injEq] at same
    obtain ⟨leftSame, rfl, rightSame⟩ := same
    simp only [constant?, leftIh leftSame, rightIh rightSame]

theorem constant?_foldSigns (expr : Expr) : expr.foldSigns.constant? = expr.constant? := by
  fun_induction foldSigns expr with
  | case1 => rfl
  | case2 => rfl
  | case3 op operand span _ ih => simp only [constant?, ih]
  | case4 left op right leftIh rightIh => simp only [constant?, leftIh, rightIh]
  | case5 => rfl

end Expr

namespace Condition

def forgetSpans : Condition → Condition
  | relation left op right => .relation left.forgetSpans op right.forgetSpans
  | junction left op right => .junction left.forgetSpans op right.forgetSpans

def foldSigns : Condition → Condition
  | relation left op right => .relation left.foldSigns op right.foldSigns
  | junction left op right => .junction left.foldSigns op right.foldSigns

def FloatFree : Condition → Prop
  | relation left _ right => left.FloatFree ∧ right.FloatFree
  | junction left _ right => left.FloatFree ∧ right.FloatFree

end Condition

end RecordLayout
