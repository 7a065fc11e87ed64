import Mathlib.Data.List.Forall2
import RecordLayout.Declaration
import RecordLayout.Proofs.Expr.Exact

/-! Sizes of bitfields. A bitfield without a size of its own has the sum of its members' sizes. The sum has a value just
when every size has one, since addition never fails, and if the sizes are words, the value is their sum wrapped
around. -/

namespace RecordLayout

namespace Expr

variable {left right : Expr} {first second : Int64}

/-- Addition has a result for any two numbers, whole or not. -/
theorem constant?_add_eq_none :
    (Expr.binary left .add right).constant? = none ↔ left.constant? = none ∨ right.constant? = none := by
  rw [constant?]
  cases left.constant? with
  | none => simp
  | some one =>
    cases right.constant? with
    | none => simp
    | some other => cases one <;> cases other <;> simp [Operator.onConstants?, Operator.onWords?, Operator.onFloats?]

theorem constant?_add (leftFolded : left.constant? = some (.int first))
    (rightFolded : right.constant? = some (.int second)) :
    (Expr.binary left .add right).constant? = some (.int (first + second)) := by
  rw [constant?, leftFolded, rightFolded]
  rfl

variable {none : Expr} {summands : List Expr} {words : List Int64}

theorem constant?_sumOr_eq_none (folds : none.constant? ≠ .none) :
    (sumOr none summands).constant? = .none ↔ ∃ summand ∈ summands, summand.constant? = .none := by
  fun_induction sumOr none summands with
  | case1 => simpa using folds
  | case2 summand => simp
  | case3 summand rest _ ih => rw [constant?_add_eq_none, ih, List.exists_mem_cons_iff]

/-- The sum that is wrapped around at each addition is the one that is wrapped around at last. -/
theorem constant?_sumOr (zero : none.constant? = some (.int 0))
    (folded : List.Forall₂ (fun summand word => summand.constant? = some (.int word)) summands words) :
    (sumOr none summands).constant? = some (.int (.ofInt (words.map Int64.toInt).sum)) := by
  fun_induction sumOr none summands generalizing words with
  | case1 =>
    cases folded
    exact zero
  | case2 summand =>
    obtain _ | ⟨value, ⟨⟩⟩ := folded
    simpa using value
  | case3 summand rest _ ih =>
    obtain _ | ⟨value, others⟩ := folded
    rw [constant?_add value (ih others), List.map_cons, List.sum_cons, Int64.ofInt_add, Int64.ofInt_toInt]

/-- The last summand is innermost. -/
theorem sumOr_concat (none last : Expr) (front : List Expr) :
    sumOr none (front ++ [last]) = front.foldr (fun summand rest => .binary summand .add rest) last := by
  induction front with
  | nil => rfl
  | cons summand front ih =>
    rw [List.cons_append, sumOr, ih, List.foldr_cons]
    exact fun empty => List.append_ne_nil_of_right_ne_nil front (List.cons_ne_nil last []) empty

end Expr

namespace BitfieldDef

/-- Sizes of bitfields: when there is a value, what it is, what the sum looks like, and when it counts. -/
theorem constant?_derivedBits (bitfield : BitfieldDef) :
    (bitfield.derivedBits.constant? = none ↔ ∃ member ∈ bitfield.members, member.size.constant? = none) ∧
    (∀ words : List Int64,
      List.Forall₂ (fun member word => member.size.constant? = some (.int word)) bitfield.members words →
        ∃ total, bitfield.derivedBits.constant? = some (.int total) ∧
          ∀ other : Int64, other.toInt ≡ (words.map Int64.toInt).sum [ZMOD 2 ^ 64] ↔ other = total) ∧
    (bitfield.members = [] → bitfield.derivedBits = .int 0 bitfield.name.span) ∧
    (∀ front last, bitfield.members = front ++ [last] → bitfield.derivedBits =
      front.foldr (fun member rest => .binary member.size .add rest) last.size) ∧
    ∀ sum, bitfield.size = .bits sum ↔ bitfield.byteSize = none ∧ sum = bitfield.derivedBits := by
  refine ⟨?_, ?_, ?_, ?_, ?_⟩
  · have folds : (Expr.int 0 bitfield.name.span).constant? ≠ none := Option.some_ne_none _
    rw [derivedBits, Expr.constant?_sumOr_eq_none folds]
    simp
  · intro words folded
    refine ⟨_, Expr.constant?_sumOr rfl (List.forall₂_map_left_iff.mpr folded), fun _ => eq_ofInt_iff.symm⟩
  · intro empty
    rw [derivedBits, empty]
    rfl
  · intro front last members
    rw [derivedBits, members, List.map_append, List.map_singleton, Expr.sumOr_concat, List.foldr_map]
  · intro sum
    cases written : bitfield.byteSize with
    | none => simp [size, written, eq_comm]
    | some amount => simp [size, written]

end BitfieldDef

end RecordLayout
