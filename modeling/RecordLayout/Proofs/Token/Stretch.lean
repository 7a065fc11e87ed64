import RecordLayout.Proofs.Cursor.Comments
import RecordLayout.Proofs.Token.Tiling

/-! Stretches of a source. Between comments each token comes after the one before it. -/

namespace RecordLayout

namespace Token

variable {source : Source} {tokens : List Token}

theorem inner_of_meaningful (scanned : tokenize source = .ok tokens) : ∀ token ∈ meaningful tokens, token.Inner := by
  have inner := @Covers.inner source [] _ _ (covers_of_tokenize scanned) rfl
  obtain ⟨front, last, rfl, ends, inside⟩ := ends_of_tokenize scanned
  rw [List.dropLast_concat] at inner
  rw [Declaration.meaningful_append_end inside ends]
  exact fun token member => inner token (List.mem_filter.mp member).1

theorem ordered_meaningful (scanned : tokenize source = .ok tokens) :
    (meaningful tokens).Pairwise fun left right => left.span.stop.index ≤ right.span.start.index :=
  (covers_of_tokenize scanned).ordered.sublist (meaningful_sublist tokens)

/-- No two tokens begin at one place. -/
theorem starts_meaningful (scanned : tokenize source = .ok tokens) :
    (meaningful tokens).Pairwise fun left right => left.span.start.index < right.span.start.index := by
  refine (ordered_meaningful scanned).imp_of_mem fun {left right} member _ later => ?_
  exact Nat.lt_of_lt_of_le (inner_of_meaningful scanned left member).nonempty later

end Token

end RecordLayout
