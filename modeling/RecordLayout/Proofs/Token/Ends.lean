import RecordLayout.Proofs.Token.Names

/-! Where a source ends, and only there, is a token for its end. The text of any token is what its kind
makes of the characters it covers. -/

namespace RecordLayout

namespace Token

/-- The text is what the kind makes of some characters. -/
def Written (token : Token) : Prop :=
  ∃ covered, token.text = textOf token.kind covered

theorem front_ne_end {touching : Bool} {c : Char} {rest : List Char} {kind : Kind} {extent : Nat}
    (found : front touching c rest = .token kind extent) : kind ≠ .endOfInput := by
  rintro rfl
  rcases kind_of_front found with ⟨_, word⟩ | literal | symbol
  · simp only [Token.word, Front.token.injEq, wordKind] at word
    split at word
    · cases word.1
    · split at word <;> cases word.1
  · simp at literal
  · cases symbol

/-- However far the scan is, what it goes on to find before its end is no end. -/
theorem ends_of_scanFrom {here : Position} {touching : Bool} {found tokens : List Token} {chars : List Char}
    (scanned : scanFrom here touching found chars = .ok tokens) :
    ∃ front last, tokens = found.reverse ++ (front ++ [last]) ∧ last.kind = .endOfInput ∧ last.Written ∧
      ∀ token ∈ front, token.kind ≠ .endOfInput ∧ token.Written := by
  fun_induction scanFrom here touching found chars with
  | case1 here touching found =>
    cases scanned
    exact ⟨[], ⟨.endOfInput, none, .empty here⟩, by simp, rfl, ⟨[], rfl⟩, by simp⟩
  | case2 here touching found c rest shape ih => exact ih scanned
  | case3 here touching found c rest kind extent shape covered stop ih =>
    obtain ⟨front, last, rfl, ends, written, inside⟩ := ih scanned
    refine ⟨⟨kind, textOf kind covered, ⟨here, stop⟩⟩ :: front, last, by simp, ends, written, ?_⟩
    intro token member
    rcases List.mem_cons.mp member with rfl | member
    · exact ⟨front_ne_end shape, covered, rfl⟩
    · exact inside token member
  | case4 => cases scanned

/-- How a message speaks of a closing parenthesis. -/
theorem Written.describe_rightParen {token : Token} (written : token.Written) (kind : token.kind = .rightParen) :
    token.describe = "')'" := by
  obtain ⟨covered, text⟩ := written
  rw [kind] at text
  rw [describe, text, kind]
  rfl

end Token

/-- The last token of a source is the end of input, and no other token is. -/
theorem ends_of_tokenize {source : Source} {tokens : List Token} (scanned : tokenize source = .ok tokens) :
    ∃ front last, tokens = front ++ [last] ∧ last.kind = .endOfInput ∧
      ∀ token ∈ front, token.kind ≠ .endOfInput := by
  obtain ⟨front, last, same, ends, _, inside⟩ := Token.ends_of_scanFrom scanned
  exact ⟨front, last, same, ends, fun token member => (inside token member).1⟩

theorem written_of_tokenize {source : Source} {tokens : List Token} (scanned : tokenize source = .ok tokens) :
    ∀ token ∈ tokens, token.Written := by
  obtain ⟨front, last, same, _, written, inside⟩ := Token.ends_of_scanFrom scanned
  intro token member
  rw [same] at member
  rcases List.mem_append.mp member with found | member
  · cases found
  · rcases List.mem_append.mp member with member | only
    · exact (inside token member).2
    · exact List.mem_singleton.mp only ▸ written

end RecordLayout
