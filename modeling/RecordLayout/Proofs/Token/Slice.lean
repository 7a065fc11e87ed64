import RecordLayout.Proofs.Token.Layout
import RecordLayout.Proofs.Token.Stretch

/-! Slices of a source. A scan of what some tokens cover, from the first of them to the last, finds the same tokens
again: what stands before a token matters for a minus alone, and what stands behind one is only looked at to see that
the token is over. Where the tokens next to each other are those between comments, the comments inside are found too. -/

namespace RecordLayout

namespace Token

/-- Apart from a minus, which may be a sign, a token is the same whether or not an operand touches it. -/
theorem front_untouched {touching : Bool} {c : Char} {rest : List Char} {kind : Kind} {extent : Nat}
    (found : front touching c rest = .token kind extent) (other : kind ≠ .minus) :
    front false c rest = .token kind extent := by
  apply front_eq_token.mpr
  cases front_eq_token.mp found with
  | numeral starts read => exact .numeral (starts.imp_right fun sign => ⟨sign.1, sign.2.1, rfl⟩) read
  | word letter read => exact .word letter read
  | quoted opens read => exact .quoted opens read
  | comment begins line => exact .comment begins line
  | operator unsigned single read =>
    refine .operator (fun sign => ?_) single read
    obtain ⟨rfl, next, _⟩ := sign
    cases rest with
    | nil => cases next
    | cons d rest =>
      cases read
      exact other rfl

theorem scanFrom_untouched {here : Position} {touching : Bool} {found : List Token} {c : Char} {rest : List Char}
    {kind : Kind} {extent : Nat} (shape : front touching c rest = .token kind extent) (other : kind ≠ .minus) :
    scanFrom here touching found (c :: rest) = scanFrom here false found (c :: rest) := by
  rw [scanFrom_token shape, scanFrom_token (front_untouched shape other)]

/-- What a scan found comes first in what it comes to, and one of the rest is the next token or comes behind it. -/
theorem next_of_scanFrom {here : Position} {touching : Bool} {found kept rest tokens : List Token} {token one : Token}
    {chars : List Char} (scanned : scanFrom here touching (token :: found) chars = .ok tokens)
    (parts : tokens = found.reverse ++ (kept ++ one :: rest)) :
    (kept = [] ∧ one = token) ∨ ∃ others, kept = token :: others ∧
      tokens = (token :: found).reverse ++ (others ++ one :: rest) := by
  obtain ⟨more, whole, _⟩ := covers_of_scanFrom scanned
  rw [List.reverse_cons, List.append_assoc, parts] at whole
  have behind := List.append_cancel_left whole
  cases kept with
  | nil => exact .inl ⟨rfl, (List.cons.inj behind).1⟩
  | cons first others =>
    obtain rfl := (List.cons.inj behind).1
    exact .inr ⟨others, rfl, by simp [parts]⟩

theorem ends_of_ok {here : Position} {found kept rest tokens : List Token} {one : Token}
    (scanned : .ok (⟨.endOfInput, none, .empty here⟩ :: found).reverse = (.ok tokens : Except CompileError _))
    (parts : tokens = found.reverse ++ (kept ++ one :: rest)) : one.kind = .endOfInput := by
  cases scanned
  rw [List.reverse_cons] at parts
  have only := List.append_cancel_left parts
  cases kept with
  | nil => exact (List.cons.inj only).1 ▸ rfl
  | cons => simp at only

/-- A scan comes to the place where a token begins. -/
theorem reach_of_scanFrom {here : Position} {touching : Bool} {found tokens : List Token} {chars : List Char}
    (scanned : scanFrom here touching found chars = .ok tokens) {first : Token} (inside : first.kind ≠ .endOfInput)
    {after : List Token} : ∀ kept, tokens = found.reverse ++ (kept ++ first :: after) →
      ∃ gap c more touched extent, chars = gap ++ c :: more ∧ first.span.start = here.past gap ∧
        front touched c more = .token first.kind extent ∧
        scanFrom (here.past gap) touched (kept.reverse ++ found) (c :: more) = .ok tokens := by
  -- By induction on the scan. A step finds one token, so how many there are before the one looked for is general.
  fun_induction scanFrom here touching found chars with
  | case1 here touching found =>
    intro kept parts
    exact absurd (ends_of_ok scanned parts) inside
  | case2 here touching found c rest shape ih =>
    intro kept parts
    obtain ⟨gap, d, more, touched, extent, rfl, start, token, again⟩ := ih scanned kept parts
    exact ⟨c :: gap, d, more, touched, extent, rfl, start, token, again⟩
  | case3 here touching found c rest kind extent shape covered stop ih =>
    intro kept parts
    have whole : covered ++ rest.drop extent = c :: rest := by simp [covered]
    rcases next_of_scanFrom scanned parts with ⟨rfl, rfl⟩ | ⟨others, rfl, behind⟩
    · refine ⟨[], c, rest, touching, extent, rfl, rfl, shape, ?_⟩
      rw [Position.past_nil, List.reverse_nil, List.nil_append, scanFrom_token shape]
      exact scanned
    · obtain ⟨gap, d, more, touched, length, same, start, token, again⟩ := ih scanned others behind
      refine ⟨covered ++ gap, d, more, touched, length, ?_, ?_, token, ?_⟩
      · rw [← whole, same, List.append_assoc]
      · rw [start, Position.past_append]
      · rw [Position.past_append, List.reverse_cons, List.append_assoc]
        exact again
  | case4 => cases scanned

/-- A scan of no more than is covered up to the end of a token finds the tokens up to that one. -/
theorem cut_of_scanFrom {here : Position} {touching : Bool} {found tokens : List Token} {chars : List Char}
    (scanned : scanFrom here touching found chars = .ok tokens) {last : Token} (inside : last.kind ≠ .endOfInput)
    {after : List Token} : ∀ kept, tokens = found.reverse ++ (kept ++ last :: after) →
      ∃ covers beyond, chars = covers ++ beyond ∧ last.span.stop = here.past covers ∧ ∀ there others, ∃ again,
        scanFrom there touching others covers =
          .ok (others.reverse ++ (again ++ [⟨.endOfInput, none, .empty (there.past covers)⟩])) ∧
        again.map said = (kept ++ [last]).map said := by
  fun_induction scanFrom here touching found chars with
  | case1 here touching found =>
    intro kept parts
    exact absurd (ends_of_ok scanned parts) inside
  | case2 here touching found c rest shape ih =>
    intro kept parts
    obtain ⟨covered, beyond, rfl, stop, rescans⟩ := ih scanned kept parts
    refine ⟨c :: covered, beyond, rfl, stop, fun there others => ?_⟩
    obtain ⟨again, rescanned, same⟩ := rescans (there.step c) others
    refine ⟨again, ?_, same⟩
    rw [scanFrom_space (front_of_isSpace (isSpace_of_front shape))]
    exact rescanned
  | case3 here touching found c rest kind extent shape covered stop ih =>
    intro kept parts
    have whole : covered ++ rest.drop extent = c :: rest := by simp [covered]
    have long : (rest.take extent).length = extent := by simpa using front_extent_le shape
    rcases next_of_scanFrom scanned parts with ⟨rfl, rfl⟩ | ⟨others, rfl, behind⟩
    · refine ⟨covered, rest.drop extent, whole.symm, rfl, fun there others => ?_⟩
      have alone := front_breaksOff shape .nil
      rw [List.append_nil] at alone
      refine ⟨[⟨kind, textOf kind covered, ⟨there, there.past covered⟩⟩], ?_, rfl⟩
      rw [scanFrom_token alone]
      simp [scanFrom, covered, List.take_take]
    · obtain ⟨covers, beyond, same, ends, rescans⟩ := ih scanned others behind
      refine ⟨covered ++ covers, beyond, by rw [← whole, same, List.append_assoc], ?_, fun there found => ?_⟩
      · rw [ends, Position.past_append]
      · -- What is left behind the token goes on as it did, or is over.
        have further : BreaksOff (rest.drop extent) covers := fun d first => .inr <| by
          rw [same, List.head?_append, Option.mem_def.mp first, Option.some_or]
        have before := front_breaksOff shape further
        obtain ⟨again, rescanned, said⟩ := rescans (there.past covered)
          (⟨kind, textOf kind covered, ⟨there, there.past covered⟩⟩ :: found)
        refine ⟨⟨kind, textOf kind covered, ⟨there, there.past covered⟩⟩ :: again, ?_, ?_⟩
        · rw [List.cons_append, scanFrom_token before]
          simpa [List.take_append_of_le_length, List.drop_append, long, covered, Position.past_append]
            using rescanned
        · rw [List.map_cons, said]
          rfl
  | case4 => cases scanned

/-- What tokens say decides which of them carry meaning. -/
theorem said_meaningful (tokens : List Token) :
    (meaningful tokens).map said =
      ((tokens.map said).takeWhile (·.1 ≠ .endOfInput)).filter (·.1 ≠ .comment) := by
  rw [List.takeWhile_map, List.filter_map]
  rfl

/-- What is next to each other between comments is part of what there is with the comments. -/
theorem exists_kept {all : List Token} {first : Token} {before more behind : List Token}
    (between : all.filter (·.kind ≠ .comment) = before ++ (first :: more ++ behind)) :
    ∃ front kept last back after, all = front ++ first :: back ∧ first :: back = kept ++ last :: after ∧
      (kept ++ [last]).filter (·.kind ≠ .comment) = first :: more ∧ last = more.getLastD first := by
  obtain ⟨ahead, rest, rfl, _, kept⟩ := List.filter_eq_append_iff.mp between
  rw [List.cons_append] at kept
  obtain ⟨comments, back, rfl, _, meant, others⟩ := List.filter_eq_cons_iff.mp kept
  rw [← List.append_assoc]
  cases more using List.reverseRecOn with
  | nil => exact ⟨_, [], first, back, back, rfl, rfl, by simpa using meant, rfl⟩
  | append_singleton more last =>
    rw [List.append_assoc] at others
    obtain ⟨inner, outer, rfl, inside, others⟩ := List.filter_eq_append_iff.mp others
    obtain ⟨further, after, rfl, none, solid, _⟩ := List.filter_eq_cons_iff.mp others
    refine ⟨_, first :: (inner ++ further), last, _, after, rfl, by simp, ?_, by simp⟩
    have gone : further.filter (·.kind ≠ .comment) = [] := List.filter_eq_nil_iff.mpr none
    have ends : [last].filter (·.kind ≠ .comment) = [last] := by simpa using solid
    rw [List.cons_append, List.filter_cons, if_pos meant, List.filter_append, List.filter_append, inside, gone, ends,
      List.append_nil]

theorem meaningful_congr {again tokens : List Token} (same : again.map said = tokens.map said) :
    (meaningful again).map said = (meaningful tokens).map said := by
  rw [said_meaningful, said_meaningful, same]

end Token

/-- Apart from comments, what the span covers is scanned to tokens that say what is wanted. -/
def Span.Scans (span : Span) (wanted : List (Token.Kind × Option String)) : Prop :=
  ∃ text, span.text? = some text ∧ ∀ id, ∃ tokens, tokenize ⟨id, text⟩ = .ok tokens ∧
    (Token.meaningful tokens).map Token.said = wanted

variable {source : Source} {tokens : List Token}

/-- From the start of one token to the end of that one or of a later one. -/
theorem said_of_tokenize_slice (scanned : tokenize source = .ok tokens) {first last : Token}
    {before back kept after : List Token} (parts : tokens = before ++ first :: back)
    (upTo : first :: back = kept ++ last :: after) (starts : first.kind ≠ .endOfInput)
    (stops : last.kind ≠ .endOfInput) (unsigned : first.kind ≠ .minus) :
    ∃ text, (first.span.through last.span).text? = some text ∧ ∀ id, ∃ again, tokenize ⟨id, text⟩ = .ok again ∧
      again.map Token.said = (kept ++ [last]).map Token.said ++ [(.endOfInput, none)] := by
  obtain ⟨gap, c, more, touched, extent, whole, start, shape, reached⟩ :=
    Token.reach_of_scanFrom scanned starts before parts
  rw [List.append_nil, Token.scanFrom_untouched shape unsigned] at reached
  have rest : tokens = before.reverse.reverse ++ (kept ++ last :: after) := by
    rw [List.reverse_reverse, ← upTo, parts]
  obtain ⟨covers, beyond, same, stop, rescans⟩ := Token.cut_of_scanFrom reached stops kept rest
  refine ⟨String.ofList covers, ?_, fun id => ?_⟩
  · have pieces : source.text.toList = gap ++ (covers ++ beyond) := by rw [whole, same]
    rw [Span.through, start, stop]
    exact Span.text?_past pieces
  · obtain ⟨again, rescanned, said⟩ := rescans (.start ⟨id, String.ofList covers⟩) []
    have alone : tokenize ⟨id, String.ofList covers⟩ = _ :=
      (congrArg (Token.scanFrom _ false []) String.toList_ofList).trans rescanned
    exact ⟨_, alone, by simp [said, Token.said]⟩

/-- Tokens that are next to each other between comments are found again between the comments of what they cover. -/
theorem scans_of_stretch (scanned : tokenize source = .ok tokens) {first : Token} {more : List Token}
    (stretch : first :: more <:+: Token.meaningful tokens) (unsigned : first.kind ≠ .minus) :
    (first.span.through (more.getLastD first).span).Scans ((first :: more).map Token.said) := by
  have inner := Token.inner_of_meaningful scanned
  obtain ⟨before, behind, between⟩ := stretch
  have starts : first.kind ≠ .endOfInput := (inner first (by simp [← between])).other
  have stops : (more.getLastD first).kind ≠ .endOfInput := by
    refine (inner _ ?_).other
    rw [← between]
    exact List.mem_append_left _ (List.mem_append_right _ List.getLastD_mem_cons)
  obtain ⟨front, last, rfl, ends, inside⟩ := ends_of_tokenize scanned
  rw [Declaration.meaningful_append_end inside ends, List.append_assoc] at between
  obtain ⟨ahead, kept, _, back, after, rfl, upTo, same, rfl⟩ := Token.exists_kept between.symm
  have parts : ahead ++ first :: back ++ [last] = ahead ++ first :: (back ++ [last]) := by simp
  have further : first :: (back ++ [last]) = kept ++ (more.getLastD first) :: (after ++ [last]) := by
    rw [← List.cons_append, upTo]
    simp
  obtain ⟨text, covered, rescans⟩ := said_of_tokenize_slice scanned parts further starts stops unsigned
  refine ⟨text, covered, fun id => ?_⟩
  obtain ⟨again, rescanned, said⟩ := rescans id
  have inner : ∀ token ∈ kept ++ [more.getLastD first], token.kind ≠ .endOfInput := by
    intro token member
    apply inside
    rw [upTo]
    simp only [List.mem_append, List.mem_cons] at member ⊢
    tauto
  have stop : (⟨.endOfInput, none, last.span⟩ : Token).kind = .endOfInput := rfl
  have meant := Declaration.meaningful_append_end inner stop
  refine ⟨again, rescanned, ?_⟩
  rw [← same, ← meant]
  exact Token.meaningful_congr (by simp [said, Token.said])

end RecordLayout
