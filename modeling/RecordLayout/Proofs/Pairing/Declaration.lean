import RecordLayout.Proofs.Grammar.Declaration
import RecordLayout.Proofs.Pairing.Member

/-! Declarations side by side. No failure is dropped in them. What they need of the parsers inside lines is
that these match, so that they can also be compared where all lines are whole. -/

namespace RecordLayout

open Grammar RecordLayout.Parser

namespace Parser

/-- A case of a selection among groups, with the parser of its group. -/
def groupCaseOf (room : Nat) (group : Parser (List Member)) : Parser (Case (List Member)) := do
  let value ← caseValue room
  if ← nextIsKind .leftBrace then
    return ⟨value, ← group⟩
  else
    failAt value.span .mixedCases

end Parser

namespace Pairing

variable {pair : Pairing} {room other : Nat}

/-- What the comparison of declarations takes. -/
structure Block (pair : Pairing) (room other : Nat) : Prop where
  takes : ∀ token, pair.takes token
  expr : pair.Follows (expr room) (expr other)
  info : ∀ inherited, pair.Follows (memberInfo room inherited) (memberInfo other inherited)
  order : pair.Follows (structOrder room) (structOrder other)
  group : ∀ {first second}, pair.Follows first second → pair.Follows (groupCaseOf room first) (groupCaseOf other second)

theorem structOrder_follows (inline : pair.Inline) (rooms : pair.rooms room other) :
    pair.Follows (structOrder room) (structOrder other) := by
  refine (accept?_follows (takes_byteOrder inline)).bind fun found => ?_
  cases found with
  | some order => exact .pure
  | none =>
    apply either_follows _ .pure
    intro token front back together
    rcases orderChoice?_match inline rooms together with matched | ⟨short, given, _⟩
    · apply matched.bind
      intro choice
      cases choice with
      | some choice => exact .pure
      | none => exact fail_follows fun short => inline.cut short _ _ .unordered
    · rw [bind_of_ok given]
      exact match_departed (inline.cut short _ _ .unordered)

theorem caseValue_follows {pair : Pairing} (takes : ∀ token : Token, token.kind = .colon → pair.takes token)
    (follows : pair.Follows (expr room) (expr other)) : pair.Follows (caseValue room) (caseValue other) :=
  follows.bind fun _ => (token_follows takes).bind fun _ => .pure

/-- Where all tokens are taken, declarations are compared as lines are. -/
theorem Inline.block (inline : pair.Inline) (rooms : pair.rooms room other) (takes : ∀ token, pair.takes token) :
    pair.Block room other where
  takes := takes
  expr := expr_follows inline rooms
  info := memberInfo_follows inline rooms
  order := structOrder_follows inline rooms
  group follows := by
    refine (caseValue_follows (fun token _ => takes token) (expr_follows inline rooms)).bind fun value => ?_
    apply either_follows
    · exact fun _ _ _ => (follows.bind fun _ => .pure).along _ _
    · exact failAt_follows fun short => inline.cut short _ _ .mixed

/-! Loops. -/

theorem atEnd_follows {last otherLast more others : Parser α} (ended : pair.Follows last otherLast)
    (follows : pair.Follows more others) :
    pair.Follows (do if ← isAtEnd then last else more) (do if ← isAtEnd then otherLast else others) :=
  .of_heads (ended.along _ _) ended.out fun _ _ _ together _ => follows.along _ _ together

theorem manyInBraces_follows {first second : Parser α} (taken : Takes first) (others : Takes second)
    (follows : pair.Follows first second) : pair.Follows (manyInBraces first) (manyInBraces second) := by
  apply many_follows (advances_unless inBraces_eq rfl taken) (advances_unless inBraces_eq rfl others)
  refine .of_heads match_ok (fun short => ⟨short, rfl⟩) fun token front others together _ => ?_
  rw [inBraces_eq, inBraces_eq]
  have head (more : List Token) : ((token :: more).isEmpty || (token :: more).head?.any (·.kind == .rightBrace)) =
      (token.kind == .rightBrace) := rfl
  by_cases closes : (token.kind == .rightBrace) = true
  · rw [if_pos ((head _).trans closes), if_pos ((head _).trans closes)]
    exact match_ok together
  · rw [if_neg (by rwa [head]), if_neg (by rwa [head])]
    exact (follows.bind fun _ => .pure).along _ _ together

namespace Block

theorem value (block : pair.Block room other) : pair.Follows (caseValue room) (caseValue other) :=
  caseValue_follows (fun token _ => block.takes token) block.expr

theorem token (block : pair.Block room other) {kind : Token.Kind} : pair.Follows (token kind) (Parser.token kind) :=
  token_follows fun token _ => block.takes token

theorem name (block : pair.Block room other) {wanted : Expectation} : pair.Follows (name wanted) (Parser.name wanted) :=
  name_follows fun token _ => block.takes token

theorem keyword (block : pair.Block room other) {word : String} : pair.Follows (keyword word) (Parser.keyword word) :=
  keyword_follows fun token _ => block.takes token

theorem inParens (block : pair.Block room other) {first second : Parser α} (inside : pair.Follows first second) :
    pair.Follows (inParens first) (Parser.inParens second) :=
  inParens_follows (fun token _ => block.takes token) (fun token _ => block.takes token) inside

end Block

/-! Members and selections. -/

theorem member_follows (block : pair.Block room other) (inherited : OrderRule) :
    pair.Follows (member room inherited) (member other inherited) :=
  (block.info inherited).bind fun _ => block.name.bind fun _ => block.token.bind fun _ => .pure

theorem takes_member (room : Nat) (inherited : OrderRule) : Takes (member room inherited) :=
  takes_of_reads (member_reads room inherited) begins_memberLine

theorem memberGroup_follows (block : pair.Block room other) (inherited : OrderRule) :
    pair.Follows (memberGroup room inherited) (memberGroup other inherited) := by
  have members := manyInBraces_follows (takes_member room inherited) (takes_member other inherited)
    (member_follows block inherited)
  refine block.token.bind fun opening => members.bind fun found => ?_
  apply token_bind fun token _ => block.takes token
  intro closing
  split
  · exact failAt_along
  · exact Follows.pure.along

theorem caseBody_follows (block : pair.Block room other) {first second : Parser α} (body : pair.Follows first second) :
    pair.Follows (caseBody first) (caseBody second) :=
  body.bind fun _ => block.token.bind fun _ => .pure

theorem singleCase_follows (block : pair.Block room other) (inherited : OrderRule) :
    pair.Follows (singleCase room inherited) (singleCase other inherited) := by
  refine block.value.bind fun value => ?_
  apply either_follows
  · exact fun _ _ _ => failAt_along _ _
  · exact (caseBody_follows block (block.info inherited)).bind fun _ => .pure

theorem groupCase_follows (block : pair.Block room other) (inherited : OrderRule) :
    pair.Follows (groupCase room inherited) (groupCase other inherited) :=
  block.group (caseBody_follows block (memberGroup_follows block inherited))

theorem selected_follows (block : pair.Block room other) (inherited : OrderRule) :
    pair.Follows (selected room inherited) (selected other inherited) := by
  have singles := manyInBraces_follows (takes_of_reads (singleCase_reads room inherited) begins_caseLine)
    (takes_of_reads (singleCase_reads other inherited) begins_caseLine) (singleCase_follows block inherited)
  have groups := manyInBraces_follows (takes_of_reads (groupCase_reads room inherited) begins_caseLine)
    (takes_of_reads (groupCase_reads other inherited) begins_caseLine) (groupCase_follows block inherited)
  refine block.token.bind fun _ => ?_
  apply either_follows
  · exact fun _ _ _ => fail_match
  · apply atEnd_follows unexpected_follows
    refine block.value.bind fun value => ?_
    apply either_follows
    · intro token front back together
      refine ((caseBody_follows block (memberGroup_follows block inherited)).bind fun body => ?_).along _ _ together
      refine groups.bind fun others => block.token.bind fun _ => ?_
      apply either_follows
      · exact fun _ _ _ => fail_match
      · exact .pure
    · refine (caseBody_follows block (block.info inherited)).bind fun body => ?_
      exact singles.bind fun others => block.token.bind fun _ => block.name.bind fun _ => .pure

theorem selection_follows (block : pair.Block room other) (inherited : OrderRule) :
    pair.Follows (selection room inherited) (selection other inherited) :=
  block.keyword.bind fun _ => (block.inParens block.expr).bind fun _ =>
    (selected_follows block inherited).bind fun _ => block.token.bind fun _ => .pure

theorem structItem_follows (block : pair.Block room other) (inherited : OrderRule) :
    pair.Follows (structItem room inherited) (structItem other inherited) := by
  apply either_follows
  · exact fun _ _ _ => ((selection_follows block inherited).bind fun _ => .pure).along _ _
  · exact (member_follows block inherited).bind fun _ => .pure

/-! Structs and bitfields. -/

theorem struct_follows (block : pair.Block room other) : pair.Follows (struct room) (struct other) := by
  refine block.order.bind fun order => block.keyword.bind fun _ => block.name.bind fun _ => ?_
  have items := manyInBraces_follows (takes_of_reads (structItem_reads room order) begins_item)
    (takes_of_reads (structItem_reads other order) begins_item) (structItem_follows block order)
  exact block.token.bind fun _ => items.bind fun _ => block.token.bind fun _ => .pure

theorem size?_follows (block : pair.Block room other) : pair.Follows (size? room) (size? other) := by
  apply either_follows
  · exact fun _ _ _ => ((block.inParens block.expr).bind fun _ => .pure).along _ _
  · exact .pure

theorem bitfieldMember_follows (block : pair.Block room other) :
    pair.Follows (bitfieldMember room) (bitfieldMember other) :=
  block.name.bind fun _ => (size?_follows block).bind fun _ => block.token.bind fun _ => .pure

theorem bitfield_follows (block : pair.Block room other) : pair.Follows (bitfield room) (bitfield other) := by
  have members := manyInBraces_follows (takes_of_reads (bitfieldMember_reads room) begins_bitfieldLine)
    (takes_of_reads (bitfieldMember_reads other) begins_bitfieldLine) (bitfieldMember_follows block)
  exact block.keyword.bind fun _ => block.name.bind fun _ => (size?_follows block).bind fun _ =>
    block.token.bind fun _ => members.bind fun _ => block.token.bind fun _ => .pure

/-! All declarations. -/

theorem declaration_follows (block : pair.Block room other) : pair.Follows (declaration room) (declaration other) := by
  apply either_follows
  · exact fun _ _ _ => ((bitfield_follows block).bind fun _ => .pure).along _ _
  · apply either_follows
    · exact fun _ _ _ => ((struct_follows block).bind fun _ => .pure).along _ _
    · exact unexpected_follows

theorem declarations_follows (block : pair.Block room other) :
    pair.Follows (declarations room) (declarations other) := by
  have taken (room : Nat) : Takes (declaration room) := takes_of_reads (declaration_reads room) begins_declared
  apply many_follows (advances_unless untilEnd_eq rfl (taken room)) (advances_unless untilEnd_eq rfl (taken other))
  exact atEnd_follows .pure ((declaration_follows block).bind fun _ => .pure)

end Pairing

end RecordLayout
