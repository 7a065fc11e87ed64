import RecordLayout.Grammar.Declaration
import RecordLayout.Proofs.Grammar.Member

/-! Selections. The first case decides whether all of them are types or groups; no type begins with a
brace, so that one token is enough to tell. -/

namespace RecordLayout

open Grammar

namespace Parser

variable {tokens rest : List Token}

/-! Groups and cases. -/

theorem begins_memberLine {depth : Nat} {inherited : OrderRule} :
    Phrase.Begins (MemberLine depth inherited) fun token =>
      token.kind ≠ .rightBrace ∧ token.isKeyword "match" = false := by
  intro tokens member line
  cases line with
  | mk body _ _ =>
    obtain ⟨token, others, rfl, first⟩ := begins_info _ _ body
    refine ⟨token, _, rfl, ?_⟩
    rcases first with kind | kind | kind | ⟨order, kind, content⟩
    · simp [Token.isKeyword, kind]
    · simp [Token.isKeyword, kind]
    · simp [Token.isKeyword, kind]
    · cases order <;> simp [Token.isKeyword, kind, content, ByteOrder.keyword]

theorem memberGroup_reads (room : Nat) (inherited : OrderRule) :
    Reads (memberGroup room inherited) (Braced (MemberLine room inherited)) never := by
  have members := manyInBraces_reads (member_reads room inherited)
    (begins_memberLine.mono fun _ first => first.1)
  refine ⟨?_, ?_⟩
  · intro tokens values rest read
    simp only [memberGroup, bind_eq_ok, token_eq_ok] at read
    obtain ⟨opening, _, ⟨rfl, opens⟩, found, _, taken, closing, _, ⟨rfl, closes⟩, read⟩ := read
    obtain ⟨front, rfl, items⟩ := members.sound taken
    split at read
    next => exact absurd read failAt_ne_ok
    next some =>
      cases read
      exact ⟨opening :: (front ++ [closing]), by simp, .mk opens items (by simpa using some) closes⟩
  · intro front values rest braced _
    cases braced with
    | @mk opening inner _ closing opens items some closes =>
      have clear : Clear (·.kind != .rightBrace) (closing :: rest) := by simp [closes]
      have taken := members.complete items clear
      simp only [memberGroup, bind_eq_ok, token_eq_ok]
      refine ⟨opening, _, ⟨rfl, opens⟩, values, _, by simpa using taken, closing, rest, ⟨rfl, closes⟩, ?_⟩
      rw [if_neg (by simpa using some)]
      rfl

/-- The value of a case and the colon after it. -/
inductive CaseValue (depth : Nat) : Phrase Expr where
  | mk {front value colon} (chosen : Arithmetic depth front value) (parts : colon.kind = .colon) :
      CaseValue depth (front ++ [colon]) value

theorem caseValue_reads (room : Nat) : Reads (caseValue room) (CaseValue room) never := by
  refine ⟨?_, ?_⟩
  · intro tokens value rest read
    simp only [caseValue, bind_eq_ok, token_eq_ok, pure_eq_ok] at read
    obtain ⟨value, _, taken, colon, _, ⟨rfl, parts⟩, rfl, rfl⟩ := read
    obtain ⟨front, rfl, chosen⟩ := (expr_reads room).sound taken
    exact ⟨front ++ [colon], by simp, .mk chosen parts⟩
  · intro front value rest there _
    cases there with
    | @mk front _ colon chosen parts =>
      have clear : Clear extendsSum (colon :: rest) := by simp [not_extendsSum, parts]
      have taken := (expr_reads room).complete chosen clear
      simp only [caseValue, bind_eq_ok, token_eq_ok, pure_eq_ok]
      exact ⟨value, _, by simpa using taken, colon, rest, ⟨rfl, parts⟩, rfl, rfl⟩

theorem begins_caseValue {depth : Nat} : Phrase.Begins (CaseValue depth) (·.kind ≠ .rightBrace) := by
  intro tokens value there
  cases there with
  | mk chosen _ =>
    obtain ⟨token, others, rfl, begins⟩ := begins_arithmetic _ _ _ chosen
    exact ⟨token, _, rfl, (not_beginsOperand begins).2.1⟩

/-- A body and the comma after it. -/
inductive CaseBody (body : Phrase α) : Phrase α where
  | mk {front value comma} (there : body front value) (ends : comma.kind = .comma) :
      CaseBody body (front ++ [comma]) value

theorem caseBody_reads {body : Parser α} {phrase : Phrase α} {blocks : Token → Bool}
    (reads : Reads body phrase blocks) (apart : ∀ token : Token, token.kind = .comma → blocks token = false) :
    Reads (caseBody body) (CaseBody phrase) never := by
  refine ⟨?_, ?_⟩
  · intro tokens value rest read
    simp only [caseBody, bind_eq_ok, token_eq_ok, pure_eq_ok] at read
    obtain ⟨value, _, taken, comma, _, ⟨rfl, ends⟩, rfl, rfl⟩ := read
    obtain ⟨front, rfl, there⟩ := reads.sound taken
    exact ⟨front ++ [comma], by simp, .mk there ends⟩
  · intro front value rest there _
    cases there with
    | @mk front _ comma there ends =>
      have clear : Clear blocks (comma :: rest) := clear_cons.mpr (apart comma ends)
      have taken := reads.complete there clear
      simp only [caseBody, bind_eq_ok, token_eq_ok, pure_eq_ok]
      exact ⟨value, _, by simpa using taken, comma, rest, ⟨rfl, ends⟩, rfl, rfl⟩

theorem caseLine_of_parts {depth : Nat} {body : Phrase α} {front back : List Token} {value : Expr}
    {selected : α} (valued : CaseValue depth front value) (there : CaseBody body back selected) :
    CaseLine depth body (front ++ back) ⟨value, selected⟩ := by
  cases valued with
  | mk chosen parts =>
    cases there with
    | mk there ends => simpa using CaseLine.mk chosen parts there ends

theorem parts_of_caseLine {depth : Nat} {body : Phrase α} {line : Case α}
    (there : CaseLine depth body tokens line) :
    ∃ front back, tokens = front ++ back ∧ CaseValue depth front line.value ∧
      CaseBody body back line.body := by
  cases there with
  | @mk front _ colon back _ comma chosen parts there ends =>
    exact ⟨front ++ [colon], back ++ [comma], by simp, .mk chosen parts, .mk there ends⟩

theorem infoBody_reads (room : Nat) (inherited : OrderRule) :
    Reads (caseBody (memberInfo room inherited)) (CaseBody (Info room inherited)) never :=
  caseBody_reads (memberInfo_reads room inherited) fun _ ends => by
    simp [extendsInfo, extendsType, ends]

theorem groupBody_reads (room : Nat) (inherited : OrderRule) :
    Reads (caseBody (memberGroup room inherited)) (CaseBody (Braced (MemberLine room inherited))) never :=
  caseBody_reads (memberGroup_reads room inherited) fun _ _ => rfl

theorem begins_infoBody {depth : Nat} {inherited : OrderRule} :
    Phrase.Begins (CaseBody (Info depth inherited)) (·.kind ≠ .leftBrace) := by
  intro tokens info there
  cases there with
  | mk there _ =>
    obtain ⟨token, others, rfl, first⟩ := begins_info _ _ there
    refine ⟨token, _, rfl, ?_⟩
    rcases first with kind | kind | kind | ⟨_, kind, _⟩ <;> simp [kind]

theorem begins_groupBody {item : Phrase α} :
    Phrase.Begins (CaseBody (Braced item)) (·.kind = .leftBrace) := by
  intro tokens values there
  cases there with
  | mk there _ =>
    cases there with
    | mk opens _ _ _ => exact ⟨_, _, rfl, opens⟩

theorem begins_caseLine {depth : Nat} {body : Phrase α} :
    Phrase.Begins (CaseLine depth body) (·.kind ≠ .rightBrace) := by
  intro tokens line there
  obtain ⟨front, back, rfl, chosen, _⟩ := parts_of_caseLine there
  obtain ⟨token, others, rfl, other⟩ := begins_caseValue _ _ chosen
  exact ⟨token, others ++ back, rfl, other⟩

theorem singleCase_reads (room : Nat) (inherited : OrderRule) :
    Reads (singleCase room inherited) (CaseLine room (Info room inherited)) never := by
  refine ⟨?_, ?_⟩
  · intro tokens line rest read
    obtain ⟨value, after, valued, continued⟩ := bind_eq_ok.mp read
    obtain ⟨front, rfl, chosen⟩ := (caseValue_reads room).sound valued
    simp only [nextIsKind_bind] at continued
    split at continued
    next => exact absurd continued failAt_ne_ok
    next =>
      obtain ⟨body, last, taken, returned⟩ := bind_eq_ok.mp continued
      cases returned
      obtain ⟨back, rfl, there⟩ := (infoBody_reads room inherited).sound taken
      exact ⟨front ++ back, by simp, caseLine_of_parts chosen there⟩
  · intro front line rest there _
    obtain ⟨front, back, rfl, chosen, there⟩ := parts_of_caseLine there
    have taken := (infoBody_reads room inherited).complete there (clear_never rest)
    obtain ⟨token, others, rfl, other⟩ := begins_infoBody _ _ there
    rw [List.append_assoc]
    refine bind_eq_ok.mpr ⟨line.value, _, (caseValue_reads room).complete chosen (clear_never _), ?_⟩
    simp only [nextIsKind_bind]
    rw [if_neg (by simpa using other)]
    exact bind_eq_ok.mpr ⟨line.body, rest, taken, rfl⟩

theorem groupCase_reads (room : Nat) (inherited : OrderRule) :
    Reads (groupCase room inherited) (CaseLine room (Braced (MemberLine room inherited))) never := by
  refine ⟨?_, ?_⟩
  · intro tokens line rest read
    obtain ⟨value, after, valued, continued⟩ := bind_eq_ok.mp read
    obtain ⟨front, rfl, chosen⟩ := (caseValue_reads room).sound valued
    simp only [nextIsKind_bind] at continued
    split at continued
    next =>
      obtain ⟨body, last, taken, returned⟩ := bind_eq_ok.mp continued
      cases returned
      obtain ⟨back, rfl, there⟩ := (groupBody_reads room inherited).sound taken
      exact ⟨front ++ back, by simp, caseLine_of_parts chosen there⟩
    next => exact absurd continued failAt_ne_ok
  · intro front line rest there _
    obtain ⟨front, back, rfl, chosen, there⟩ := parts_of_caseLine there
    have taken := (groupBody_reads room inherited).complete there (clear_never rest)
    obtain ⟨token, others, rfl, opens⟩ := begins_groupBody _ _ there
    rw [List.append_assoc]
    refine bind_eq_ok.mpr ⟨line.value, _, (caseValue_reads room).complete chosen (clear_never _), ?_⟩
    simp only [nextIsKind_bind]
    rw [if_pos (by simpa using opens)]
    exact bind_eq_ok.mpr ⟨line.body, rest, taken, rfl⟩

/-! Selections. -/

theorem braced_of_first {item : Phrase α} {front back : List Token} {opening closing : Token} {value : α}
    {values : List α} (opens : opening.kind = .leftBrace) (first : item front value)
    (others : Phrase.Many item back values) (closes : closing.kind = .rightBrace) :
    Braced item (opening :: (front ++ back ++ [closing])) (value :: values) :=
  .mk opens (.cons first others) (List.cons_ne_nil _ _) closes

theorem first_of_braced {item : Phrase α} {values : List α} (braced : Braced item tokens values) :
    ∃ opening front value back others closing, tokens = opening :: (front ++ back ++ [closing]) ∧
      values = value :: others ∧ opening.kind = .leftBrace ∧ item front value ∧
      Phrase.Many item back others ∧ closing.kind = .rightBrace := by
  cases braced with
  | @mk opening _ _ closing opens items some closes =>
    cases items with
    | nil => exact absurd rfl some
    | @cons front back value others first rest =>
      exact ⟨opening, front, value, back, others, closing, rfl, rfl, opens, first, rest, closes⟩

/-- What is done after the first value depends on whether a brace follows it. -/
theorem selected_start {room : Nat} {inherited : OrderRule} {opening : Token} {front : List Token}
    {first : Expr} (opens : opening.kind = .leftBrace) (chosen : CaseValue room front first) :
    selected room inherited (opening :: (front ++ tokens)) =
      if tokens.head?.any (·.kind == .leftBrace) then
        (do
          let body ← caseBody (memberGroup room inherited)
          let others ← manyInBraces (groupCase room inherited)
          let _ ← token .rightBrace
          if ← nextIsKind .identifier then
            fail .namedGroups
          else
            return .groups (⟨first, body⟩ :: others) : Parser Selected) tokens
      else
        (do
          let body ← caseBody (memberInfo room inherited)
          let others ← manyInBraces (singleCase room inherited)
          let _ ← token .rightBrace
          let name ← name .selectionName
          return .single name (⟨first, body⟩ :: others) : Parser Selected) tokens := by
  have valued := (caseValue_reads room).complete chosen (clear_never tokens)
  have opened : token .leftBrace (opening :: (front ++ tokens)) = .ok (opening, front ++ tokens) :=
    token_eq_ok.mpr ⟨rfl, opens⟩
  have noClosing : (front ++ tokens).head?.any (·.kind == .rightBrace) = false := by
    obtain ⟨token, others, rfl, begins⟩ := begins_caseValue _ _ chosen
    simpa using begins
  have more : (front ++ tokens).isEmpty = false := by
    obtain ⟨token, others, rfl, _⟩ := begins_caseValue _ _ chosen
    rfl
  simp only [selected, bind, StateT.bind, Except.bind, opened, nextIsKind_apply, noClosing,
    Bool.false_eq_true, if_false, isAtEnd_apply, more, valued]
  split
  next => rfl
  next => rfl

theorem singles_reads (room : Nat) (inherited : OrderRule) :
    Reads (manyInBraces (singleCase room inherited)) (Phrase.Many (CaseLine room (Info room inherited)))
      (·.kind != .rightBrace) :=
  manyInBraces_reads (singleCase_reads room inherited) begins_caseLine

theorem groups_reads (room : Nat) (inherited : OrderRule) :
    Reads (manyInBraces (groupCase room inherited))
      (Phrase.Many (CaseLine room (Braced (MemberLine room inherited)))) (·.kind != .rightBrace) :=
  manyInBraces_reads (groupCase_reads room inherited) begins_caseLine

theorem selected_sound {room : Nat} {inherited : OrderRule} {value : Selected}
    (read : selected room inherited tokens = .ok (value, rest)) :
    ∃ front, tokens = front ++ rest ∧ Selecting room inherited front value := by
  obtain ⟨opening, _, opened, continued⟩ := bind_eq_ok.mp read
  obtain ⟨rfl, opens⟩ := token_eq_ok.mp opened
  simp only [nextIsKind_bind] at continued
  split at continued
  next => exact absurd continued fail_ne_ok
  next =>
    obtain ⟨atEnd, _, ended, first⟩ := bind_eq_ok.mp continued
    cases ended
    split at first
    next => exact absurd first unexpected_ne_ok
    next =>
      obtain ⟨value, _, valued, body⟩ := bind_eq_ok.mp first
      obtain ⟨front, rfl, chosen⟩ := (caseValue_reads room).sound valued
      simp only [nextIsKind_bind] at body
      split at body
      next =>
        simp only [bind_eq_ok, token_eq_ok] at body
        obtain ⟨group, _, taken, others, _, repeated, closing, _, ⟨rfl, closes⟩, _, _, looked, last⟩ := body
        cases looked
        split at last
        next => exact absurd last fail_ne_ok
        next =>
          cases last
          obtain ⟨back, rfl, there⟩ := (groupBody_reads room inherited).sound taken
          obtain ⟨more, rfl, lines⟩ := (groups_reads room inherited).sound repeated
          have line := caseLine_of_parts chosen there
          exact ⟨_, by simp, .groups (braced_of_first opens line lines closes)⟩
      next =>
        simp only [bind_eq_ok, token_eq_ok, name_eq_ok, pure_eq_ok] at body
        obtain ⟨info, _, taken, others, _, repeated, closing, _, ⟨rfl, closes⟩, _, _,
          ⟨name, rfl, named, rfl⟩, rfl, rfl⟩ := body
        obtain ⟨back, rfl, there⟩ := (infoBody_reads room inherited).sound taken
        obtain ⟨more, rfl, lines⟩ := (singles_reads room inherited).sound repeated
        have line := caseLine_of_parts chosen there
        exact ⟨_, by simp, .single (braced_of_first opens line lines closes) named⟩

theorem selected_single {room : Nat} {inherited : OrderRule} {name : Token} {cases : List (Case MemberInfo)}
    (body : Braced (CaseLine room (Info room inherited)) tokens cases) (named : name.kind = .identifier) :
    selected room inherited (tokens ++ [name] ++ rest) = .ok (.single ⟨name.content, name.span⟩ cases, rest) := by
  obtain ⟨opening, _, first, more, others, closing, rfl, rfl, opens, line, lines, closes⟩ :=
    first_of_braced body
  obtain ⟨front, back, rfl, chosen, there⟩ := parts_of_caseLine line
  have clearClosing : Clear (·.kind != .rightBrace) (closing :: name :: rest) := by simp [closes]
  have repeated := (singles_reads room inherited).complete lines clearClosing
  have taken := (infoBody_reads room inherited).complete there (clear_never (more ++ closing :: name :: rest))
  have sameTokens : opening :: (front ++ back ++ more ++ [closing]) ++ [name] ++ rest =
      opening :: (front ++ (back ++ (more ++ closing :: name :: rest))) := by simp
  rw [sameTokens, selected_start opens chosen, if_neg]
  · simp only [bind_eq_ok, token_eq_ok, name_eq_ok, pure_eq_ok]
    exact ⟨first.body, _, taken, others, _, repeated, closing, _, ⟨rfl, closes⟩, _, rest,
      ⟨name, rfl, named, rfl⟩, rfl, rfl⟩
  · obtain ⟨token, _, rfl, other⟩ := begins_infoBody _ _ there
    simpa using other

/-- Groups have no name of their own, so a name after them is refused. -/
theorem selected_groups {room : Nat} {inherited : OrderRule} {cases : List (Case (List Member))}
    (body : Braced (CaseLine room (Braced (MemberLine room inherited))) tokens cases)
    (clear : Clear (·.kind == .identifier) rest) :
    selected room inherited (tokens ++ rest) = .ok (.groups cases, rest) := by
  obtain ⟨opening, _, first, more, others, closing, rfl, rfl, opens, line, lines, closes⟩ :=
    first_of_braced body
  obtain ⟨front, back, rfl, chosen, there⟩ := parts_of_caseLine line
  have clearClosing : Clear (·.kind != .rightBrace) (closing :: rest) := by simp [closes]
  have repeated := (groups_reads room inherited).complete lines clearClosing
  have taken := (groupBody_reads room inherited).complete there (clear_never (more ++ closing :: rest))
  have sameTokens : opening :: (front ++ back ++ more ++ [closing]) ++ rest =
      opening :: (front ++ (back ++ (more ++ closing :: rest))) := by simp
  rw [sameTokens, selected_start opens chosen, if_pos]
  · refine bind_eq_ok.mpr ⟨first.body, _, taken, bind_eq_ok.mpr ⟨others, _, repeated, ?_⟩⟩
    refine bind_eq_ok.mpr ⟨closing, rest, token_eq_ok.mpr ⟨rfl, closes⟩, ?_⟩
    simp only [nextIsKind_bind, clear.any_eq_false, Bool.false_eq_true, if_false]
    rfl
  · obtain ⟨token, _, rfl, brace⟩ := begins_groupBody _ _ there
    simp [brace]

theorem selected_reads (room : Nat) (inherited : OrderRule) :
    Reads (selected room inherited) (Selecting room inherited) (·.kind == .identifier) := by
  refine ⟨selected_sound, ?_⟩
  intro tokens value rest there clear
  cases there with
  | single body named => exact selected_single body named
  | groups body => exact selected_groups body clear

theorem selection_reads (room : Nat) (inherited : OrderRule) :
    Reads (selection room inherited) (SelectionLine room inherited) never := by
  have asked : Reads _ (Phrase.InParens (Arithmetic room)) never :=
    inParens_reads (expr_reads room) fun _ closes => not_extendsSum (.inl closes)
  refine ⟨?_, ?_⟩
  · intro tokens value rest read
    simp only [selection, bind_eq_ok, keyword_eq_ok, token_eq_ok, pure_eq_ok] at read
    obtain ⟨word, _, ⟨rfl, keyword⟩, condition, _, asking, found, _, selecting, comma, _, ⟨rfl, ends⟩,
      rfl, rfl⟩ := read
    obtain ⟨front, rfl, question⟩ := asked.sound asking
    obtain ⟨back, rfl, body⟩ := (selected_reads room inherited).sound selecting
    exact ⟨word :: (front ++ (back ++ [comma])), by simp, .mk keyword question body ends⟩
  · intro front value rest line _
    cases line with
    | @mk word front condition back found comma keyword question body ends =>
      have clear : Clear (·.kind == .identifier) (comma :: rest) := by simp [ends]
      have asking := asked.complete question (clear_never (back ++ comma :: rest))
      have selecting := (selected_reads room inherited).complete body clear
      simp only [selection, bind_eq_ok, keyword_eq_ok, token_eq_ok, pure_eq_ok]
      exact ⟨word, _, ⟨by simp, keyword⟩, condition, _, asking, found, _, selecting, comma, rest,
        ⟨rfl, ends⟩, rfl, rfl⟩

end Parser

end RecordLayout
