import RecordLayout.Grammar.Declaration
import RecordLayout.Proofs.Grammar.Selection

/-! Structs, bitfields and descriptions. What an item or a declaration is shows in its first token. The
parser of descriptions reads all tokens or fails, so what it returns is what the tokens make up. -/

namespace RecordLayout

open Grammar

namespace Parser

variable {tokens rest : List Token}

/-! Structs. -/

theorem begins_selectionLine {depth : Nat} {inherited : OrderRule} :
    Phrase.Begins (SelectionLine depth inherited) (·.isKeyword "match" = true) := by
  intro tokens selection line
  cases line with
  | mk keyword _ _ _ => exact ⟨_, _, rfl, Token.isKeyword_iff.mpr keyword⟩

theorem structItem_reads (room : Nat) (inherited : OrderRule) :
    Reads (structItem room inherited) (Item room inherited) never := by
  refine ⟨?_, ?_⟩
  · intro tokens item rest read
    rw [structItem, nextIs_bind] at read
    split at read
    next =>
      obtain ⟨found, after, taken, returned⟩ := bind_eq_ok.mp read
      cases returned
      obtain ⟨front, same, line⟩ := (selection_reads room inherited).sound taken
      exact ⟨front, same, .selection line⟩
    next =>
      obtain ⟨found, after, taken, returned⟩ := bind_eq_ok.mp read
      cases returned
      obtain ⟨front, same, line⟩ := (member_reads room inherited).sound taken
      exact ⟨front, same, .member line⟩
  · intro front item rest there _
    rw [structItem, nextIs_bind]
    cases there with
    | @member _ found line =>
      have taken := (member_reads room inherited).complete line (clear_never rest)
      obtain ⟨token, others, rfl, _, other⟩ := begins_memberLine _ _ line
      rw [if_neg (by simp [other])]
      exact bind_eq_ok.mpr ⟨found, rest, taken, rfl⟩
    | @selection _ found line =>
      have taken := (selection_reads room inherited).complete line (clear_never rest)
      obtain ⟨token, others, rfl, keyword⟩ := begins_selectionLine _ _ line
      rw [if_pos (by simp [keyword])]
      exact bind_eq_ok.mpr ⟨found, rest, taken, rfl⟩

theorem begins_item {depth : Nat} {inherited : OrderRule} :
    Phrase.Begins (Item depth inherited) (·.kind ≠ .rightBrace) := by
  intro tokens item there
  cases there with
  | member line =>
    obtain ⟨token, others, rfl, other, _⟩ := begins_memberLine _ _ line
    exact ⟨token, others, rfl, other⟩
  | selection line =>
    obtain ⟨token, others, rfl, keyword⟩ := begins_selectionLine _ _ line
    exact ⟨token, others, rfl, by simp [(Token.isKeyword_iff.mp keyword).1]⟩

theorem structOrder_sound {room : Nat} {order : OrderRule}
    (read : structOrder room tokens = .ok (order, rest)) :
    ∃ front found, tokens = front ++ rest ∧ Phrase.Optional (Order room) front found ∧
      order = found.getD (.fixed .big) := by
  obtain ⟨word, after, ordered, continued⟩ := bind_eq_ok.mp read
  cases word with
  | some fixed =>
    cases continued
    obtain ⟨front, rfl, word⟩ := byteOrder?_reads.sound ordered
    exact ⟨front, some (.fixed fixed), rfl, .present (.fixed word), rfl⟩
  | none =>
    have same := byteOrder?_reads.absent ordered
    subst same
    simp only [nextIsKind_bind] at continued
    split at continued
    next =>
      obtain ⟨choice, _, chosen, finished⟩ := bind_eq_ok.mp continued
      cases choice with
      | none => exact absurd finished fail_ne_ok
      | some choice =>
        cases finished
        obtain ⟨front, rfl, choosing⟩ := (orderChoice?_reads room).sound chosen
        exact ⟨front, some (.chosen choice), rfl, .present (.chosen choosing), rfl⟩
    next =>
      cases continued
      exact ⟨[], none, rfl, .absent, rfl⟩

theorem structOrder_complete {room : Nat} {front : List Token} {found : Option OrderRule}
    (there : Phrase.Optional (Order room) front found) {word : Token} (keyword : word.IsWord "struct") :
    structOrder room (front ++ word :: rest) = .ok (found.getD (.fixed .big), word :: rest) := by
  have ⟨isWord, content⟩ := keyword
  cases there with
  | absent =>
    have noOrder : byteOrder? (word :: rest) = .ok (none, word :: rest) :=
      accept?_eq_none.mpr ⟨rfl, by simp [content, ByteOrder.ofKeyword?]⟩
    refine bind_eq_ok.mpr ⟨none, _, noOrder, ?_⟩
    simp only [nextIsKind_bind]
    rw [if_neg (by simp [isWord])]
    rfl
  | present order =>
    cases order with
    | @fixed _ fixed order =>
      exact bind_eq_ok.mpr ⟨some fixed, _, byteOrder?_reads.complete order (clear_never _), rfl⟩
    | @chosen _ choice choosing =>
      have chosen := (orderChoice?_reads room).complete choosing (clear_never (word :: rest))
      obtain ⟨opening, others, rfl, opens⟩ := begins_chosen _ _ choosing
      have noOrder : byteOrder? (opening :: others ++ word :: rest) =
          .ok (none, opening :: others ++ word :: rest) := byteOrder?_absent (by simp [opens])
      refine bind_eq_ok.mpr ⟨none, _, noOrder, ?_⟩
      simp only [nextIsKind_bind]
      rw [if_pos (by simp [opens])]
      exact bind_eq_ok.mpr ⟨some choice, _, chosen, rfl⟩

theorem struct_reads (room : Nat) : Reads (struct room) (StructBlock room) never := by
  have items (order : OrderRule) := manyInBraces_reads (structItem_reads room order) begins_item
  refine ⟨?_, ?_⟩
  · intro tokens value rest read
    simp only [struct, bind_eq_ok, keyword_eq_ok, name_eq_ok, token_eq_ok, pure_eq_ok] at read
    obtain ⟨order, _, ordered, word, _, ⟨rfl, keyword⟩, _, _, ⟨name, rfl, named, rfl⟩, opening, _,
      ⟨rfl, opens⟩, found, _, taken, closing, _, ⟨rfl, closes⟩, rfl, rfl⟩ := read
    obtain ⟨front, order, rfl, first, rfl⟩ := structOrder_sound ordered
    obtain ⟨inner, rfl, body⟩ := (items _).sound taken
    exact ⟨front ++ word :: name :: opening :: (inner ++ [closing]), by simp,
      .mk first keyword named opens body closes⟩
  · intro front value rest block _
    cases block with
    | @mk front order word name opening inner found closing first keyword named opens body closes =>
      have clear : Clear (·.kind != .rightBrace) (closing :: rest) := by simp [closes]
      have taken := (items _).complete body clear
      have ordered : structOrder room (front ++ word :: name :: opening :: (inner ++ closing :: rest)) = _ :=
        structOrder_complete first keyword
      simp only [struct, bind_eq_ok, keyword_eq_ok, name_eq_ok, token_eq_ok, pure_eq_ok]
      exact ⟨_, _, by simpa using ordered, word, _, ⟨rfl, keyword⟩, _, _, ⟨name, rfl, named, rfl⟩, opening, _,
        ⟨rfl, opens⟩, found, _, taken, closing, rest, ⟨rfl, closes⟩, rfl, rfl⟩

/-! Bitfields. -/

theorem size?_reads (room : Nat) : ReadsOptional (size? room) (Phrase.InParens (Arithmetic room)) never := by
  have size : Reads _ (Phrase.InParens (Arithmetic room)) never :=
    inParens_reads (expr_reads room) fun _ closes => not_extendsSum (.inl closes)
  refine ⟨?_, ?_, ?_⟩
  · intro tokens value rest read
    rw [size?, nextIsKind_bind] at read
    split at read
    next =>
      obtain ⟨found, after, taken, returned⟩ := bind_eq_ok.mp read
      cases returned
      exact size.sound taken
    next => cases read
  · intro tokens rest read
    rw [size?, nextIsKind_bind] at read
    split at read
    next =>
      obtain ⟨found, after, taken, returned⟩ := bind_eq_ok.mp read
      cases returned
    next =>
      cases read
      rfl
  · intro front value rest there _
    have taken := size.complete there (clear_never rest)
    obtain ⟨opening, others, rfl, opens⟩ := Phrase.begins_inParens _ _ there
    rw [size?, nextIsKind_bind, if_pos (by simp [opens])]
    exact bind_eq_ok.mpr ⟨value, rest, taken, rfl⟩

/-- The size, or its absence before a token that opens no parenthesis. -/
theorem size?_eq_ok {room : Nat} {size : Option Expr} {front : List Token} {token : Token}
    (sized : Phrase.Optional (Phrase.InParens (Arithmetic room)) front size)
    (other : token.kind ≠ .leftParen) :
    size? room (front ++ token :: rest) = .ok (size, token :: rest) := by
  cases sized with
  | absent =>
    rw [size?, nextIsKind_bind, if_neg (by simpa using other)]
    rfl
  | present there => exact (size?_reads room).complete there (clear_never _)

theorem size?_sound {room : Nat} {size : Option Expr} (read : size? room tokens = .ok (size, rest)) :
    ∃ front, tokens = front ++ rest ∧ Phrase.Optional (Phrase.InParens (Arithmetic room)) front size := by
  cases size with
  | none => exact ⟨[], ((size?_reads room).absent read).symm, .absent⟩
  | some size =>
    obtain ⟨front, same, there⟩ := (size?_reads room).sound read
    exact ⟨front, same, .present there⟩

theorem bitfieldMember_reads (room : Nat) : Reads (bitfieldMember room) (BitfieldLine room) never := by
  refine ⟨?_, ?_⟩
  · intro tokens value rest read
    simp only [bitfieldMember, bind_eq_ok, name_eq_ok, token_eq_ok, pure_eq_ok] at read
    obtain ⟨_, _, ⟨name, rfl, named, rfl⟩, size, _, sizing, comma, _, ⟨rfl, ends⟩, rfl, rfl⟩ := read
    obtain ⟨front, rfl, sized⟩ := size?_sound sizing
    exact ⟨name :: (front ++ [comma]), by simp, .mk named sized ends⟩
  · intro front value rest line _
    cases line with
    | @mk name inner size comma named sized ends =>
      have sizing : size? room (inner ++ comma :: rest) = .ok (size, comma :: rest) :=
        size?_eq_ok sized (by simp [ends])
      simp only [bitfieldMember, bind_eq_ok, name_eq_ok, token_eq_ok, pure_eq_ok]
      exact ⟨_, _, ⟨name, rfl, named, rfl⟩, size, _, by simpa using sizing, comma, rest, ⟨rfl, ends⟩, rfl, rfl⟩

theorem begins_bitfieldLine {depth : Nat} : Phrase.Begins (BitfieldLine depth) (·.kind ≠ .rightBrace) := by
  intro tokens member line
  cases line with
  | mk named _ _ => exact ⟨_, _, rfl, by simp [named]⟩

theorem bitfield_reads (room : Nat) : Reads (bitfield room) (BitfieldBlock room) never := by
  have members := manyInBraces_reads (bitfieldMember_reads room) begins_bitfieldLine
  refine ⟨?_, ?_⟩
  · intro tokens value rest read
    simp only [bitfield, bind_eq_ok, keyword_eq_ok, name_eq_ok, token_eq_ok, pure_eq_ok] at read
    obtain ⟨word, _, ⟨rfl, keyword⟩, _, _, ⟨name, rfl, named, rfl⟩, byteSize, _, sizing, opening, _,
      ⟨rfl, opens⟩, found, _, taken, closing, _, ⟨rfl, closes⟩, rfl, rfl⟩ := read
    obtain ⟨front, rfl, sized⟩ := size?_sound sizing
    obtain ⟨inner, rfl, body⟩ := members.sound taken
    exact ⟨word :: name :: (front ++ opening :: (inner ++ [closing])), by simp,
      .mk keyword named sized opens body closes⟩
  · intro front value rest block _
    cases block with
    | @mk word name first byteSize opening inner found closing keyword named sized opens body closes =>
      have clear : Clear (·.kind != .rightBrace) (closing :: rest) := by simp [closes]
      have taken := members.complete body clear
      have sizing : size? room (first ++ opening :: (inner ++ closing :: rest)) = .ok (byteSize, _) :=
        size?_eq_ok sized (by simp [opens])
      simp only [bitfield, bind_eq_ok, keyword_eq_ok, name_eq_ok, token_eq_ok, pure_eq_ok]
      exact ⟨word, _, ⟨rfl, keyword⟩, _, _, ⟨name, rfl, named, rfl⟩, byteSize, _, by simpa using sizing,
        opening, _, ⟨rfl, opens⟩, found, _, taken, closing, rest, ⟨rfl, closes⟩, rfl, rfl⟩

/-! Declarations. -/

theorem begins_structBlock {depth : Nat} : Phrase.Begins (StructBlock depth) fun token =>
    token.isKeyword "bitfield" = false ∧ beginsStruct token = true := by
  intro tokens struct block
  cases block with
  | mk ordered keyword _ _ _ _ =>
    cases ordered with
    | absent =>
      refine ⟨_, _, rfl, ?_, by simp [beginsStruct, Token.isKeyword_iff.mpr keyword]⟩
      simp [Token.isKeyword, keyword.2]
    | present order =>
      cases order with
      | chosen choosing =>
        obtain ⟨token, others, rfl, opens⟩ := begins_chosen _ _ choosing
        exact ⟨token, _, rfl, by simp [Token.isKeyword, opens], by simp [beginsStruct, opens]⟩
      | @fixed _ order word =>
        cases word with
        | @mk token _ keyword =>
          refine ⟨token, _, rfl, ?_⟩
          cases order <;> simp [beginsStruct, Token.isKeyword, keyword.1, keyword.2, ByteOrder.keyword]

theorem begins_bitfieldBlock {depth : Nat} :
    Phrase.Begins (BitfieldBlock depth) (·.isKeyword "bitfield" = true) := by
  intro tokens bitfield block
  cases block with
  | mk keyword _ _ _ _ _ => exact ⟨_, _, rfl, Token.isKeyword_iff.mpr keyword⟩

theorem declaration_reads (room : Nat) : Reads (declaration room) (Declared room) never := by
  refine ⟨?_, ?_⟩
  · intro tokens value rest read
    rw [declaration, nextIs_bind] at read
    split at read
    next =>
      obtain ⟨found, after, taken, returned⟩ := bind_eq_ok.mp read
      cases returned
      obtain ⟨front, same, block⟩ := (bitfield_reads room).sound taken
      exact ⟨front, same, .bitfield block⟩
    next =>
      rw [nextIs_bind] at read
      split at read
      next =>
        obtain ⟨found, after, taken, returned⟩ := bind_eq_ok.mp read
        cases returned
        obtain ⟨front, same, block⟩ := (struct_reads room).sound taken
        exact ⟨front, same, .struct block⟩
      next => exact absurd read unexpected_ne_ok
  · intro front value rest there _
    rw [declaration, nextIs_bind]
    cases there with
    | @struct _ found block =>
      have taken := (struct_reads room).complete block (clear_never rest)
      obtain ⟨token, others, rfl, other, begins⟩ := begins_structBlock _ _ block
      rw [if_neg (by simp [other]), nextIs_bind, if_pos (by simp [begins])]
      exact bind_eq_ok.mpr ⟨found, rest, taken, rfl⟩
    | @bitfield _ found block =>
      have taken := (bitfield_reads room).complete block (clear_never rest)
      obtain ⟨token, others, rfl, keyword⟩ := begins_bitfieldBlock _ _ block
      rw [if_pos (by simp [keyword])]
      exact bind_eq_ok.mpr ⟨found, rest, taken, rfl⟩

theorem begins_declared {depth : Nat} : Phrase.Begins (Declared depth) fun _ => True := by
  intro tokens declaration there
  cases there with
  | struct block =>
    obtain ⟨token, others, rfl, _⟩ := begins_structBlock _ _ block
    exact ⟨token, others, rfl, trivial⟩
  | bitfield block =>
    obtain ⟨token, others, rfl, _⟩ := begins_bitfieldBlock _ _ block
    exact ⟨token, others, rfl, trivial⟩

theorem untilEnd_eq {room : Nat} (tokens : List Token) :
    (do if ← isAtEnd then return none else return some (← declaration room) : Parser (Option Declaration)) tokens =
      if tokens.isEmpty then .ok (none, tokens) else (do return some (← declaration room) : Parser _) tokens := by
  simp only [bind, StateT.bind, Except.bind, isAtEnd_apply]
  split <;> rfl

theorem untilEnd_reads (room : Nat) :
    ReadsOptional (do if ← isAtEnd then return none else return some (← declaration room)) (Declared room) never :=
  until_reads untilEnd_eq (declaration_reads room) fun rest there => by
    obtain ⟨token, others, rfl, _⟩ := begins_declared _ _ there
    rfl

/-- All tokens are read, and they make up the declarations. -/
theorem declarations_eq_ok {room : Nat} {declared : List Declaration} :
    declarations room tokens = .ok (declared, rest) ↔ rest = [] ∧ Description room tokens declared := by
  have each := untilEnd_reads room
  constructor
  · intro read
    obtain ⟨front, same, there⟩ := many_sound each read
    have ended : rest = [] := by
      rcases many_stops each begins_declared.nonempty read with ended | stopped
      · exact ended
      · rw [untilEnd_eq] at stopped
        cases rest with
        | nil => rfl
        | cons token others =>
          obtain ⟨found, _, _, returned⟩ := bind_eq_ok.mp stopped
          cases returned
    subst ended
    rw [List.append_nil] at same
    exact ⟨rfl, same ▸ there⟩
  · intro ⟨ended, there⟩
    subst ended
    have read := many_complete each begins_declared.nonempty (fun _ _ => clear_never _) there
      (clear_never []) rfl
    rwa [List.append_nil] at read

/-- Declarations in front of other tokens are read first, and what follows is read as if it stood alone. -/
theorem declarations_append {room : Nat} {front : List Token} {declared : List Declaration}
    (there : Description room front declared) (rest : List Token) :
    declarations room (front ++ rest) = (declarations room rest).map fun read => (declared ++ read.1, read.2) :=
  many_append (untilEnd_reads room) begins_declared.nonempty rfl there rest

end Parser

end RecordLayout
