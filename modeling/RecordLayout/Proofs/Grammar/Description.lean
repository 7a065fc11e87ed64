import RecordLayout.Proofs.Cursor.Comments
import RecordLayout.Proofs.Grammar.Depth

/-! What is accepted: exactly what the language of layout descriptions has, once nesting is allowed as
deep as there are tokens. -/

namespace RecordLayout.Declaration

open Grammar

/-- What the tokens between comments describe, however deep it nests. -/
def Derives (tokens : List Token) (declared : List Declaration) : Prop :=
  ∃ depth, Description depth (tokens.filter (·.kind ≠ .comment)) declared

/-- The end of input is the last token and the only one of its kind. A depth as large as the number of
tokens before it is deep enough. -/
theorem ofTokens_eq_ok_iff_derives {front : List Token} {last : Token} {nesting : Nat}
    (inside : ∀ token ∈ front, token.kind ≠ .endOfInput) (ends : last.kind = .endOfInput)
    (deep : front.length ≤ nesting) (declared : List Declaration) :
    ofTokens nesting (front ++ [last]) = .ok declared ↔ Derives front declared := by
  rw [ofTokens_eq_ok, meaningful_append_end inside ends]
  constructor
  · intro there
    exact ⟨nesting, there⟩
  · intro ⟨depth, there⟩
    have fewer := List.length_filter_le (fun token : Token => decide (token.kind ≠ .comment)) front
    exact within_description (.inr (Nat.le_trans fewer deep)) _ _ (Nat.le_refl _) there

/-- A token without a place. -/
def tokenOf (kind : Token.Kind) (text : Option String) : Token :=
  ⟨kind, text, .empty (.start ⟨"", ""⟩)⟩

/-- A struct with something of everything, and a bitfield with a comment in it. -/
def layoutTokens : List Token :=
  [tokenOf .keyword "struct", tokenOf .identifier "s", tokenOf .leftBrace none,
   -- LE uint8[2 * (-n + 1)] x,
   tokenOf .keyword "LE", tokenOf .dataType "uint8", tokenOf .leftBracket none, tokenOf .integer "2",
   tokenOf .star none, tokenOf .leftParen none, tokenOf .minus none, tokenOf .identifier "n", tokenOf .plus none,
   tokenOf .integer "1", tokenOf .rightParen none, tokenOf .rightBracket none, tokenOf .identifier "x",
   tokenOf .comma none,
   -- (n != 1 ? string("z") : bytes(\x15)) y,
   tokenOf .leftParen none, tokenOf .identifier "n", tokenOf .notEqual none, tokenOf .integer "1",
   tokenOf .question none, tokenOf .dataType "string", tokenOf .leftParen none, tokenOf .string "z",
   tokenOf .rightParen none, tokenOf .colon none, tokenOf .dataType "bytes", tokenOf .leftParen none,
   tokenOf .backslash none, tokenOf .identifier "x15", tokenOf .rightParen none, tokenOf .rightParen none,
   tokenOf .identifier "y", tokenOf .comma none,
   -- bytes[m.k < 1.5 && n >= 0](0) z,
   tokenOf .dataType "bytes", tokenOf .leftBracket none, tokenOf .identifier "m", tokenOf .dot none,
   tokenOf .identifier "k", tokenOf .less none, tokenOf .float "1.5", tokenOf .and none, tokenOf .identifier "n",
   tokenOf .greaterEqual none, tokenOf .integer "0", tokenOf .rightBracket none, tokenOf .leftParen none,
   tokenOf .integer "0", tokenOf .rightParen none, tokenOf .identifier "z", tokenOf .comma none,
   -- match (n) { 1: int16, } v,
   tokenOf .keyword "match", tokenOf .leftParen none, tokenOf .identifier "n", tokenOf .rightParen none,
   tokenOf .leftBrace none, tokenOf .integer "1", tokenOf .colon none, tokenOf .dataType "int16",
   tokenOf .comma none, tokenOf .rightBrace none, tokenOf .identifier "v", tokenOf .comma none,
   tokenOf .rightBrace none,
   -- bitfield b { x(9 - 2 - 3 * 4), }
   tokenOf .keyword "bitfield", tokenOf .identifier "b", tokenOf .leftBrace none,
   tokenOf .comment "one member", tokenOf .identifier "x", tokenOf .leftParen none,
   tokenOf .integer "9", tokenOf .minus none, tokenOf .integer "2", tokenOf .minus none,
   tokenOf .integer "3", tokenOf .star none, tokenOf .integer "4", tokenOf .rightParen none,
   tokenOf .comma none, tokenOf .rightBrace none]

theorem derives_layoutTokens :
    let here : Span := .empty (.start ⟨"", ""⟩)
    let n : Expr := .ref ⟨["n"], here⟩
    let count : Expr := .binary (.int 2 here) .mul (.binary (.unary .sub n here) .add (.int 1 here))
    let choice : Choice TypeRef := ⟨.relation n .notEqual (.int 1 here),
      .data ⟨.string, some (.string "z" here), here⟩, .data ⟨.bytes, some (.int 21 here), here⟩, here⟩
    let going : Condition := .junction (.relation (.ref ⟨["m", "k"], here⟩) .less (.float 1.5 here)) .and
      (.relation n .greaterEqual (.int 0 here))
    let bits : Expr := .binary (.binary (.int 9 here) .sub (.int 2 here)) .sub (.binary (.int 3 here) .mul (.int 4 here))
    Derives layoutTokens
      [.struct ⟨⟨"s", here⟩, .fixed .big,
        [.member ⟨⟨"x", here⟩, .plain (.data ⟨.unsigned .w8, none, here⟩), .fixed .little, some (.count count)⟩,
         .member ⟨⟨"y", here⟩, .chosen choice, .fixed .big, none⟩,
         .member ⟨⟨"z", here⟩, .plain (.data ⟨.bytes, some (.int 0 here), here⟩), .fixed .big,
          some (.whileTrue going)⟩,
         .selection ⟨n, .single ⟨"v", here⟩
          [⟨.int 1 here, .plain (.data ⟨.signed .w16, none, here⟩), .fixed .big, none⟩], here⟩]⟩,
       .bitfield ⟨⟨"b", here⟩, none, [⟨⟨"x", here⟩, bits⟩]⟩] := by
  intro here n count choice going bits
  apply (@ofTokens_eq_ok_iff_derives layoutTokens (tokenOf .endOfInput none) 90 (by decide) rfl (by decide) _).mp
  rfl

end RecordLayout.Declaration
