import RecordLayout.Grammar.Member

/-! What faults say of tokens. Some are faults of a construct. The others speak of one token: of one where something
else was wanted, or of a literal, a word or an escape that the reader of its kind does not take. -/

namespace RecordLayout

open RecordLayout.Parser

namespace SyntaxFault

/-- The fault is one of a construct, whatever its tokens read. -/
def isStructural : SyntaxFault → Bool
  | unexpected .. | integerOutOfRange _ | malformedFloat | unknownDataType _ | malformedHexEscape _ => false
  | _ => true

/-- What the fault says is so of one of the tokens. -/
inductive Concerns (tokens : List Token) : SyntaxFault → Prop where
  | structural {fault} (built : fault.isStructural = true) : Concerns tokens fault
  | unexpected {wanted found} (there : found ∈ tokens) : Concerns tokens (.unexpected wanted found)
  | integer {token} (there : token ∈ tokens) (literal : token.kind = .integer)
      (unread : Decimal.int64? token.content.toList = none) : Concerns tokens (.integerOutOfRange token.content)
  | float {token} (there : token ∈ tokens) (literal : token.kind = .float)
      (unread : Decimal.float? token.content.toList = none) : Concerns tokens .malformedFloat
  | dataType {token} (there : token ∈ tokens) (word : token.kind = .dataType)
      (unknown : Primitive.ofName? token.content = none) : Concerns tokens (.unknownDataType token.content)
  | hexEscape {token} (there : token ∈ tokens) (word : token.kind = .identifier)
      (unread : hexEscape? token.content.toList = none) : Concerns tokens (.malformedHexEscape token.content)

variable {tokens others : List Token} {fault : SyntaxFault}

theorem Concerns.mono (concerns : fault.Concerns tokens) (more : tokens ⊆ others) : fault.Concerns others := by
  cases concerns with
  | structural built => exact .structural built
  | unexpected there => exact .unexpected (more there)
  | integer there literal unread => exact .integer (more there) literal unread
  | float there literal unread => exact .float (more there) literal unread
  | dataType there word unknown => exact .dataType (more there) word unknown
  | hexEscape there word unread => exact .hexEscape (more there) word unread

end SyntaxFault

end RecordLayout
