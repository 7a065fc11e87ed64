import RecordLayout.Diagnostic
import RecordLayout.Primitive
import RecordLayout.Token

/-!
Why tokens are not a layout description. Either something else was wanted where a token stands, or
the tokens end, or a construct is wrong in itself. Failures do not know where the tokens end; that
is filled in when they become errors.
-/

namespace RecordLayout

/-- What may stand at a place among the tokens. -/
inductive Expectation where
  | kind (kind : Token.Kind)
  | keyword (word : String)
  | declaration
  | structName
  | bitfieldName
  | bitfieldMemberName
  | memberName
  | selectionName
  | type
  | delimiter
  | comparison
  | expression
  | segment
deriving DecidableEq

namespace Expectation

def describe : Expectation → String
  | .kind wanted => wanted.describe
  | .keyword word => "'" ++ word ++ "'"
  | declaration => "'struct' or 'bitfield'"
  | structName => "struct name"
  | bitfieldName => "bitfield name"
  | bitfieldMemberName => "bitfield member name"
  | memberName => "member name"
  | selectionName => "member name after match block"
  | type => "data type or identifier"
  | delimiter => "delimiter"
  | comparison => "comparison operator"
  | expression => "expression"
  | segment => "identifier after '.'"

/-- The description without quotes at its ends, for a list that puts quotes around it. -/
def bare (wanted : Expectation) : String :=
  let front := wanted.describe.toList.dropWhile (· = '\x27')
  String.ofList (front.reverse.dropWhile (· = '\x27')).reverse

end Expectation

inductive SyntaxFault where
  | unexpected (wanted : Expectation) (found : Token)
  | nestingTooDeep
  | integerOutOfRange (text : String)
  | malformedFloat
  | unknownDataType (text : String)
  | secondDelimiter (primitive : Primitive)
  | bytesWithoutDelimiter
  | malformedHexEscape (text : String)
  /-- What stands before a struct chooses between other things than byte orders. -/
  | notByteOrders
  | noCases
  | mixedCases
  /-- Groups of members have names of their own. -/
  | namedGroups
  | emptyGroup
deriving DecidableEq

def SyntaxFault.message : SyntaxFault → String
  | unexpected wanted found => "expected " ++ wanted.describe ++ ", found " ++ found.describe
  | nestingTooDeep => "nesting too deep"
  | integerOutOfRange text => "integer literal '" ++ text ++ "' out of range"
  | malformedFloat => "malformed float literal"
  | unknownDataType text => "unknown data type '" ++ text ++ "'"
  | secondDelimiter primitive => "delimiter of '" ++ primitive.name ++ "' given twice"
  | bytesWithoutDelimiter =>
    "'bytes' requires a delimiter or length, e.g. bytes(4) or bytes(length)"
  | malformedHexEscape text =>
    "invalid hex escape '\\" ++ text ++ "', expected \\xH or \\xHH"
  | notByteOrders => "struct endian selector must choose between LE and BE"
  | noCases => "match needs at least one case"
  | mixedCases => "match cases mix single-member types and member groups"
  | namedGroups => "a match over member groups does not bind a member name"
  | emptyGroup => "member group needs at least one member"

inductive Failure where
  /-- The tokens end where this was wanted. -/
  | ended (wanted : Expectation)
  /-- A fault of the given span, or of the end of the tokens. -/
  | fault (span : Option Span) (cause : SyntaxFault)
deriving DecidableEq

/-- The error of a failure, with the span that stands for the end of the tokens. -/
def Failure.toError (atEnd : Span) : Failure → CompileError
  | .ended wanted => .expectedMore atEnd [wanted.bare]
  | .fault span cause => .invalidSyntax (span.getD atEnd) cause.message

end RecordLayout
