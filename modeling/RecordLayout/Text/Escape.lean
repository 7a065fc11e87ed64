/-!
Escapes in the text of a string or char literal, decoded to bytes. A backslash with `n`, `t`, `r`
or `0` stands for a control byte, with `x` and one or two hexadecimal digits for the byte of that
value, with any other character for that character; a backslash at the end stands for itself.
-/

namespace RecordLayout.Text

/-- The value of a hexadecimal digit, in either case. -/
def hexDigit? (c : Char) : Option Nat :=
  if c.isDigit then some (c.toNat - 0x30)
  else if 0x61 ≤ c.toNat ∧ c.toNat ≤ 0x66 then some (c.toNat - 0x61 + 10)
  else if 0x41 ≤ c.toNat ∧ c.toNat ≤ 0x46 then some (c.toNat - 0x41 + 10)
  else none

/-- The bytes of an escape that is one character after its backslash. -/
def escapeBytes : Char → List UInt8
  | 'n' => [0x0A]
  | 't' => [0x09]
  | 'r' => [0x0D]
  | '0' => [0x00]
  | c => String.utf8EncodeChar c

/-- The bytes that the text of a literal denotes. -/
def unescape : List Char → List UInt8
  | [] => []
  | ['\\'] => [0x5C]
  | ['\\', 'x'] => [0x78]
  | ['\\', 'x', low] =>
    match hexDigit? low with
    | some value => [value.toUInt8]
    | none => 0x78 :: unescape [low]
  | '\\' :: 'x' :: high :: low :: rest =>
    match hexDigit? high, hexDigit? low with
    | some upper, some lower => (16 * upper + lower).toUInt8 :: unescape rest
    | some value, none => value.toUInt8 :: unescape (low :: rest)
    | none, _ => 0x78 :: unescape (high :: low :: rest)
  | '\\' :: c :: rest => escapeBytes c ++ unescape rest
  | c :: rest => String.utf8EncodeChar c ++ unescape rest

end RecordLayout.Text
