import UnitAssembly.Text.Utf8

/-!
Contract: how a text is written as a C++ string literal.

Owns:
- the spelling of a single byte inside a literal;
- `write`, the literal of a whole text.

A literal holds only printable ASCII.  Question marks are escaped, so no trigraph
can form, and a byte without a name takes exactly three octal digits, the most an
octal escape can take, so a digit that follows it stays a digit.

Does not own: where literals stand in generated code.
-/

namespace UnitAssembly.StringLiteral

def octalDigits (byte : UInt8) : List Char :=
  [Nat.digitChar (byte.toNat / 64), Nat.digitChar (byte.toNat / 8 % 8),
    Nat.digitChar (byte.toNat % 8)]

/-- The spelling of one byte between the quotes of a literal. -/
def writeByte (byte : UInt8) : List Char :=
  if byte = 0x5C then ['\\', '\\']
  else if byte = 0x22 then ['\\', '"']
  else if byte = 0x0A then ['\\', 'n']
  else if byte = 0x0D then ['\\', 'r']
  else if byte = 0x09 then ['\\', 't']
  else if byte = 0x3F then ['\\', '?']
  else if 0x20 ≤ byte ∧ byte ≤ 0x7E then [Char.ofNat byte.toNat]
  else '\\' :: octalDigits byte

def writeBytes (bytes : List UInt8) : List Char :=
  '"' :: (bytes.flatMap writeByte ++ ['"'])

/-- The literal of a text: its UTF-8 bytes, each in its spelling, between quotes. -/
def write (text : String) : String :=
  String.ofList (writeBytes (Text.utf8 text))

end UnitAssembly.StringLiteral
