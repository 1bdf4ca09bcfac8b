/-!
Contract: the characters that count as white space at the start of a line.

Owns:
- the table of code points with the Unicode `White_Space` property;
- the membership test `isBlank`.

Does not own: what a line is, or what is done with the blanks in front of it.
-/

namespace UnitAssembly.Text

/-- The code points with the Unicode `White_Space` property, as closed ranges in
increasing order.  There are 25 of them, and all lie below U+3001. -/
def blankRanges : List (Nat × Nat) :=
  [(0x0009, 0x000D), (0x0020, 0x0020), (0x0085, 0x0085), (0x00A0, 0x00A0),
    (0x1680, 0x1680), (0x2000, 0x200A), (0x2028, 0x2029), (0x202F, 0x202F),
    (0x205F, 0x205F), (0x3000, 0x3000)]

/-- Whether a character is white space.  The line feed is among them, but no line
holds one. -/
def isBlank (character : Char) : Bool :=
  blankRanges.any fun range =>
    range.1 ≤ character.toNat && character.toNat ≤ range.2

end UnitAssembly.Text
