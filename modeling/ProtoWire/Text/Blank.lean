import ProtoWire.Text.CodePointRanges

/-!
Contract: the characters that separate words, as the Unicode property `White_Space`
lists them.

Owns:
- the table and the test.

Does not own: what a grammar makes of blanks.
-/

namespace ProtoWire.Text

/-- The property `White_Space`. -/
def blankRanges : CodePointRanges :=
  [(0x9, 0xD), (0x20, 0x20), (0x85, 0x85), (0xA0, 0xA0), (0x1680, 0x1680), (0x2000, 0x200A),
   (0x2028, 0x2029), (0x202F, 0x202F), (0x205F, 0x205F), (0x3000, 0x3000)]

/-- A character that separates words. -/
def isBlank (character : Char) : Bool :=
  blankRanges.contains character

end ProtoWire.Text
