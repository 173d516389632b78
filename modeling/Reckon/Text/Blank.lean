import Reckon.Text.Utf8

/-!
# Blank characters

The characters of the Unicode property `White_Space`.  A line is evaluated without the blank
characters at its two ends.
-/

namespace Reckon

/-- Whether a character is white space. -/
def isBlank (c : Char) : Bool :=
  let n := c.toNat
  (0x09 ≤ n && n ≤ 0x0D) || n = 0x20 || n = 0x85 || n = 0xA0 || n = 0x1680
    || (0x2000 ≤ n && n ≤ 0x200A) || n = 0x2028 || n = 0x2029 || n = 0x202F || n = 0x205F
    || n = 0x3000

/-- Whether a unit of a text is a white space character. -/
def Glyph.isBlank : Glyph → Bool
  | .char c => Reckon.isBlank c
  | .stray _ => false

/-- A text without the white space at its two ends. -/
def trimBlank (s : Bytes) : Bytes :=
  let inner := (Utf8.glyphs s).dropWhile Glyph.isBlank
  (inner.reverse.dropWhile Glyph.isBlank).reverse.flatMap Glyph.bytes

end Reckon
