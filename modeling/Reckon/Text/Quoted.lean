import Reckon.Text.Printable
import Reckon.Text.Utf8

/-!
# Quoted text

Error messages show a literal or a character between quotes.  Printable characters stand for
themselves; the quote in use and the backslash are escaped; control characters have a short name
or a hexadecimal escape; a stray byte is written `\x` and its two digits.
-/

namespace Reckon
namespace Quoted

/-- The backslash, which opens every escape. -/
def backslash : UInt8 :=
  0x5C

/-- The letter of a control character that has a short escape. -/
def shortEscape? (n : Nat) : Option Char :=
  match n with
  | 0x07 => some 'a'
  | 0x08 => some 'b'
  | 0x0C => some 'f'
  | 0x0A => some 'n'
  | 0x0D => some 'r'
  | 0x09 => some 't'
  | 0x0B => some 'v'
  | _ => none

/-- A byte written as a hexadecimal escape. -/
def hexEscape (n : Nat) : Bytes :=
  backslash :: Bytes.ofAscii 'x' :: Bytes.hexOfNat 2 n

/-- A character as it is written between quotes of the given kind. -/
def escapeChar (quote : UInt8) (c : Char) : Bytes :=
  let n := c.toNat
  if n = quote.toNat || n = backslash.toNat then [backslash, n.toUInt8]
  else if isPrintable c then Utf8.encode c
  else match shortEscape? n with
    | some e => [backslash, Bytes.ofAscii e]
    | none =>
      if n < 0x20 || n = 0x7F then hexEscape n
      else if n < 0x10000 then backslash :: Bytes.ofAscii 'u' :: Bytes.hexOfNat 4 n
      else backslash :: Bytes.ofAscii 'U' :: Bytes.hexOfNat 8 n

/-- A unit of a text as it is written between quotes of the given kind. -/
def escape (quote : UInt8) : Glyph → Bytes
  | .char c => escapeChar quote c
  | .stray b => hexEscape b.toNat

/-- The double quote. -/
def doubleQuote : UInt8 :=
  0x22

/-- The single quote. -/
def singleQuote : UInt8 :=
  0x27

/-- Units of a text between double quotes. -/
def ofGlyphs (gs : List Glyph) : Bytes :=
  doubleQuote :: gs.flatMap (escape doubleQuote) ++ [doubleQuote]

/-- A text between double quotes. -/
def text (s : Bytes) : Bytes :=
  ofGlyphs (Utf8.glyphs s)

/-- The first `n` characters of a text between double quotes. -/
def leading (n : Nat) (s : Bytes) : Bytes :=
  ofGlyphs ((Utf8.glyphs s).take n)

/-- A character between single quotes. -/
def char (c : Char) : Bytes :=
  singleQuote :: escapeChar singleQuote c ++ [singleQuote]

end Quoted
end Reckon
