import Reckon.Text.Utf8

/-!
# Strings in JSON

A string is written between double quotes.  Besides what must be escaped, the characters that have a
meaning in HTML and the two line separators of Unicode are escaped, so that a text can stand inside a
page or a script.  A reader accepts every escape and replaces what is not well formed.
-/

namespace Reckon
namespace Json

/-- The double quote. -/
def quote : UInt8 :=
  0x22

/-- The backslash. -/
def backslash : UInt8 :=
  0x5C

/-! ## Writing -/

/-- An escape by code point. -/
def codeEscape (n : Nat) : Bytes :=
  backslash :: 0x75 :: Bytes.hexOfNat 4 n

/-- A character as it is written between quotes. -/
def escape (c : Char) : Bytes :=
  let n := c.toNat
  match n with
  | 0x22 => [backslash, 0x22]
  | 0x5C => [backslash, 0x5C]
  | 0x08 => [backslash, 0x62]
  | 0x0C => [backslash, 0x66]
  | 0x0A => [backslash, 0x6E]
  | 0x0D => [backslash, 0x72]
  | 0x09 => [backslash, 0x74]
  | _ =>
    if n < 0x20 || n = 0x3C || n = 0x3E || n = 0x26 || n = 0x2028 || n = 0x2029 then codeEscape n
    else Utf8.encode c

/-- A unit of a text as it is written between quotes, where `stray` spells a stray byte. -/
def escapeGlyph (stray : Bytes) : Glyph → Bytes
  | .char c => escape c
  | .stray _ => stray

/-- A text as a string.  A stray byte is written as U+FFFD, either as the character itself or as
another of its spellings. -/
def ofText (s : Bytes) (stray : Bytes := Utf8.encode Utf8.replacement) : Bytes :=
  quote :: (Utf8.glyphs s).flatMap (escapeGlyph stray) ++ [quote]

/-! ## Reading -/

/-- The number spelled by four hexadecimal digits at the start of a text. -/
def fourHex? (s : Bytes) : Option Nat :=
  let digits := (s.take 4).filterMap Bytes.hexValue?
  if digits.length = 4 then some (digits.foldl (fun n d => 16 * n + d) 0) else none

/-- The character of two surrogates. -/
def ofSurrogates? (high low : Nat) : Option Char :=
  if 0xD800 ≤ high && high < 0xDC00 && 0xDC00 ≤ low && low < 0xE000 then
    some (Char.ofNat (0x10000 + (high - 0xD800) * 0x400 + (low - 0xDC00)))
  else none

/-- The character of an escape by code point after its `u`, and the rest.  Two escapes may make one
character; a surrogate on its own is read as U+FFFD. -/
def takeCode (s : Bytes) : Option (Char × Bytes) :=
  (fourHex? s).map fun n =>
    let rest := s.drop 4
    if n < 0xD800 || 0xE000 ≤ n then (Char.ofNat n, rest)
    else
      let pair? : Option Char :=
        match rest with
        | 0x5C :: 0x75 :: more => (fourHex? more).bind (ofSurrogates? n)
        | _ => none
      match pair? with
      | some c => (c, rest.drop 6)
      | none => (Utf8.replacement, rest)

/-- The character of an escape after its backslash, and the rest. -/
def takeEscape (s : Bytes) : Option (Char × Bytes) :=
  match s with
  | 0x22 :: rest => some ('"', rest)
  | 0x5C :: rest => some ('\\', rest)
  | 0x2F :: rest => some ('/', rest)
  | 0x62 :: rest => some (Char.ofNat 0x08, rest)
  | 0x66 :: rest => some (Char.ofNat 0x0C, rest)
  | 0x6E :: rest => some ('\n', rest)
  | 0x72 :: rest => some ('\r', rest)
  | 0x74 :: rest => some ('\t', rest)
  | 0x75 :: rest => takeCode rest
  | _ => none

/-- The bytes of a string after its opening quote, and the rest; `done` holds what was read, in
reverse. -/
def takeStringFrom : (fuel : Nat) → (done s : Bytes) → Option (Bytes × Bytes)
  | 0, _, _ => none
  | _, _, [] => none
  | fuel + 1, done, b :: s =>
    if b = quote then some (Utf8.sanitize done.reverse, s)
    else if b < 0x20 then none
    else if b = backslash then
      match takeEscape s with
      | some (c, s) => takeStringFrom fuel ((Utf8.encode c).reverse ++ done) s
      | none => none
    else takeStringFrom fuel (b :: done) s

/-- A string at the start of a text, and the rest. -/
def takeString (s : Bytes) : Option (Bytes × Bytes) :=
  match s with
  | 0x22 :: rest => takeStringFrom (rest.length + 1) [] rest
  | _ => none

end Json
end Reckon
