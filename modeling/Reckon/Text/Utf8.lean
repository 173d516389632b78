import Reckon.Text.Bytes

/-!
# Characters of a byte string

A byte string is read as a sequence of characters in UTF-8.  A byte that starts no well-formed
character is a *stray byte*: it is kept as such, counts as one character wherever characters are
counted, and stands for U+FFFD wherever a character is asked for.
-/

namespace Reckon

/-- One unit of a byte string: a well-formed character, or a byte that belongs to none. -/
inductive Glyph where
  | char (c : Char)
  | stray (b : UInt8)
  deriving DecidableEq, Repr

namespace Utf8

/-- The character that stands for what cannot be decoded. -/
def replacement : Char :=
  Char.ofNat 0xFFFD

/-- Whether a byte continues a character started before it. -/
def isTail (b : UInt8) : Bool :=
  0x80 ≤ b && b ≤ 0xBF

/-- Whether `c` may follow `b` as the second byte of a character of three or four bytes.  The
bounds exclude overlong forms, surrogates and what lies past U+10FFFF. -/
def isSecond (b c : UInt8) : Bool :=
  let low : UInt8 := if b = 0xE0 then 0xA0 else if b = 0xF0 then 0x90 else 0x80
  let high : UInt8 := if b = 0xED then 0x9F else if b = 0xF4 then 0x8F else 0xBF
  low ≤ c && c ≤ high

/-- The six payload bits of a continuation byte. -/
def payload (b : UInt8) : Nat :=
  b.toNat % 64

/-- The first unit of the text `b :: rest`, and what follows it. -/
def front (b : UInt8) (rest : Bytes) : Glyph × Bytes :=
  if b < 0x80 then
    (.char (Char.ofNat b.toNat), rest)
  else if 0xC2 ≤ b && b ≤ 0xDF then
    match rest with
    | c :: rest₁ =>
      if isTail c then
        (.char (Char.ofNat (b.toNat % 32 * 64 + payload c)), rest₁)
      else (.stray b, rest)
    | [] => (.stray b, rest)
  else if 0xE0 ≤ b && b ≤ 0xEF then
    match rest with
    | c :: d :: rest₁ =>
      if isSecond b c && isTail d then
        (.char (Char.ofNat (b.toNat % 16 * 4096 + payload c * 64 + payload d)), rest₁)
      else (.stray b, rest)
    | _ => (.stray b, rest)
  else if 0xF0 ≤ b && b ≤ 0xF4 then
    match rest with
    | c :: d :: e :: rest₁ =>
      if isSecond b c && isTail d && isTail e then
        (.char (Char.ofNat
          (b.toNat % 8 * 262144 + payload c * 4096 + payload d * 64 + payload e)), rest₁)
      else (.stray b, rest)
    | _ => (.stray b, rest)
  else (.stray b, rest)

/-- Reading one unit takes at least its first byte. -/
theorem length_front_le (b : UInt8) (rest : Bytes) :
    (front b rest).2.length ≤ rest.length := by
  unfold front
  repeat' split
  all_goals simp_all
  all_goals omega

/-- The units of a text after those already collected, the latest first. -/
def glyphsOnto (done : List Glyph) : Bytes → List Glyph
  | [] => done.reverse
  | b :: rest => glyphsOnto ((front b rest).1 :: done) (front b rest).2
termination_by s => s.length
decreasing_by
  have := length_front_le b rest
  simp only [List.length_cons]
  omega

/-- The units of a text, in order. -/
def glyphs (s : Bytes) : List Glyph :=
  glyphsOnto [] s

/-- The bytes of a character. -/
def encode (c : Char) : Bytes :=
  let n := c.toNat
  if n < 0x80 then [n.toUInt8]
  else if n < 0x800 then [(0xC0 + n / 64).toUInt8, (0x80 + n % 64).toUInt8]
  else if n < 0x10000 then
    [(0xE0 + n / 4096).toUInt8, (0x80 + n / 64 % 64).toUInt8, (0x80 + n % 64).toUInt8]
  else
    [(0xF0 + n / 262144).toUInt8, (0x80 + n / 4096 % 64).toUInt8,
      (0x80 + n / 64 % 64).toUInt8, (0x80 + n % 64).toUInt8]

/-- Whether a text has no stray byte. -/
def isValid (s : Bytes) : Bool :=
  (glyphs s).all fun
    | .char _ => true
    | .stray _ => false

end Utf8

namespace Glyph

/-- The character a unit stands for. -/
def toChar : Glyph → Char
  | .char c => c
  | .stray _ => Utf8.replacement

/-- The bytes a unit was read from. -/
def bytes : Glyph → Bytes
  | .char c => Utf8.encode c
  | .stray b => [b]

end Glyph

namespace Utf8

/-- The characters of a text, a stray byte read as U+FFFD. -/
def chars (s : Bytes) : List Char :=
  (glyphs s).map Glyph.toChar

/-- The bytes of a sequence of characters. -/
def ofChars (cs : List Char) : Bytes :=
  cs.flatMap encode

/-- A text with every stray byte replaced by U+FFFD. -/
def sanitize (s : Bytes) : Bytes :=
  ofChars (chars s)

/-- The character at the start of a text, if the text is not empty. -/
def head? : Bytes → Option Char
  | [] => none
  | b :: rest => some (front b rest).1.toChar

end Utf8
end Reckon
