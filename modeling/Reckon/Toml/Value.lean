import Reckon.Numeral
import Reckon.Text.Utf8

/-!
# Values of a TOML document

Strings, numbers, booleans, dates and arrays.  Of the values that no setting can take (floating point
numbers, dates and arrays) only the kind is kept.
-/

namespace Reckon
namespace Toml

/-- A value that is not a table. -/
inductive Value where
  | string (text : Bytes)
  | integer (n : Int)
  | boolean (b : Bool)
  | float
  | moment
  | array
  deriving DecidableEq, Repr

/-- A value and the rest of the text, or nothing when the text is malformed. -/
abbrev Reading (α : Type) := Option (α × Bytes)

/-- Whether a byte is a blank inside a line. -/
def isBlank (b : UInt8) : Bool :=
  b = 0x20 || b = 0x09

/-- The text after the blanks at its start. -/
def skipBlanks (s : Bytes) : Bytes :=
  s.dropWhile isBlank

/-- The text after a line break at its start. -/
def lineBreak? : Bytes → Option Bytes
  | 0x0A :: s => some s
  | 0x0D :: 0x0A :: s => some s
  | _ => none

/-- The text after a comment at its start, up to the end of the line. -/
def skipComment : Bytes → Bytes
  | 0x23 :: s => s.dropWhile (fun b => b != 0x0A && b != 0x0D)
  | s => s

/-- Whether a byte may stand in a key without quotes. -/
def isBare (b : UInt8) : Bool :=
  Bytes.isDigit b || (0x61 ≤ b && b ≤ 0x7A) || (0x41 ≤ b && b ≤ 0x5A) || b = 0x5F || b = 0x2D

/-! ## Strings -/

/-- The number spelled by `count` hexadecimal digits. -/
def takeHex (count : Nat) (s : Bytes) : Reading Nat :=
  let digits := (s.take count).filterMap Bytes.hexValue?
  if digits.length = count then some (digits.foldl (fun n d => 16 * n + d) 0, s.drop count)
  else none

/-- The bytes of a code point, unless it is a surrogate or too large. -/
def encodeScalar? (n : Nat) : Option Bytes :=
  if n < 0xD800 || (0xE000 ≤ n && n < 0x110000) then some (Utf8.encode (Char.ofNat n)) else none

/-- The bytes of an escape after its backslash. -/
def takeEscape : Bytes → Reading Bytes
  | 0x62 :: s => some ([0x08], s)
  | 0x74 :: s => some ([0x09], s)
  | 0x6E :: s => some ([0x0A], s)
  | 0x66 :: s => some ([0x0C], s)
  | 0x72 :: s => some ([0x0D], s)
  | 0x22 :: s => some ([0x22], s)
  | 0x5C :: s => some ([0x5C], s)
  | 0x75 :: s =>
    (takeHex 4 s).bind fun (n, s) => (encodeScalar? n).map fun bytes => (bytes, s)
  | 0x55 :: s =>
    (takeHex 8 s).bind fun (n, s) => (encodeScalar? n).map fun bytes => (bytes, s)
  | _ => none

/-- A string on one line after its opening quote; `done` holds what was read, in reverse. -/
def takeBasic : (fuel : Nat) → (done s : Bytes) → Reading Bytes
  | 0, _, _ => none
  | _, _, [] => none
  | fuel + 1, done, b :: s =>
    if b = 0x22 then some (done.reverse, s)
    else if b = 0x0A || b = 0x0D then none
    else if b = 0x5C then
      (takeEscape s).bind fun (bytes, s) => takeBasic fuel (bytes.reverse ++ done) s
    else takeBasic fuel (b :: done) s

/-- A string without escapes after its opening quote. -/
def takeLiteral (s : Bytes) : Reading Bytes :=
  let text := s.takeWhile (fun b => b != 0x27 && b != 0x0A && b != 0x0D)
  match s.drop text.length with
  | 0x27 :: rest => some (text, rest)
  | _ => none

/-- The text after the three quotes that end a string over several lines, and the quotes in front of
them that belong to the string. -/
def closeQuotes? (quote : UInt8) (s : Bytes) : Reading Bytes :=
  let quotes := s.takeWhile (· = quote)
  if quotes.length < 3 then none
  else
    let extra := min (quotes.length - 3) 2
    some (List.replicate extra quote, s.drop (extra + 3))

/-- The text after a backslash at the end of a line: blanks and line breaks are skipped. -/
def continuation? (s : Bytes) : Option Bytes :=
  let rest := skipBlanks s
  (lineBreak? rest).map fun s =>
    s.dropWhile (fun b => isBlank b || b = 0x0A || b = 0x0D)

/-- A string over several lines after its opening quotes. -/
def takeMultiBasic : (fuel : Nat) → (done s : Bytes) → Reading Bytes
  | 0, _, _ => none
  | _, _, [] => none
  | fuel + 1, done, b :: s =>
    if b = 0x22 then
      match closeQuotes? 0x22 (b :: s) with
      | some (extra, rest) => some (done.reverse ++ extra, rest)
      | none => takeMultiBasic fuel (b :: done) s
    else if b = 0x5C then
      match continuation? s with
      | some rest => takeMultiBasic fuel done rest
      | none =>
        (takeEscape s).bind fun (bytes, s) => takeMultiBasic fuel (bytes.reverse ++ done) s
    else takeMultiBasic fuel (b :: done) s

/-- A string without escapes over several lines after its opening quotes. -/
def takeMultiLiteral : (fuel : Nat) → (done s : Bytes) → Reading Bytes
  | 0, _, _ => none
  | _, _, [] => none
  | fuel + 1, done, b :: s =>
    if b = 0x27 then
      match closeQuotes? 0x27 (b :: s) with
      | some (extra, rest) => some (done.reverse ++ extra, rest)
      | none => takeMultiLiteral fuel (b :: done) s
    else takeMultiLiteral fuel (b :: done) s

/-- A string of any kind.  A line break just after three opening quotes is dropped. -/
def takeString (s : Bytes) : Reading Bytes :=
  match s with
  | 0x22 :: 0x22 :: 0x22 :: s => takeMultiBasic (s.length + 1) [] ((lineBreak? s).getD s)
  | 0x27 :: 0x27 :: 0x27 :: s => takeMultiLiteral (s.length + 1) [] ((lineBreak? s).getD s)
  | 0x22 :: s => takeBasic (s.length + 1) [] s
  | 0x27 :: s => takeLiteral s
  | _ => none

/-! ## Keys -/

/-- A part of a key: bare, or a string on one line. -/
def takeKeyPart (s : Bytes) : Reading Bytes :=
  match s with
  | 0x22 :: s => takeBasic (s.length + 1) [] s
  | 0x27 :: s => takeLiteral s
  | s =>
    let bare := s.takeWhile isBare
    if bare.isEmpty then none else some (bare, s.drop bare.length)

/-- The parts of a key, with points between them and blanks around those. -/
def takeKey : (fuel : Nat) → (s : Bytes) → Reading (List Bytes)
  | 0, _ => none
  | fuel + 1, s =>
    (takeKeyPart (skipBlanks s)).bind fun (part, s) =>
      match skipBlanks s with
      | 0x2E :: rest => (takeKey fuel rest).map fun (parts, s) => (part :: parts, s)
      | rest => some ([part], rest)

/-! ## Numbers and dates -/

/-- Whether a byte can be part of a number or date. -/
def isNumberByte (b : UInt8) : Bool :=
  isBare b || b = 0x2B || b = 0x2E || b = 0x3A

/-- The digits of a number in a base, with single separators between digits. -/
def digits? (base : Nat) (s : Bytes) : Option Nat :=
  let ds := s.filter (· != Numeral.separator)
  if ds.isEmpty || !ds.all (fun b => (Numeral.digitIn? base b).isSome) ||
      !Numeral.separatorsFitFrom (base = 16) .other s then none
  else some (ds.foldl (fun n b => base * n + (Numeral.digitIn? base b).getD 0) 0)

/-- The digits of a decimal number without leading zeros. -/
def decimal? (s : Bytes) : Option Nat :=
  match s with
  | 0x30 :: _ :: _ => none
  | s => digits? 10 s

/-- An integer in 64 bits. -/
def inRange? (n : Int) : Option Value :=
  if -(Int.pow 2 63) ≤ n && n < Int.pow 2 63 then some (.integer n) else none

/-- An integer. -/
def integer? (s : Bytes) : Option Value :=
  match s with
  | 0x30 :: 0x78 :: ds => (digits? 16 ds).bind fun n => inRange? n
  | 0x30 :: 0x6F :: ds => (digits? 8 ds).bind fun n => inRange? n
  | 0x30 :: 0x62 :: ds => (digits? 2 ds).bind fun n => inRange? n
  | s =>
    let (negative, body) := Numeral.takeSign s
    (decimal? body).bind fun n => inRange? (Numeral.signed negative n)

/-- Whether a text is the exponent of a floating point number, or empty. -/
def isExponent (s : Bytes) : Bool :=
  match s with
  | [] => true
  | mark :: s => Bytes.lowerByte mark = 0x65 && (digits? 10 (Numeral.takeSign s).2).isSome

/-- Whether a text is a floating point number. -/
def isFloat (s : Bytes) : Bool :=
  let body := (Numeral.takeSign s).2
  if body = ("inf" : Bytes) || body = ("nan" : Bytes) then true
  else
    let isPart (b : UInt8) : Bool := Bytes.isDigit b || b = Numeral.separator
    let whole := body.takeWhile isPart
    let rest := body.drop whole.length
    (decimal? whole).isSome && match rest with
      | 0x2E :: rest =>
        let frac := rest.takeWhile isPart
        (digits? 10 frac).isSome && isExponent (rest.drop frac.length)
      | [] => false
      | rest => isExponent rest

/-- A number of exactly `width` digits between two bounds. -/
def bounded (width low high : Nat) (s : Bytes) : Bool :=
  s.length = width && s.all Bytes.isDigit && low ≤ Bytes.natOfDigits s &&
    Bytes.natOfDigits s ≤ high

/-- The days of a month. -/
def daysIn (year month : Nat) : Nat :=
  if month = 2 then
    if (year % 4 = 0 && year % 100 != 0) || year % 400 = 0 then 29 else 28
  else if month = 4 || month = 6 || month = 9 || month = 11 then 30
  else 31

/-- Whether a text is a date. -/
def isDate (s : Bytes) : Bool :=
  match Bytes.splitOn 0x2D s with
  | [y, m, d] =>
    bounded 4 0 9999 y && bounded 2 1 12 m &&
      bounded 2 1 (daysIn (Bytes.natOfDigits y) (Bytes.natOfDigits m)) d
  | _ => false

/-- Whether a text is a time of day. -/
def isTime (s : Bytes) : Bool :=
  match Bytes.splitOn 0x3A s with
  | [h, m, sec] =>
    let (whole, frac) := (sec.takeWhile (· != 0x2E), sec.dropWhile (· != 0x2E))
    bounded 2 0 23 h && bounded 2 0 59 m && bounded 2 0 59 whole &&
      (frac.isEmpty || (frac.length > 1 && (frac.drop 1).all Bytes.isDigit))
  | _ => false

/-- Whether a text is a time of day with an optional offset. -/
def isOffsetTime (s : Bytes) : Bool :=
  match s.getLast? with
  | some 0x5A | some 0x7A => isTime s.dropLast
  | _ =>
    let offset := s.drop (s.length - 6)
    match offset with
    | sign :: rest =>
      if sign = 0x2B || sign = 0x2D then
        isTime (s.take (s.length - 6)) && match Bytes.splitOn 0x3A rest with
          | [h, m] => bounded 2 0 23 h && bounded 2 0 59 m
          | _ => false
      else isTime s
    | [] => false

/-- Whether a text is a date, a time, or both. -/
def isMoment (s : Bytes) : Bool :=
  isDate s || isTime s ||
    (isDate (s.take 10) && match s.drop 10 with
      | mark :: rest => (mark = 0x54 || mark = 0x74 || mark = 0x20) && isOffsetTime rest
      | [] => false)

/-- The bytes of a number or date.  A date may be followed by a blank and a time. -/
def numberWord (s : Bytes) : Bytes :=
  let word := s.takeWhile isNumberByte
  match s.drop word.length with
  | 0x20 :: d :: rest =>
    if isDate word && Bytes.isDigit d then
      word ++ 0x20 :: (d :: rest).takeWhile isNumberByte
    else word
  | _ => word

/-- A number, a date or a boolean. -/
def takeWord (s : Bytes) : Reading Value :=
  let word := numberWord s
  let value? : Option Value :=
    if word = ("true" : Bytes) then some (.boolean true)
    else if word = ("false" : Bytes) then some (.boolean false)
    else match integer? word with
      | some v => some v
      | none => if isFloat word then some .float else if isMoment word then some .moment else none
  value?.map fun v => (v, s.drop word.length)

end Toml
end Reckon
