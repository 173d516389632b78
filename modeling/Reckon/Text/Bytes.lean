/-!
# Byte strings

Expressions, format strings, prompts and request bodies are sequences of bytes that need not be
well-formed text.  Every text the calculator reads or writes is therefore a list of bytes, and a
string literal stands for the bytes of its encoding.
-/

namespace Reckon

/-- A text as the bytes that are read or written. -/
abbrev Bytes := List UInt8

namespace Bytes

/-- The bytes of a string's encoding. -/
def ofString (s : String) : Bytes :=
  s.toUTF8.data.toList

instance : Coe String Bytes :=
  ⟨ofString⟩

/-- The byte of an ASCII character. -/
def ofAscii (c : Char) : UInt8 :=
  c.toNat.toUInt8

/-- The decimal digits of a natural number, without leading zeros. -/
def ofNat (n : Nat) : Bytes :=
  (Nat.toDigits 10 n).map ofAscii

/-- The decimal digits of an integer, with a minus sign when it is negative. -/
def ofInt : Int → Bytes
  | .ofNat n => ofNat n
  | .negSucc n => 0x2D :: ofNat (n + 1)

/-- Whether a byte is one of the ten decimal digits. -/
def isDigit (b : UInt8) : Bool :=
  0x30 ≤ b && b ≤ 0x39

/-- The number a decimal digit stands for. -/
def digitValue (b : UInt8) : Nat :=
  b.toNat - 0x30

/-- The number a sequence of decimal digits stands for. -/
def natOfDigits (ds : Bytes) : Nat :=
  ds.foldl (fun n d => 10 * n + digitValue d) 0

/-- The lower-case form of an ASCII letter; every other byte is kept. -/
def lowerByte (b : UInt8) : UInt8 :=
  if 0x41 ≤ b && b ≤ 0x5A then b + 0x20 else b

/-- The upper-case form of an ASCII letter; every other byte is kept. -/
def upperByte (b : UInt8) : UInt8 :=
  if 0x61 ≤ b && b ≤ 0x7A then b - 0x20 else b

/-- A text with its ASCII letters in lower case. -/
def lower (s : Bytes) : Bytes :=
  s.map lowerByte

/-- A text with its ASCII letters in upper case. -/
def upper (s : Bytes) : Bytes :=
  s.map upperByte

/-- The digit of a hexadecimal or smaller base, in lower case. -/
def hexDigit (n : Nat) : UInt8 :=
  if n < 10 then (0x30 + n).toUInt8 else (0x57 + n).toUInt8

/-- The lowest `width` hexadecimal digits of `n`, the highest first. -/
def hexOfNat (width n : Nat) : Bytes :=
  (List.range width).reverse.map fun i => hexDigit (n / Nat.pow 16 i % 16)

/-- The value of a hexadecimal digit of either case. -/
def hexValue? (b : UInt8) : Option Nat :=
  if isDigit b then some (digitValue b)
  else if 0x61 ≤ b && b ≤ 0x66 then some (b.toNat - 0x57)
  else if 0x41 ≤ b && b ≤ 0x46 then some (b.toNat - 0x37)
  else none

/-- The text without a leading part, when it starts with that part. -/
def dropLeading? : (part s : Bytes) → Option Bytes
  | [], s => some s
  | _ :: _, [] => none
  | p :: part, b :: s => if p = b then dropLeading? part s else none

/-- Whether a text starts with a given part. -/
def startsWith (s part : Bytes) : Bool :=
  (dropLeading? part s).isSome

/-- The pieces of a text between the occurrences of a byte, at least one. -/
def splitOn (sep : UInt8) (s : Bytes) : List Bytes :=
  let (last, done) := s.foldl
    (fun (cur, done) b => if b = sep then ([], cur.reverse :: done) else (b :: cur, done))
    (([] : Bytes), ([] : List Bytes))
  (last.reverse :: done).reverse

/-- Texts written one after the other with a separator between neighbours. -/
def join (sep : Bytes) : List Bytes → Bytes
  | [] => []
  | [s] => s
  | s :: rest => s ++ rest.flatMap (sep ++ ·)

/-- A text with the bytes of a class removed from its end. -/
def dropEndWhile (p : UInt8 → Bool) (s : Bytes) : Bytes :=
  (s.reverse.dropWhile p).reverse

end Bytes
end Reckon
