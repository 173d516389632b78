import Reckon.Double.Basic
import Reckon.Text.Bytes

/-!
# Spelled numbers

A constant is kept as it was written and read again for each arithmetic.  Besides plain decimal
literals, trees built by hand may carry a sign, a base, digit separators and an exponent.  Reading
goes in two steps: the spelling becomes an exact `Numeral`, and the numeral is rounded.
-/

namespace Reckon

/-- An exact number as it was spelled: `± digits / base ^ places * exponentBase ^ exponent`. -/
structure Numeral where
  negative : Bool
  base : Nat
  /-- All digits of the mantissa read as one integer. -/
  digits : Nat
  /-- The number of digits after the point. -/
  places : Nat
  exponentBase : Nat
  exponent : Int
  /-- Whether an exponent was written. -/
  scaled : Bool
  deriving DecidableEq, Repr

namespace Numeral

/-- The separator that may stand between two digits. -/
def separator : UInt8 :=
  0x5F

/-- The decimal point. -/
def point : UInt8 :=
  0x2E

/-- The value of a digit in a base up to sixteen. -/
def digitIn? (base : Nat) (b : UInt8) : Option Nat :=
  (Bytes.hexValue? b).filter (· < base)

/-- The base that a letter after a leading zero announces. -/
def baseOfMark? (b : UInt8) : Option Nat :=
  match Bytes.lowerByte b with
  | 0x62 => some 2
  | 0x6F => some 8
  | 0x78 => some 16
  | _ => none

/-- A sign at the start of a text, and what follows it. -/
def takeSign : Bytes → Bool × Bytes
  | 0x2B :: s => (false, s)
  | 0x2D :: s => (true, s)
  | s => (false, s)

/-- What `separatorsFit` remembers of the byte before. -/
inductive Seen where
  | digit | separator | other
  deriving DecidableEq

/-- Whether each separator stands after a digit and before one; `hex` admits the letters `a` to `f`
as digits. -/
def separatorsFitFrom (hex : Bool) (seen : Seen) : Bytes → Bool
  | [] => seen != .separator
  | b :: s =>
    if (digitIn? (if hex then 16 else 10) b).isSome then separatorsFitFrom hex .digit s
    else if b = separator then seen == .digit && separatorsFitFrom hex .separator s
    else seen != .separator && separatorsFitFrom hex .other s

/-- Whether the separators of an unsigned number stand between digits, a base mark counting as
one. -/
def separatorsFit : Bytes → Bool
  | 0x30 :: mark :: s =>
    match baseOfMark? mark with
    | some base => separatorsFitFrom (base = 16) .digit s
    | none => separatorsFitFrom false .digit (mark :: s)
  | s => separatorsFitFrom false .other s

/-- A mantissa read so far. -/
structure Mantissa where
  digits : Nat
  count : Nat
  /-- The number of digits in front of the point, once there was one. -/
  pointAt : Option Nat

/-- The number of digits after the point. -/
def Mantissa.places (m : Mantissa) : Nat :=
  match m.pointAt with
  | some n => m.count - n
  | none => 0

/-- Reads digits, separators and at most one point. -/
def takeMantissa (base : Nat) (m : Mantissa) : Bytes → Mantissa × Bytes
  | [] => (m, [])
  | b :: s =>
    if b = separator then takeMantissa base m s
    else if b = point && m.pointAt.isNone then
      takeMantissa base { m with pointAt := some m.count } s
    else match digitIn? base b with
      | some d =>
        takeMantissa base { m with digits := m.digits * base + d, count := m.count + 1 } s
      | none => (m, b :: s)

/-- Reads the sign and digits after an exponent mark; the digits end the text. -/
def exponentDigits? (s : Bytes) : Option (Bool × Bytes) :=
  let (negative, s) := takeSign s
  let ds := s.filter (· != separator)
  if ds.isEmpty || !ds.all Bytes.isDigit then none else some (negative, ds)

/-- An integer of the given sign. -/
def signed (negative : Bool) (n : Nat) : Int :=
  if negative then -(n : Int) else n

/-- The base of an unsigned number that is decimal or hexadecimal, and what follows the base mark. -/
def takeHexMark (body : Bytes) : Nat × Bytes :=
  match body with
  | 0x30 :: mark :: rest => if Bytes.lowerByte mark = 0x78 then (16, rest) else (10, body)
  | _ => (10, body)

/-- The base of an unsigned number in any base that has a mark, and what follows the mark. -/
def takeMark (body : Bytes) : Nat × Bytes :=
  match body with
  | 0x30 :: mark :: rest =>
    match baseOfMark? mark with
    | some base => (base, rest)
    | none => (10, body)
  | _ => (10, body)

/-- Reads a number for double precision: decimal with an optional exponent to base ten, or
hexadecimal with an exponent to base two.  An exponent stops growing once it reaches five digits. -/
def readDouble? (s : Bytes) : Option Numeral :=
  let (negative, body) := takeSign s
  let (base, digitsPart) := takeHexMark body
  let (m, rest) := takeMantissa base ⟨0, 0, none⟩ digitsPart
  if m.count = 0 || !separatorsFit body then none
  else
    let plain : Numeral := ⟨negative, base, m.digits, m.places, 10, 0, false⟩
    match rest with
    | [] => if base = 16 then none else some plain
    | mark :: s =>
      let wanted : UInt8 := if base = 16 then 0x70 else 0x65
      if Bytes.lowerByte mark != wanted then none
      else
        (exponentDigits? s).map fun (minus, ds) =>
          let e := ds.foldl
            (fun e d => if e < 10000 then e * 10 + Bytes.digitValue d else e) 0
          { plain with
            exponentBase := if base = 16 then 2 else 10
            exponent := signed minus e
            scaled := true }

/-- Reads a number for arbitrary precision: a base of two, eight, ten or sixteen, and an optional
exponent to base ten or two that fits in 64 bits. -/
def readWide? (s : Bytes) : Option Numeral :=
  let (negative, body) := takeSign s
  let (base, digitsPart) := takeMark body
  let (m, rest) := takeMantissa base ⟨0, 0, none⟩ digitsPart
  if m.count = 0 || !separatorsFit body then none
  else
    let plain : Numeral := ⟨negative, base, m.digits, m.places, 10, 0, false⟩
    match rest with
    | [] => some plain
    | mark :: s =>
      let exponentBase? : Option Nat :=
        match Bytes.lowerByte mark with
        | 0x65 => some 10
        | 0x70 => some 2
        | _ => none
      exponentBase?.bind fun exponentBase =>
        (exponentDigits? s).bind fun (minus, ds) =>
          let e := signed minus (Bytes.natOfDigits ds)
          if -(Int.pow 2 63) ≤ e && e < Int.pow 2 63 then
            some { plain with exponentBase, exponent := e, scaled := true }
          else none

/-- The double precision number nearest to a numeral.  A decimal exponent far outside the range is
settled before any power of ten is computed. -/
def toDouble (n : Numeral) : Float :=
  if n.digits = 0 then Double.ofMagnitudeBits n.negative 0
  else if n.base = 10 then
    let e := n.exponent - n.places
    if e > 400 then Double.ofMagnitudeBits n.negative Double.infinityBits
    else if 3 * e + n.digits.log2 < -1100 then Double.ofMagnitudeBits n.negative 0
    else match e with
      | .ofNat k => Double.ofRatio n.negative (n.digits * Nat.pow 10 k) 1 0
      | .negSucc k => Double.ofRatio n.negative n.digits (Nat.pow 10 (k + 1)) 0
  else Double.ofScaled n.negative n.digits (n.exponent - 4 * n.places)

end Numeral

namespace Double

/-- The names of the numbers that are not finite, in lower case and without a sign. -/
def named? (s : Bytes) : Option Float :=
  let (negative, body) := Numeral.takeSign s
  let word := Bytes.lower body
  if word = ("inf" : Bytes) || word = ("infinity" : Bytes) then
    some (ofMagnitudeBits negative infinityBits)
  else if Bytes.lower s = ("nan" : Bytes) then some nan
  else none

/-- Reads a double precision number; `none` when the text is not a number. -/
def read? (s : Bytes) : Option Float :=
  match named? s with
  | some x => some x
  | none => (Numeral.readDouble? s).map Numeral.toDouble

/-- Reads a double precision number, zero when the text is not one. -/
def readOrZero (s : Bytes) : Float :=
  (read? s).getD 0.0

end Double
end Reckon
