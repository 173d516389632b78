import Reckon.Double.Text
import Reckon.Format.Spec

/-!
# Formatting double precision numbers

The verbs `e E f F g G v` write decimals, `b` a decimal mantissa with a binary exponent, and `x X` a
hexadecimal mantissa with a binary exponent.
-/

namespace Reckon
namespace Format

/-- A double precision number as a source of decimals. -/
def doubleSource (x : Float) : Source :=
  ⟨Double.exactDecimal x, fun _ => Double.shortestDecimal x⟩

/-- A mantissa with a binary exponent, both in decimal. -/
def doubleBinary (x : Float) : Bytes :=
  let (m, e) := Double.unpack x
  Bytes.ofNat m ++ 0x70 :: (if e < 0 then [] else [0x2B]) ++ Bytes.ofInt e

/-- The hexadecimal digits after the point of a mantissa in `[1, 2)`, given as `2 ^ bits` times it;
with no precision, as many as are not zero at the end. -/
def hexFraction (m bits : Nat) (precision : Option Nat) : Bytes :=
  let places := (bits + 3) / 4
  let digits := Bytes.hexOfNat places ((m % Nat.pow 2 bits) <<< (4 * places - bits))
  let shown := match precision with
    | none => Bytes.dropEndWhile (· = 0x30) digits
    | some n => digits.take n ++ List.replicate (n - places) 0x30
  if shown.isEmpty then [] else 0x2E :: shown

/-- A hexadecimal mantissa with a binary exponent, the letters in lower case. -/
def doubleHex (x : Float) (precision : Option Nat) : Bytes :=
  let (m, e) := Double.unpack x
  if m = 0 then
    "0x0" ++ hexFraction 0 0 precision ++ "p+00"
  else
    let size := m.log2
    let (m, bits, e) : Nat × Nat × Int := match precision with
      | some n =>
        if 4 * n < size then
          let rounded := Rounding.nearest m (Nat.pow 2 (size - 4 * n))
          if rounded = Nat.pow 2 (4 * n + 1) then (rounded / 2, 4 * n, e + size + 1)
          else (rounded, 4 * n, e + size)
        else (m, size, e + size)
      | none => (m, size, e + size)
    "0x1" ++ hexFraction m bits precision ++ 0x70 :: Decimal.exponentText e

/-- The magnitude of a finite number for a verb; `none` for a verb that numbers do not have. -/
def doubleDigits? (x : Float) (verb : Char) (precision : Option Nat) : Option Bytes :=
  let source := doubleSource x
  let six := some (precision.getD 6)
  match verb with
  | 'e' => some (write source .exponential six 0x65)
  | 'E' => some (write source .exponential six 0x45)
  | 'f' | 'F' => some (write source .positional six 0x65)
  | 'g' | 'v' => some (write source .general precision 0x65)
  | 'G' => some (write source .general precision 0x45)
  | 'b' => some (doubleBinary x)
  | 'x' => some (doubleHex x precision)
  | 'X' => some (Bytes.upper (doubleHex x precision))
  | _ => none

/-- The number of digits that the sharp flag asks for. -/
def sharpDigits (verb : Char) (precision : Option Nat) : Nat :=
  match verb with
  | 'v' | 'g' | 'G' | 'x' => precision.getD 6
  | _ => 0

/-- Where the exponent of a written number starts. -/
def isExponentMark (verb : Char) (b : UInt8) : Bool :=
  match Bytes.lowerByte b with
  | 0x70 => true
  | 0x65 => verb != 'x' && verb != 'X'
  | _ => false

/-- Adds a point if there is none, and zeros up to the digits that the sharp flag asks for, in front
of the exponent. -/
def sharpen (verb : Char) (precision : Option Nat) (text : Bytes) : Bytes :=
  let head := text.takeWhile (fun b => !isExponentMark verb b)
  let tail := text.dropWhile (fun b => !isExponentMark verb b)
  let hasPoint := head.contains 0x2E
  let significant := ((head.filter (· != 0x2E)).dropWhile (· = 0x30)).length
  let lone := !hasPoint && head = [0x30]
  let missing := sharpDigits verb precision - significant - (if lone then 1 else 0)
  head ++ (if hasPoint then [] else [0x2E]) ++ List.replicate missing 0x30 ++ tail

/-- The sign shown in front of a number. -/
def signFor (spec : Spec) (negative : Bool) : Option UInt8 :=
  if negative then some 0x2D
  else if spec.plus then some 0x2B
  else if spec.space then some 0x20
  else none

/-- A number that is not finite; it is never padded with zeros. -/
def formatNamed (x : Float) (spec : Spec) : Bytes :=
  let spec := { spec with zero := false }
  if Double.isNaN x then
    spec.pad ((signFor spec false).toList ++ "NaN")
  else
    let sign := (signFor spec (Double.isNegative x)).getD 0x2B
    spec.pad (sign :: "Inf")

/-- A double precision number for a verb; `none` for a verb that numbers do not have.  Zeros go
between the sign and the digits. -/
def formatDouble? (x : Float) (spec : Spec) (verb : Char) : Option Bytes :=
  (doubleDigits? x verb spec.precision).map fun digits =>
    if !Double.isFinite x then formatNamed x spec
    else
      let digits :=
        if spec.sharp && verb != 'b' then sharpen verb spec.precision digits else digits
      match signFor spec (Double.isNegative x) with
      | none => spec.pad digits
      | some sign =>
        if spec.zero && !spec.minus then
          sign :: spec.fill 0x30 (digits.length + 1) ++ digits
        else spec.pad (sign :: digits)

end Format
end Reckon
