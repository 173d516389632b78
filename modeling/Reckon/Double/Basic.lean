import Reckon.Rounding

/-!
# Double precision numbers as exact values

The default arithmetic works on IEEE 754 double precision numbers.  This module relates such a
number to the exact value it stands for: a sign, an integer mantissa and a power of two.  Reading
literals, printing values and scaling by powers of two all pass through that view.
-/

namespace Reckon
namespace Double

/-- Positive infinity. -/
def infinity : Float :=
  Float.ofBits 0x7FF0000000000000

/-- The value of an undefined operation. -/
def nan : Float :=
  Float.ofBits 0x7FF8000000000000

/-- Whether the sign bit is set. -/
def isNegative (x : Float) : Bool :=
  x.toBits >>> 63 = 1

/-- The bits of a number without its sign. -/
def magnitudeBits (x : Float) : Nat :=
  x.toBits.toNat % Nat.pow 2 63

/-- The bits of infinity without a sign; larger ones are not a number. -/
def infinityBits : Nat :=
  0x7FF0000000000000

/-- Whether a number is neither infinite nor undefined. -/
def isFinite (x : Float) : Bool :=
  magnitudeBits x < infinityBits

/-- Whether a number is infinite. -/
def isInfinite (x : Float) : Bool :=
  magnitudeBits x = infinityBits

/-- Whether a number is undefined. -/
def isNaN (x : Float) : Bool :=
  infinityBits < magnitudeBits x

/-- The integer mantissa `m` and exponent `e` of a finite number of magnitude `m * 2 ^ e`. -/
def unpack (x : Float) : Nat × Int :=
  let bits := magnitudeBits x
  let field : Nat := bits / Nat.pow 2 52
  let fraction : Nat := bits % Nat.pow 2 52
  if field = 0 then (fraction, -1074)
  else (Nat.pow 2 52 + fraction, (field : Int) - 1075)

/-- A magnitude with a sign put in front of it. -/
def ofMagnitudeBits (negative : Bool) (bits : Nat) : Float :=
  Float.ofBits (bits + if negative then Nat.pow 2 63 else 0).toUInt64

/-- The double precision number nearest to `± num / den * 2 ^ e`.  Values past the largest finite
number become infinite, and small ones lose bits gradually.  Mantissa and exponent field are added,
so that a mantissa rounded up to the next power of two carries into the exponent. -/
def ofRatio (negative : Bool) (num den : Nat) (e : Int) : Float :=
  if num = 0 then ofMagnitudeBits negative 0
  else
    let top := Rounding.floorLog num den + e
    if top > 1023 then ofMagnitudeBits negative infinityBits
    else if top < -1080 then ofMagnitudeBits negative 0
    else
      let unit := max (top - 52) (-1074)
      let mantissa := Rounding.inUnits num den (unit - e)
      let bits := (unit + 1074).toNat * Nat.pow 2 52 + mantissa
      ofMagnitudeBits negative (min bits infinityBits)

/-- The double precision number nearest to `± m * 2 ^ e`. -/
def ofScaled (negative : Bool) (m : Nat) (e : Int) : Float :=
  ofRatio negative m 1 e

/-- The double precision number nearest to an integer. -/
def ofInt (n : Int) : Float :=
  ofScaled (n < 0) n.natAbs 0

/-- A finite non-zero number as a fraction in `[1/2, 1)` and a power of two; other numbers are
returned with the exponent zero. -/
def split (x : Float) : Float × Int :=
  let (m, e) := unpack x
  if m = 0 || !isFinite x then (x, 0)
  else
    let size := (m.log2 : Int) + 1
    (ofScaled (isNegative x) m (-size), e + size)

/-- The number `x * 2 ^ k`, rounded once. -/
def scale (x : Float) (k : Int) : Float :=
  let (m, e) := unpack x
  if m = 0 || !isFinite x then x
  else ofScaled (isNegative x) m (e + k)

/-- The integer part of a finite number's magnitude. -/
def floorAbs (x : Float) : Nat :=
  match unpack x with
  | (m, .ofNat n) => m <<< n
  | (m, .negSucc n) => m >>> (n + 1)

/-- A finite number with its fraction dropped. -/
def truncate (x : Float) : Int :=
  if isNegative x then -(floorAbs x : Int) else floorAbs x

/-- The magnitude of a number. -/
def abs (x : Float) : Float :=
  ofMagnitudeBits false (magnitudeBits x)

/-- Whether a number is an odd integer below `2 ^ 53`, past which every number is even. -/
def isOddInteger (x : Float) : Bool :=
  isFinite x && abs x < 9007199254740992.0 && ofInt (truncate x) == x && floorAbs x % 2 = 1

end Double
end Reckon
