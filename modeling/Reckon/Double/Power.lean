import Reckon.Double.Basic

/-!
# Logarithm, exponential and powers in double precision

The natural logarithm and the exponential reduce their argument by a power of two and evaluate a
fixed polynomial.  A power splits its exponent into an integer part, taken by repeated squaring on a
mantissa kept in `[1/2, 1)` with the binary exponent counted apart, and a fraction of at most one
half, taken through the exponential.
-/

namespace Reckon
namespace Double

/-- The high part of the natural logarithm of two. -/
def ln2High : Float := 6.93147180369123816490e-01

/-- What the high part leaves of the natural logarithm of two. -/
def ln2Low : Float := 1.90821492927058770002e-10

/-- The natural logarithm of two. -/
def ln2 : Float := 0.693147180559945309417232121458176568

/-- The reciprocal of the natural logarithm of two. -/
def log2e : Float := 1.44269504088896340735992468100189214

/-- The natural logarithm. -/
def log (x : Float) : Float :=
  if isNaN x || x == infinity then x
  else if x < 0.0 then nan
  else if x == 0.0 then -infinity
  else
    let (f₀, k₀) := split x
    let (f₁, k) := if f₀ < 0.70710678118654752440 then (f₀ * 2.0, k₀ - 1) else (f₀, k₀)
    let f := f₁ - 1.0
    let kf := ofInt k
    let s := f / (2.0 + f)
    let s2 := s * s
    let s4 := s2 * s2
    let t1 := s2 * (6.666666666666735130e-01 + s4 * (2.857142874366239149e-01 +
      s4 * (1.818357216161805012e-01 + s4 * 1.479819860511658591e-01)))
    let t2 := s4 * (3.999999999940941908e-01 + s4 * (2.222219843214978396e-01 +
      s4 * 1.531383769920937332e-01))
    let r := t1 + t2
    let hfsq := 0.5 * f * f
    kf * ln2High - ((hfsq - (s * (hfsq + r) + kf * ln2Low)) - f)

/-- The logarithm to base two, exact at powers of two. -/
def log2 (x : Float) : Float :=
  let (f, e) := split x
  if f == 0.5 then ofInt (e - 1)
  else log f * log2e + ofInt e

/-- The exponential function. -/
def exp (x : Float) : Float :=
  if isNaN x || x == infinity then x
  else if x == -infinity then 0.0
  else if x > 7.09782712893383973096e+02 then infinity
  else if x < -7.45133219101941108420e+02 then 0.0
  else if -3.7252902984619140625e-09 < x && x < 3.7252902984619140625e-09 then 1.0 + x
  else
    let k := truncate (1.44269504088896338700e+00 * x + if x < 0.0 then -0.5 else 0.5)
    let high := x - ofInt k * ln2High
    let low := ofInt k * ln2Low
    let r := high - low
    let t := r * r
    let c := r - t * (1.66666666666666657415e-01 + t * (-2.77777777770155933842e-03 +
      t * (6.61375632143793436117e-05 + t * (-1.65339022054652515390e-06 +
      t * 4.13813679705723846039e-08))))
    let y := 1.0 - ((low - (r * c) / (2.0 - c)) - high)
    scale y k

/-- Multiplies `a * 2 ^ ae` by `(x * 2 ^ xe) ^ n`, bit by bit of `n` from the lowest.  Once the
binary exponent of the square leaves the range of finite results it alone decides the answer, and
the loop stops. -/
def squarings (n : Nat) (a : Float) (ae : Int) (x : Float) (xe : Int) : Float × Int :=
  if _h : n = 0 then (a, ae)
  else if xe < -4096 || 4096 < xe then (a, ae + xe)
  else
    let (a, ae) := if n % 2 = 1 then (a * x, ae + xe) else (a, ae)
    let x := x * x
    let xe := xe * 2
    if x < 0.5 then squarings (n / 2) a ae (x + x) (xe - 1)
    else squarings (n / 2) a ae x xe
termination_by n

/-- The power of a finite non-zero base other than one to a finite non-zero exponent other than
one. -/
def finitePow (x y : Float) : Float :=
  let whole := floorAbs y
  let fraction := abs y - ofScaled false whole 0
  if fraction != 0.0 && x < 0.0 then nan
  else if whole ≥ Nat.pow 2 63 then
    if x == -1.0 then 1.0
    else if (abs x < 1.0) == (y > 0.0) then 0.0
    else infinity
  else
    let (whole, fraction) :=
      if fraction > 0.5 then (whole + 1, fraction - 1.0) else (whole, fraction)
    let start := if fraction == 0.0 then 1.0 else exp (fraction * log x)
    let (m, e) := split x
    let (a, ae) := squarings whole start 0 m e
    if y < 0.0 then scale (1.0 / a) (-ae) else scale a ae

/-- The power of a base that is zero. -/
def zeroPow (x y : Float) : Float :=
  if y < 0.0 then
    if isNegative x && isOddInteger y then -infinity else infinity
  else if isNegative x && isOddInteger y then x
  else 0.0

/-- The power `x ^ y`, with the special cases of IEEE 754. -/
def pow (x y : Float) : Float :=
  if y == 0.0 || x == 1.0 then 1.0
  else if y == 1.0 then x
  else if isNaN x || isNaN y then nan
  else if x == 0.0 then zeroPow x y
  else if isInfinite y then
    if x == -1.0 then 1.0
    else if (abs x < 1.0) == (y > 0.0) then 0.0
    else infinity
  else if x == -infinity then zeroPow (1.0 / x) (-y)
  else if x == infinity then if y < 0.0 then 0.0 else infinity
  else if y == 0.5 then x.sqrt
  else if y == -0.5 then 1.0 / x.sqrt
  else finitePow x y

end Double
end Reckon
