import Reckon.Binary.Basic

/-!
# Fractional powers

The exponent of a fractional power is a dyadic number, so the power is a dyadic number only if the
base is a square of a square and so on, and only then can it lie exactly between two neighbours.  That
case is computed exactly.  In every other case the power is enclosed between two bounds, with more
and more bits, until both round to the same number.
-/

namespace Reckon
namespace Fixed

/-- The product of two numbers in units of `2 ^ -w`. -/
def mul (w a b : Nat) : Nat :=
  (a * b) >>> w

/-- Adds the terms `p / k + p * s² / (k + 2) + …` to `acc`, in units of `2 ^ -w`. -/
def oddSeries (w sSquared : Nat) : (fuel p k acc : Nat) → Nat
  | 0, _, _, acc => acc
  | fuel + 1, p, k, acc =>
    if p = 0 then acc
    else oddSeries w sSquared fuel (mul w p sSquared) (k + 2) (acc + p / k)

/-- The inverse hyperbolic tangent of a number of at most one half, in units of `2 ^ -w`. -/
def artanh (w s : Nat) : Nat :=
  oddSeries w (mul w s s) (w + 1) s 1 0

/-- The natural logarithm of two, in units of `2 ^ -w`. -/
def ln2 (w : Nat) : Nat :=
  2 * artanh w (Nat.pow 2 w / 3)

/-- The natural logarithm of a positive dyadic number, in units of `2 ^ -w`.  The number is brought
between `√½` and `√2` by a power of two. -/
def ln (w : Nat) (x : Magnitude) : Int :=
  let low : Bool := 2 * x.mant * x.mant < Nat.pow 2 (2 * x.bits)
  let (size, top) : Nat × Int := if low then (x.bits - 1, x.top - 1) else (x.bits, x.top)
  let one := Nat.pow 2 size
  let part (distance : Nat) : Int := 2 * artanh w (distance <<< w / (x.mant + one))
  let rest := if one ≤ x.mant then part (x.mant - one) else -part (one - x.mant)
  top * ln2 w + rest

/-- Adds the terms of the exponential series from `p` on to `acc`, in units of `2 ^ -w`. -/
def expSeries (w v : Nat) : (fuel p k acc : Nat) → Nat
  | 0, _, _, acc => acc
  | fuel + 1, p, k, acc =>
    if p = 0 then acc
    else expSeries w v fuel (mul w p v / (k + 1)) (k + 1) (acc + p)

/-- The exponential of a number of at most one, in units of `2 ^ -w`. -/
def exp (w v : Nat) : Nat :=
  expSeries w v (w + 2) (Nat.pow 2 w) 0 0

end Fixed

/-- The integer square root. -/
def isqrt (n : Nat) : Nat :=
  if _h : n = 0 then 0
  else
    let r := 2 * isqrt (n / 4)
    if (r + 1) * (r + 1) ≤ n then r + 1 else r
termination_by n

namespace Magnitude

/-- The square root, if it is a dyadic number. -/
def sqrt? (x : Magnitude) : Option Magnitude :=
  let r := isqrt x.mant
  if r * r = x.mant && x.exp % 2 = 0 then
    if odd : r % 2 = 1 then some ⟨r, x.exp / 2, odd⟩ else none
  else none

/-- The root obtained by `n` square roots, if it is a dyadic number. -/
def root? : (n : Nat) → Magnitude → Option Magnitude
  | 0, x => some x
  | n + 1, x => x.sqrt?.bind (root? n)

end Magnitude

namespace Binary

/-- The power `r ^ k`, or its inverse, when it is a dyadic number of at most `bits` bits. -/
def exactPow? (bits : Nat) (r : Magnitude) (inverse : Bool) (k : Nat) : Option Form :=
  if r.mant = 1 then
    some (Form.ofScaled 1 (r.exp * if inverse then -(k : Int) else k))
  else if inverse || k * r.mant.log2 > bits then none
  else some (Form.ofScaled (Nat.pow r.mant k) (r.exp * k))

/-- The power with the exponent `± e.mant * 2 ^ e.exp`, for a negative `e.exp`, when it is a dyadic
number of few enough bits to be a number of `prec` bits or the middle between two. -/
def exactFraction? (prec : Nat) (b : Magnitude) (inverse : Bool) (e : Magnitude) : Option Form :=
  (b.root? e.exp.natAbs).bind fun r => exactPow? (prec + 1) r inverse e.mant

/-- The number `m * 2 ^ e` with the bounds of its error, rounded, if both bounds round alike. -/
def settle? (prec m error : Nat) (e : Int) : Option Form :=
  let below := Form.ofRatio prec (m - error) 1 e
  let above := Form.ofRatio prec (m + error) 1 e
  if below = above then some below else none

/-- The number of bits in front of the point of a positive number. -/
def wholeBits (x : Magnitude) : Nat :=
  x.top.toNat

/-- An approximation `m * 2 ^ -w * 2 ^ n` of a power, with `n` and `m`; its relative error is below
`2 ^ -bits`. -/
def approximate (bits : Nat) (b : Magnitude) (inverse : Bool) (e : Magnitude) : Nat × Nat × Int :=
  let w := bits + wholeBits e + 96
  let product : Int := (e.mant : Int) * Fixed.ln w b
  let signed := if inverse then -product else product
  let exponent : Int := match e.exp with
    | .ofNat k => signed * Int.pow 2 k
    | .negSucc k => signed / Int.pow 2 (k + 1)
  let unit : Int := Fixed.ln2 w
  let n := exponent.fdiv unit
  (w, Fixed.exp w (exponent - n * unit).toNat, n)

/-- Encloses a power with more and more bits until it can be rounded. -/
def enclose (prec : Nat) (b : Magnitude) (inverse : Bool) (e : Magnitude) :
    (fuel bits : Nat) → Form
  | 0, bits =>
    let (w, m, n) := approximate bits b inverse e
    Form.ofRatio prec m 1 (n - w)
  | fuel + 1, bits =>
    let (w, m, n) := approximate bits b inverse e
    (settle? prec m (Nat.pow 2 (w - bits)) (n - w)).getD
      (enclose prec b inverse e fuel (2 * bits))

/-- The number of times the bits of an enclosure are doubled at most. -/
def enclosureSteps : Nat :=
  40

/-- The power of a positive base other than one to a fractional exponent of magnitude `e`, negative if
`inverse`, rounded to a precision. -/
def powFraction (prec : Nat) (b : Magnitude) (inverse : Bool) (e : Magnitude) : Form :=
  match exactFraction? prec b inverse e with
  | some form => form.round prec
  | none => enclose prec b inverse e enclosureSteps (prec + 32)

/-- A way of taking fractional powers, by the precision, the base and the exponent. -/
abbrev FractionalPower :=
  (prec : Nat) → (b : Magnitude) → (inverse : Bool) → (e : Magnitude) → Binary

/-- Fractional powers that are rounded once. -/
def FractionalPower.rounded : FractionalPower :=
  fun prec b inverse e => ⟨prec, false, powFraction prec b inverse e⟩

end Binary
end Reckon
