import Reckon.Numeral

/-!
# Binary numbers of chosen precision

Arbitrary precision arithmetic works on numbers with a sign and a precision that are zero, infinite
or a positive dyadic number.  A dyadic number is kept with an odd mantissa, so that equal numbers
have equal representations and the mantissa's length is the number of significant bits.

Every operation computes the exact rational result and rounds it once.  The exponents are bounded:
a result past the range becomes infinite or zero.  There is no undefined number; an operation that
would need one says why it has no result.
-/

namespace Reckon

/-- A positive number `mant * 2 ^ exp` with an odd mantissa. -/
structure Magnitude where
  mant : Nat
  exp : Int
  odd : mant % 2 = 1
  deriving DecidableEq, Repr

namespace Magnitude

/-- The number one. -/
def one : Magnitude :=
  ⟨1, 0, rfl⟩

/-- The positive number `m * 2 ^ e`. -/
def ofScaled (m : Nat) (e : Int) (positive : 0 < m) : Magnitude :=
  ⟨m >>> Rounding.trailingZeros m, e + Rounding.trailingZeros m,
    Rounding.odd_shiftRight_trailingZeros m positive⟩

/-- The number of significant bits. -/
def bits (x : Magnitude) : Nat :=
  x.mant.log2 + 1

/-- The exponent `t` with `2 ^ (t - 1) ≤ x < 2 ^ t`. -/
def top (x : Magnitude) : Int :=
  x.exp + x.bits

/-- Whether the number is an integer. -/
def isInteger (x : Magnitude) : Bool :=
  0 ≤ x.exp

/-- Whether the number is an odd integer: its lowest set bit is the units bit. -/
def isOddInteger (x : Magnitude) : Bool :=
  x.top = x.bits

end Magnitude

/-- A number without sign and precision. -/
inductive Form where
  | zero
  | finite (x : Magnitude)
  | infinite
  deriving DecidableEq, Repr

/-- A number with a sign and a precision in bits. -/
structure Binary where
  prec : Nat
  negative : Bool
  form : Form
  deriving DecidableEq, Repr

/-- Why an operation has no result. -/
inductive Undefined where
  | oppositeInfinities
  | equalInfinities
  | zeroTimesInfinity
  | indeterminateQuotient
  | infiniteOperand
  | negativeBase
  | fractionalMagnitude
  /-- A reason given in words. -/
  | stated (text : Bytes)
  deriving DecidableEq, Repr

/-- The largest binary exponent of a fractional power. -/
def fractionalPowerBits : Nat :=
  Nat.pow 2 20

/-- The wording of a reason. -/
def Undefined.message : Undefined → Bytes
  | .oppositeInfinities => "addition of infinities with opposite signs"
  | .equalInfinities => "subtraction of infinities with equal signs"
  | .zeroTimesInfinity => "multiplication of zero with infinity"
  | .indeterminateQuotient => "division of zero by zero or infinity by infinity"
  | .infiniteOperand => "infinite operand"
  | .negativeBase => "negative base with non-integer exponent"
  | .fractionalMagnitude =>
    "fractional power magnitude exceeds 2^" ++ Bytes.ofNat fractionalPowerBits
  | .stated text => text

namespace Form

/-- The largest binary exponent. -/
def maxExp : Int := Int.pow 2 31 - 1

/-- The smallest binary exponent. -/
def minExp : Int := -Int.pow 2 31

/-- The number `m * 2 ^ e`. -/
def ofScaled (m : Nat) (e : Int) : Form :=
  if positive : 0 < m then .finite (Magnitude.ofScaled m e positive) else .zero

/-- A number that rounding may have carried past the largest exponent. -/
def saturate : Form → Form
  | .finite x => if x.top > maxExp then .infinite else .finite x
  | form => form

/-- The number of `prec` bits nearest to `num / den * 2 ^ e`.  A number whose exponent is out of range
before rounding is infinite or zero, and so is one that rounding carries past the largest exponent. -/
def ofRatio (prec num den : Nat) (e : Int) : Form :=
  if num = 0 then .zero
  else
    let top := Rounding.floorLog num den + e + 1
    if top < minExp then .zero
    else if top > maxExp then .infinite
    else
      let unit := top - prec
      if den = 1 && unit ≤ e then ofScaled num e
      else (ofScaled (Rounding.inUnits num den (unit - e)) unit).saturate

/-- The form rounded to a precision. -/
def round (prec : Nat) : Form → Form
  | .finite x => ofRatio prec x.mant 1 x.exp
  | form => form

end Form

namespace Binary

/-- The largest precision; a larger one that is asked for is lowered to it. -/
def maxPrec : Nat :=
  Nat.pow 2 32 - 1

/-- The precision that is used when a given one is asked for. -/
def clampPrec (prec : Nat) : Nat :=
  min prec maxPrec

/-- The number one. -/
def one (prec : Nat) : Binary :=
  ⟨prec, false, .finite .one⟩

/-- A zero of the given sign. -/
def zero (prec : Nat) (negative : Bool) : Binary :=
  ⟨prec, negative, .zero⟩

/-- An infinity of the given sign. -/
def infinity (prec : Nat) (negative : Bool) : Binary :=
  ⟨prec, negative, .infinite⟩

/-- Whether the number is infinite. -/
def isInfinite (x : Binary) : Bool :=
  x.form matches .infinite

/-- Whether the number is a finite integer. -/
def isInteger (x : Binary) : Bool :=
  match x.form with
  | .zero => true
  | .finite m => m.isInteger
  | .infinite => false

/-- Whether the number is an odd integer. -/
def isOddInteger (x : Binary) : Bool :=
  match x.form with
  | .finite m => m.isOddInteger
  | _ => false

/-- The number with the opposite sign. -/
def neg (x : Binary) : Binary :=
  { x with negative := !x.negative }

/-- The number without its sign. -/
def abs (x : Binary) : Binary :=
  { x with negative := false }

/-- The number at another precision, rounded if that is smaller. -/
def withPrec (prec : Nat) (x : Binary) : Binary :=
  { prec
    negative := x.negative
    form := if prec < x.prec then x.form.round prec else x.form }

/-- A mantissa with a sign, counted in units of `2 ^ unit` for a unit no larger than its own. -/
def signedUnits (negative : Bool) (x : Magnitude) (unit : Int) : Int :=
  let m : Nat := x.mant <<< (x.exp - unit).toNat
  if negative then -(m : Int) else m

/-- The sum of two finite non-zero numbers; an exact cancellation gives the positive zero. -/
def addFinite (prec : Nat) (nx : Bool) (x : Magnitude) (ny : Bool) (y : Magnitude) : Binary :=
  let unit := min x.exp y.exp
  let sum := signedUnits nx x unit + signedUnits ny y unit
  ⟨prec, sum < 0, Form.ofRatio prec sum.natAbs 1 unit⟩

/-- The sum, rounded to a precision. -/
def add (prec : Nat) (x y : Binary) : Except Undefined Binary :=
  match x.form, y.form with
  | .infinite, .infinite =>
    if x.negative = y.negative then .ok (x.withPrec prec) else .error .oppositeInfinities
  | .zero, .zero => .ok (zero prec (x.negative && y.negative))
  | .infinite, _ | _, .zero => .ok (x.withPrec prec)
  | _, .infinite | .zero, _ => .ok (y.withPrec prec)
  | .finite a, .finite b => .ok (addFinite prec x.negative a y.negative b)

/-- The difference, rounded to a precision. -/
def sub (prec : Nat) (x y : Binary) : Except Undefined Binary :=
  match x.form, y.form with
  | .infinite, .infinite =>
    if x.negative = y.negative then .error .equalInfinities else .ok (x.withPrec prec)
  | .zero, .zero => .ok (zero prec (x.negative && !y.negative))
  | .infinite, _ | _, .zero => .ok (x.withPrec prec)
  | _, .infinite | .zero, _ => .ok (y.neg.withPrec prec)
  | .finite a, .finite b => .ok (addFinite prec x.negative a (!y.negative) b)

/-- The product, rounded to a precision. -/
def mul (prec : Nat) (x y : Binary) : Except Undefined Binary :=
  let negative := x.negative != y.negative
  match x.form, y.form with
  | .infinite, .zero | .zero, .infinite => .error .zeroTimesInfinity
  | .infinite, _ | _, .infinite => .ok (infinity prec negative)
  | .zero, _ | _, .zero => .ok (zero prec negative)
  | .finite a, .finite b =>
    .ok ⟨prec, negative, Form.ofRatio prec (a.mant * b.mant) 1 (a.exp + b.exp)⟩

/-- The quotient, rounded to a precision. -/
def div (prec : Nat) (x y : Binary) : Except Undefined Binary :=
  let negative := x.negative != y.negative
  match x.form, y.form with
  | .zero, .zero | .infinite, .infinite => .error .indeterminateQuotient
  | .zero, _ | _, .infinite => .ok (zero prec negative)
  | .infinite, _ | _, .zero => .ok (infinity prec negative)
  | .finite a, .finite b =>
    .ok ⟨prec, negative, Form.ofRatio prec a.mant b.mant (a.exp - b.exp)⟩

/-- The double precision number nearest to a number. -/
def toDouble (x : Binary) : Float :=
  match x.form with
  | .zero => Double.ofMagnitudeBits x.negative 0
  | .finite m => Double.ofScaled x.negative m.mant m.exp
  | .infinite => Double.ofMagnitudeBits x.negative Double.infinityBits

/-- A double precision number that is not undefined, rounded to a precision. -/
def ofDouble (prec : Nat) (x : Float) : Binary :=
  let form :=
    if Double.isFinite x then
      let (m, e) := Double.unpack x
      Form.ofRatio prec m 1 e
    else .infinite
  ⟨prec, Double.isNegative x, form⟩

end Binary
end Reckon
