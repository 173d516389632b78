import Reckon.Binary.Fraction
import Reckon.Double.Power

/-!
# Powers of chosen precision

An integer power is taken by repeated squaring with extra bits, a fractional one is left to a function
that rounds it once from its exact value unless another is given.  The size of the result is estimated
in double precision first, and a result that the estimate places past the range of exponents is not
computed.
-/

namespace Reckon
namespace Binary

/-- The extra bits carried through repeated squaring. -/
def powGuardBits : Nat :=
  64

/-- An estimate of the binary logarithm of a number other than one.  Where double precision cannot
tell the number from one, the distance to one is used. -/
def logEstimate (x : Magnitude) : Float :=
  let m := Double.ofScaled false x.mant (-(x.bits : Int))
  let l := Double.ofInt x.top + Double.log2 m
  if l == 0.0 then
    (addFinite (max x.bits 53) false x true .one).toDouble / Double.ln2
  else l

/-- An estimate of the binary logarithm of a power. -/
def powEstimate (base : Magnitude) (exp : Binary) : Float :=
  exp.toDouble * logEstimate base

/-- Whether an estimate lies above an exponent. -/
def estimateAbove (estimate : Float) (bound : Int) : Bool :=
  estimate > Double.ofInt bound

/-- Whether an estimate lies below an exponent. -/
def estimateBelow (estimate : Float) (bound : Int) : Bool :=
  estimate < Double.ofInt bound

/-- The state of repeated squaring: the product so far and the current square. -/
structure Squaring where
  acc : Binary
  square : Binary

/-- Takes the bits of `n` from the lowest to the highest: each multiplies the product by the current
square if it is set, and squares unless it is the last. -/
def squarings (prec n : Nat) (s : Squaring) : Except Undefined Squaring :=
  if _h : n = 0 then .ok s
  else do
    let acc ← if n % 2 = 1 then mul prec s.acc s.square else .ok s.acc
    let square ← if n / 2 = 0 then .ok s.square else mul prec s.square s.square
    squarings prec (n / 2) ⟨acc, square⟩
termination_by n

/-- The integer that an integral number stands for, without its sign. -/
def integerPart (x : Magnitude) : Nat :=
  x.mant <<< x.exp.toNat

/-- The power of a base without its sign to an integer exponent, before it is rounded to the precision
asked for. -/
def powWide (wide : Nat) (base : Binary) (inverse : Bool) (n : Nat) : Except Undefined Binary := do
  let power ← squarings wide n ⟨one wide, base.abs.withPrec wide⟩
  if inverse then div wide (one wide) power.acc else .ok power.acc

/-- The power of a base to an integer exponent, with `negative` as the sign of the result. -/
def powInteger (prec : Nat) (base : Binary) (inverse : Bool) (n : Nat) (negative : Bool) :
    Except Undefined Binary := do
  let result ← powWide (clampPrec (prec + powGuardBits)) base inverse n
  let result := result.withPrec prec
  return if negative then result.neg else result

/-- The power of a finite non-zero base, neither one nor minus one, to a finite non-zero exponent. -/
def powFinite (prec : Nat) (base exp : Binary) (b e : Magnitude) (negative : Bool)
    (fraction : FractionalPower) : Except Undefined Binary :=
  let estimate := powEstimate b exp
  if estimateAbove estimate Form.maxExp then .ok (infinity prec negative)
  else if estimateBelow estimate Form.minExp then .ok (zero prec negative)
  else if e.isInteger then powInteger prec base exp.negative (integerPart e) negative
  else if Double.isNaN estimate || estimateAbove (Double.abs estimate) fractionalPowerBits then
    .error .fractionalMagnitude
  else .ok (fraction prec b exp.negative e)

/-- The power, rounded to a precision. -/
def pow (prec : Nat) (base exp : Binary) (fraction : FractionalPower := .rounded) :
    Except Undefined Binary :=
  match base.form, exp.form with
  | .infinite, _ | _, .infinite => .error .infiniteOperand
  | _, .zero => .ok (one prec)
  | .zero, .finite _ =>
    .ok (if exp.negative then infinity prec false else zero prec false)
  | .finite b, .finite e =>
    if base.negative && !e.isInteger then .error .negativeBase
    else
      let negative := base.negative && e.isOddInteger
      if b = .one then .ok { one prec with negative }
      else powFinite prec base exp b e negative fraction

end Binary
end Reckon
