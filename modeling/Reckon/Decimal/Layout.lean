import Reckon.Decimal.Basic

/-!
# Decimal notations

A decimal is written with an exponent, positionally, or in whichever of the two suits its size.
-/

namespace Reckon
namespace Decimal

/-- The digits from the first on, `count` of them, zeros after the last. -/
def leading (d : Decimal) (count : Nat) : Bytes :=
  let kept := d.digits.take count
  kept ++ List.replicate (count - kept.length) zeroDigit

/-- The digits of an exponent, at least two, after a sign. -/
def exponentText (e : Int) : Bytes :=
  let digits := Bytes.ofNat e.natAbs
  let padded := if digits.length < 2 then zeroDigit :: digits else digits
  (if e < 0 then 0x2D else 0x2B) :: padded

/-- Exponent notation with `places` digits after the point; `mark` is the letter before the
exponent. -/
def exponential (d : Decimal) (places : Nat) (mark : UInt8) : Bytes :=
  let all := d.leading (places + 1)
  let fraction := if places = 0 then [] else 0x2E :: all.drop 1
  let e := if d.digits.isEmpty then 0 else d.exp - 1
  all.take 1 ++ fraction ++ mark :: exponentText e

/-- Positional notation with `places` digits after the point. -/
def positional (d : Decimal) (places : Nat) : Bytes :=
  let whole := if d.exp > 0 then d.leading d.exp.toNat else [zeroDigit]
  let fraction :=
    if d.exp > 0 then (⟨d.digits.drop d.exp.toNat, 0⟩ : Decimal).leading places
    else
      let zeros := min places d.exp.natAbs
      List.replicate zeros zeroDigit ++ d.leading (places - zeros)
  if places = 0 then whole else whole ++ 0x2E :: fraction

/-- Either notation with `digits` significant digits: the exponent is written when it is below `-4`
or reaches `threshold`, and zeros at the end are dropped. -/
def general (d : Decimal) (digits : Nat) (threshold : Int) (mark : UInt8) : Bytes :=
  let e := d.exp - 1
  if e < -4 || e ≥ threshold then
    d.exponential (min digits d.digits.length - 1) mark
  else
    let shown : Int := if (digits : Int) > d.exp then d.digits.length else digits
    d.positional (shown - d.exp).toNat

/-- Either notation for a decimal rounded to `digits` digits. -/
def generalRounded (d : Decimal) (digits : Nat) (mark : UInt8) : Bytes :=
  let count := d.digits.length
  let threshold := if digits > count && (count : Int) ≥ d.exp then count else digits
  d.general digits threshold mark

/-- Either notation for a decimal whose digits were chosen as the fewest that identify the number;
the exponent is written from the seventh place on. -/
def generalShortest (d : Decimal) (mark : UInt8) : Bytes :=
  d.general d.digits.length 6 mark

end Decimal
end Reckon
