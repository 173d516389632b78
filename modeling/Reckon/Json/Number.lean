import Reckon.Double.Text

/-!
# Numbers in JSON

A number is written with the fewest digits that identify it: positionally from `1e-6` on and below
`1e21`, and with an exponent without leading zeros otherwise.
-/

namespace Reckon
namespace Json

/-- An exponent with its sign and without leading zeros. -/
def exponentText (e : Int) : Bytes :=
  (if e < 0 then 0x2D else 0x2B) :: Bytes.ofNat e.natAbs

/-- Whether a decimal is written positionally. -/
def isPositional (d : Decimal) : Bool :=
  d.digits.isEmpty || (-5 ≤ d.exp && d.exp ≤ 21)

/-- A decimal in the notation that suits its size. -/
def ofDecimal (d : Decimal) : Bytes :=
  let count := d.digits.length
  if isPositional d then d.positional ((count : Int) - d.exp).toNat
  else
    let fraction := if count ≤ 1 then [] else 0x2E :: d.digits.drop 1
    d.digits.take 1 ++ fraction ++ 0x65 :: exponentText (d.exp - 1)

/-- A finite number. -/
def ofDouble (x : Float) : Bytes :=
  Double.withSign x (ofDecimal (Double.shortestDecimal x))

end Json
end Reckon
