import Reckon.Decimal.Layout
import Reckon.Decimal.Shortest
import Reckon.Double.Basic

/-!
# Double precision numbers as text

The exact decimal expansion of a double precision number, the fewest digits that identify it, and
its default notation.
-/

namespace Reckon
namespace Double

/-- The exact decimal expansion of a finite number's magnitude. -/
def exactDecimal (x : Float) : Decimal :=
  let (m, e) := unpack x
  Decimal.ofBinary m e

/-- The fewest digits that identify a finite number's magnitude. -/
def shortestDecimal (x : Float) : Decimal :=
  let (m, e) := unpack x
  if m = 0 then ⟨[], 0⟩
  else (Decimal.roundingInterval m e (m = Nat.pow 2 52 && e > -1074)).shortest

/-- A text with a minus sign in front of it for a negative number. -/
def withSign (x : Float) (text : Bytes) : Bytes :=
  if isNegative x then 0x2D :: text else text

/-- The name of a number that is not finite. -/
def named (x : Float) : Bytes :=
  if isNaN x then "NaN" else if isNegative x then "-Inf" else "+Inf"

/-- A number in either decimal notation with the fewest digits that identify it. -/
def render (x : Float) : Bytes :=
  if isFinite x then withSign x ((shortestDecimal x).generalShortest 0x65)
  else named x

end Double
end Reckon
