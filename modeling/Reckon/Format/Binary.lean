import Reckon.Binary.Stored
import Reckon.Decimal.Shortest
import Reckon.Format.Double

/-!
# Formatting numbers of chosen precision

The verbs `e E f F g G v` write decimals; `b` and `x` write a mantissa with a binary exponent.  The
fewest digits that identify a number are counted at its own precision.
-/

namespace Reckon
namespace Format

/-- A positive number of `prec` bits as a source of decimals.  Half of its last place has the weight
`2 ^ (top - prec - 1)`. -/
def magnitudeSource (prec : Nat) (x : Magnitude) : Source :=
  ⟨Decimal.ofBinary x.mant x.exp,
    fun _ => Decimal.shortestBetween x.mant x.exp (x.top - prec - 1)⟩

/-- The magnitude of a finite number as a source of decimals. -/
def formSource (prec : Nat) : Form → Source
  | .finite x => magnitudeSource prec x
  | _ => ⟨⟨[], 0⟩, fun _ => ⟨[], 0⟩⟩

/-- An integer with a sign even if it is not negative. -/
def signedInt (n : Int) : Bytes :=
  if n < 0 then Bytes.ofInt n else 0x2B :: Bytes.ofInt n

/-- A decimal mantissa of exactly `prec` bits with a binary exponent. -/
def mantissaText (prec : Nat) : Form → Bytes
  | .finite x =>
    Decimal.digitsOf (x.mant <<< (prec - x.bits)) ++ 0x70 :: signedInt (x.top - prec)
  | _ => "0"

/-- The hexadecimal digits of a natural number, without leading zeros. -/
def hexText (n : Nat) : Bytes :=
  Bytes.hexOfNat (n.log2 / 4 + 1) n

/-- A hexadecimal mantissa in `[1/2, 1)`, without zeros at its end, with a binary exponent. -/
def halfText : Form → Bytes
  | .finite x =>
    "0x." ++ hexText (x.mant <<< ((4 - x.bits % 4) % 4)) ++ 0x70 :: signedInt x.top
  | _ => "0"

/-- A hexadecimal mantissa in `[1, 2)` with `places` digits after the point and a binary exponent. -/
def oneText (places : Nat) (form : Form) : Bytes :=
  match form.round (1 + 4 * places) with
  | .finite x =>
    let shift := 1 + 4 * places - x.bits
    "0x1" ++ hexFraction (x.mant <<< shift) (4 * places) (some places)
      ++ 0x70 :: Decimal.exponentText (x.top - 1)
  | _ => "0x0" ++ hexFraction 0 0 (some places) ++ "p+00"

/-- The magnitude of a finite number for a verb; `none` for a verb that numbers do not have. -/
def binaryDigits? (x : Binary) (verb : Char) (precision : Option Nat) : Option Bytes :=
  let source := formSource x.prec x.form
  let six := some (precision.getD 6)
  match verb with
  | 'e' => some (write source .exponential six 0x65)
  | 'E' => some (write source .exponential six 0x45)
  | 'f' | 'F' => some (write source .positional six 0x65)
  | 'g' | 'v' => some (write source .general precision 0x65)
  | 'G' => some (write source .general precision 0x45)
  | 'b' => some (mantissaText x.prec x.form)
  | 'x' => some (oneText (precision.getD 6) x.form)
  | _ => none

/-- A number with its sign, from the text of its magnitude. -/
def withSign (x : Binary) (magnitude : Bytes) : Bytes :=
  if x.isInfinite then if x.negative then "-Inf" else "+Inf"
  else if x.negative then 0x2D :: magnitude
  else magnitude

/-- A number of chosen precision for a verb; `none` for a verb that numbers do not have.  The zero
flag wins over the minus flag. -/
def formatBinary? (x : Binary) (spec : Spec) (verb : Char) : Option Bytes :=
  (binaryDigits? x verb spec.precision).map fun digits =>
    let sign : Bytes :=
      if x.negative then "-"
      else if x.isInfinite then if spec.space then " " else "+"
      else if spec.plus || spec.verbosePlus then "+"
      else if spec.space then " "
      else []
    let body : Bytes := if x.isInfinite then "Inf" else digits
    let length := sign.length + body.length
    if spec.zero && !x.isInfinite then sign ++ spec.fill 0x30 length ++ body
    else if spec.minus then sign ++ body ++ spec.fill 0x20 length
    else spec.fill 0x20 length ++ sign ++ body

/-- A number in either decimal notation with ten significant digits. -/
def shownBinary (x : Binary) : Bytes :=
  withSign x (write (formSource x.prec x.form) .general (some 10) 0x65)

/-- A number as a hexadecimal mantissa in `[1/2, 1)` with a binary exponent. -/
def halfForm (x : Binary) : Bytes :=
  withSign x (halfText x.form)

/-- The number of a form: zero, finite, infinite. -/
def formCode : Form → Nat
  | .zero => 0
  | .finite _ => 1
  | .infinite => 2

/-- The direction of a rounding as a number. -/
def accuracyText : Ordering → Bytes
  | .lt => "-1"
  | .eq => "0"
  | .gt => "1"

/-- A number field by field: its precision, rounding to nearest even, the direction of its last
rounding, form, sign, the words of the mantissa and the binary exponent. -/
def fieldsText (s : Stored) : Bytes :=
  let x := s.number
  let exponent : Int := match x.form with
    | .finite m => m.top
    | _ => 0
  let words := Bytes.join " " (s.mantissaWords.map Bytes.ofNat)
  let fields : List Bytes :=
    [Bytes.ofNat x.prec, "0", accuracyText s.accuracy, Bytes.ofNat (formCode x.form),
      if x.negative then "true" else "false", "[" ++ words ++ "]", Bytes.ofInt exponent]
  "&\x7b" ++ Bytes.join " " fields ++ "\x7d"

end Format
end Reckon
