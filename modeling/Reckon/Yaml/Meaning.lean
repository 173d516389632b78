import Reckon.Text.Integer
import Reckon.Yaml.Node

/-!
# What a YAML scalar means

A scalar between quotes is a text.  A plain one may be nothing, a truth value or a number, decided by
its spelling alone.
-/

namespace Reckon
namespace Yaml

/-- The meaning of a scalar. -/
inductive Meaning where
  | null
  | truth (b : Bool)
  | integer (n : Int)
  | real (x : Float)
  | text

namespace Meaning

/-- Whether a text is nothing but decimal digits, at least one. -/
def isDigits (s : Bytes) : Bool :=
  !s.isEmpty && s.all Bytes.isDigit

/-- Whether a text is a decimal number: digits with an optional point, and an optional exponent. -/
def isDecimal (s : Bytes) : Bool :=
  let body := (Numeral.takeSign s).2
  let whole := body.takeWhile Bytes.isDigit
  let rest := body.drop whole.length
  let (places, hasPoint, tail) : Bytes × Bool × Bytes :=
    match rest with
    | 0x2E :: rest => (rest.takeWhile Bytes.isDigit, true, rest.dropWhile Bytes.isDigit)
    | rest => ([], false, rest)
  let mantissa := !whole.isEmpty || (hasPoint && !places.isEmpty)
  mantissa && match tail with
    | [] => true
    | mark :: e => Bytes.lowerByte mark = 0x65 && isDigits (Numeral.takeSign e).2

/-- A finite number. -/
def real? (s : Bytes) : Option Meaning :=
  ((Double.read? s).filter Double.isFinite).map .real

/-- An integer of 64 bits, with or without a sign. -/
def integer? (s : Bytes) : Option Meaning :=
  match Integer.ofSigned (Integer.ofAnyBase Integer.maxUnsigned) s with
  | .ok n => some (.integer n)
  | .error _ =>
    match Integer.ofAnyBase Integer.maxUnsigned s with
    | .ok n => some (.integer n)
    | .error _ => none

/-- A plain scalar that starts like a number. -/
def number? (s : Bytes) : Option Meaning :=
  let plain := s.filter (· != Numeral.separator)
  match integer? plain with
  | some m => some m
  | none => if isDecimal plain then real? plain else none

/-- The words with a meaning of their own. -/
def word? (s : Bytes) : Option Meaning :=
  if [("" : Bytes), "~", "null", "Null", "NULL"].contains s then some .null
  else if [("true" : Bytes), "True", "TRUE"].contains s then some (.truth true)
  else if [("false" : Bytes), "False", "FALSE"].contains s then some (.truth false)
  else if [(".nan" : Bytes), ".NaN", ".NAN"].contains s then some (.real Double.nan)
  else if [(".inf" : Bytes), ".Inf", ".INF", "+.inf", "+.Inf", "+.INF"].contains s then
    some (.real Double.infinity)
  else if [("-.inf" : Bytes), "-.Inf", "-.INF"].contains s then some (.real (-Double.infinity))
  else none

/-- The meaning of a plain scalar. -/
def ofPlain (s : Bytes) : Meaning :=
  match word? s with
  | some m => m
  | none =>
    let found? : Option Meaning :=
      match s with
      | 0x2E :: _ => real? s
      | b :: _ => if Bytes.isDigit b || b = 0x2B || b = 0x2D then number? s else none
      | [] => none
    found?.getD .text

/-- The meaning of a scalar. -/
def ofScalar (s : Bytes) (plain : Bool) : Meaning :=
  if plain then ofPlain s else .text

end Meaning
end Yaml
end Reckon
