import Reckon.Binary.Basic

/-!
# Reading numbers of chosen precision

A plain literal is rounded once from its exact value.  A numeral with an exponent may stand for a
number far too large to be written out; its power of five is computed with extra bits instead.
-/

namespace Reckon
namespace Binary

/-- The extra bits carried by the power of five of a numeral with an exponent. -/
def readGuardBits : Nat :=
  64

/-- Multiplies `acc` by `f ^ n`, each product rounded: `acc` to `prec` bits and `f` to `wide`. -/
def mulPow (prec wide n : Nat) (acc f : Form) : Form :=
  if _h : n = 0 then acc
  else
    let times (prec : Nat) : Form → Form → Form
      | .finite a, .finite b => Form.ofRatio prec (a.mant * b.mant) 1 (a.exp + b.exp)
      | _, _ => .infinite
    let acc := if n % 2 = 1 then times prec acc f else acc
    mulPow prec wide (n / 2) acc (times wide f f)
termination_by n

/-- The power `5 ^ n` to `prec` bits. -/
def powFive (prec n : Nat) : Form :=
  if n ≤ 27 then Form.ofScaled (Nat.pow 5 n) 0
  else
    mulPow prec (clampPrec (prec + readGuardBits)) (n - 27) (Form.ofScaled (Nat.pow 5 27) 0)
      (Form.ofScaled 5 0)

/-- The magnitude of a numeral with an exponent, `digits * 2 ^ twos * 5 ^ fives`, to `prec` bits. -/
def scaledForm (prec digits : Nat) (twos fives : Int) : Form :=
  match fives with
  | .ofNat 0 => Form.ofRatio prec digits 1 twos
  | .ofNat n =>
    match powFive (clampPrec (prec + readGuardBits)) n with
    | .finite p => Form.ofRatio prec (digits * p.mant) 1 (twos + p.exp)
    | _ => .infinite
  | .negSucc n =>
    match powFive (clampPrec (prec + readGuardBits)) (n + 1) with
    | .finite p => Form.ofRatio prec digits p.mant (twos - p.exp)
    | _ => .zero

/-- The bits of one digit in a base that is a power of two. -/
def digitBits (base : Nat) : Nat :=
  base.log2

/-- A numeral rounded to a precision.  One without an exponent is rounded once; a scaled one is multiplied
or divided by a rounded power of five, and there is `none` when its binary exponent is out of range
before that power is taken into account. -/
def ofNumeral? (prec : Nat) (n : Numeral) : Option Binary :=
  if n.digits = 0 then some (zero prec n.negative)
  else
    let (twos, fives) : Int × Int :=
      if n.base = 10 then (-n.places, -n.places)
      else (-(digitBits n.base * n.places : Nat), 0)
    if n.scaled then
      let twos := twos + n.exponent
      let fives := if n.exponentBase = 10 then fives + n.exponent else fives
      let top := twos + n.digits.log2 + 1
      if Form.minExp ≤ top && top ≤ Form.maxExp then
        some ⟨prec, n.negative, scaledForm prec n.digits twos fives⟩
      else none
    else
      some ⟨prec, n.negative, Form.ofRatio prec n.digits (Nat.pow 5 fives.natAbs) twos⟩

/-- The names of the infinities. -/
def named? (prec : Nat) (s : Bytes) : Option Binary :=
  let (negative, body) := Numeral.takeSign s
  if body = ("Inf" : Bytes) || body = ("inf" : Bytes) then some (infinity prec negative)
  else none

/-- Reads a number to a precision; `none` when the text is not a number. -/
def read? (prec : Nat) (s : Bytes) : Option Binary :=
  match named? prec s with
  | some x => some x
  | none => (Numeral.readWide? s).bind (ofNumeral? prec)

end Binary
end Reckon
