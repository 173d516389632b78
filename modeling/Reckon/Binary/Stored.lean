import Reckon.Binary.Power
import Reckon.Binary.Read

/-!
# How numbers are stored

A mantissa is stored in words of 64 bits.  The highest word begins with a set bit, and words below it
may be zero: how many there are depends on how the number was computed.  A number also keeps the
direction in which it was last rounded.

Neither has an influence on a value.  They show only where a number is printed field by field, and
are worked out from the operands, apart from the arithmetic.
-/

namespace Reckon

/-- A number with what is stored beside its value. -/
structure Stored where
  number : Binary
  /-- The number of words of the mantissa. -/
  words : Nat
  /-- The order of the number and the exact result that was rounded to it. -/
  accuracy : Ordering
  deriving Repr

namespace Stored

/-- The bits of a word. -/
def wordBits : Nat :=
  64

/-- The number of words that hold a number of bits. -/
def wordsFor (bits : Nat) : Nat :=
  (bits + (wordBits - 1)) / wordBits

/-- How many of the words of a result are left when it is rounded: all of them if no bit is too many,
else as many as the precision needs. -/
def keep (prec words : Nat) : Nat :=
  if wordBits * words ≤ prec then words else wordsFor prec

/-- The order of a positive number and `num / den * 2 ^ e`. -/
def compareRatio (form : Form) (num den : Nat) (e : Int) : Ordering :=
  match form with
  | .zero => compare 0 num
  | .infinite => .gt
  | .finite x =>
    let unit := min x.exp e
    compare ((x.mant <<< (x.exp - unit).toNat) * den) (num <<< (e - unit).toNat)

/-- The order of two numbers of one sign, from that of their magnitudes. -/
def orient (negative : Bool) (order : Ordering) : Ordering :=
  if negative then order.swap else order

/-- A result with its words; only a finite number has any. -/
def make (z : Binary) (words : Nat) (accuracy : Ordering) : Stored :=
  ⟨z, if z.form matches .finite _ then words else 0, accuracy⟩

/-- The sum `z` of two numbers.  The operands are aligned at the lower one of their lowest words. -/
def sum (prec : Nat) (z : Binary) (x y : Stored) : Stored :=
  match x.number.form, y.number.form with
  | .finite a, .finite b =>
    let unit := min (a.top - (wordBits * x.words : Nat)) (b.top - (wordBits * y.words : Nat))
    let exact := Binary.signedUnits x.number.negative a unit
      + Binary.signedUnits y.number.negative b unit
    make z (keep prec (wordsFor (exact.natAbs.log2 + 1)))
      (orient z.negative (compareRatio z.form exact.natAbs 1 unit))
  | .finite _, _ => make z x.words .eq
  | _, _ => make z y.words .eq

/-- The product `z` of two numbers. -/
def product (prec : Nat) (z : Binary) (x y : Stored) : Stored :=
  match x.number.form, y.number.form with
  | .finite a, .finite b =>
    make z (keep prec (x.words + y.words))
      (orient z.negative (compareRatio z.form (a.mant * b.mant) 1 (a.exp + b.exp)))
  | _, _ => make z 0 .eq

/-- The quotient `z` of two numbers, which is computed to as many words as the precision needs. -/
def quotient (prec : Nat) (z : Binary) (x y : Stored) : Stored :=
  match x.number.form, y.number.form with
  | .finite a, .finite b =>
    make z (wordsFor prec)
      (orient z.negative (compareRatio z.form a.mant b.mant (a.exp - b.exp)))
  | _, _ => make z 0 .eq

/-- The words of a product after the squarings for `n`, from those of the product so far and of the
current square. -/
def squaringWords (wide n acc square : Nat) : Nat :=
  if _h : n = 0 then acc
  else
    let acc := if n % 2 = 1 then keep wide (acc + square) else acc
    squaringWords wide (n / 2) acc (keep wide (square + square))
termination_by n

/-- The power `z` of a base to an integer exponent.  Its last rounding is that of the magnitude. -/
def integerPower (prec : Nat) (z : Binary) (x : Stored) (inverse : Bool) (n : Nat) : Stored :=
  let wide := Binary.clampPrec (prec + Binary.powGuardBits)
  let words := if inverse then wordsFor wide else squaringWords wide n 1 x.words
  match Binary.powWide wide x.number inverse n with
  | .ok ⟨_, _, .finite w⟩ => make z (keep prec words) (compareRatio z.form w.mant 1 w.exp)
  | _ => make z 0 .eq

/-- The power `z` of a base to a fractional exponent. -/
def fractionalPower (prec : Nat) (z : Binary) (b : Magnitude) (inverse : Bool) (e : Magnitude) :
    Stored :=
  if (Binary.exactFraction? prec b inverse e).isSome then make z (wordsFor prec) .eq
  else
    let (w, m, n) := Binary.approximate (prec + 32) b inverse e
    make z (wordsFor prec) (compareRatio z.form m 1 (n - w))

/-- The power `z` of two numbers. -/
def power (prec : Nat) (z : Binary) (x y : Stored) : Stored :=
  match z.form, x.number.form, y.number.form with
  | .finite _, .finite b, .finite e =>
    if b = .one then make z 1 .eq
    else if e.isInteger then integerPower prec z x y.number.negative (Binary.integerPart e)
    else fractionalPower prec z b y.number.negative e
  | _, _, _ => make z 1 .eq

/-- The number `z` read from a plain literal.  The power of ten that its decimal places stand for is
divided out. -/
def literal (prec : Nat) (z : Binary) (n : Numeral) : Stored :=
  let accuracy := orient z.negative (compareRatio z.form n.digits (Nat.pow 5 n.places) (-n.places))
  if n.places = 0 then make z (keep prec (wordsFor (n.digits.log2 + 1))) accuracy
  else make z (wordsFor prec) accuracy

/-- The words of the mantissa, the lowest first. -/
def mantissaWords (s : Stored) : List Nat :=
  match s.number.form with
  | .finite x =>
    let mantissa := x.mant <<< (wordBits * s.words - x.bits)
    (List.range s.words).map fun i => mantissa >>> (wordBits * i) % Nat.pow 2 wordBits
  | _ => []

end Stored
end Reckon
