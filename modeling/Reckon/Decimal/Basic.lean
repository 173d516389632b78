import Reckon.Text.Bytes

/-!
# Exact decimals

A binary number `m * 2 ^ e` has a finite decimal expansion.  `Decimal` holds the digits of such an
expansion and the place of the point; printing a value rounds the expansion to the digits asked for.
-/

namespace Reckon

/-- The number `0.d₁d₂d₃… * 10 ^ exp`.  The first and the last digit are not zero, and zero has no
digits. -/
structure Decimal where
  /-- The digits as ASCII bytes. -/
  digits : Bytes
  exp : Int
  deriving DecidableEq, Repr

namespace Decimal

/-- The digit zero. -/
def zeroDigit : UInt8 :=
  0x30

/-- The digit nine. -/
def nineDigit : UInt8 :=
  0x39

/-- The decimal digits of `n` in a field of `2 ^ k` places.  Halving the field at each step keeps the
numbers that are divided small. -/
def field : (k n : Nat) → Bytes
  | 0, n => [(0x30 + n % 10).toUInt8]
  | k + 1, n =>
    let half := Nat.pow 10 (Nat.pow 2 k)
    field k (n / half) ++ field k (n % half)

/-- The decimal digits of a natural number without leading zeros; zero has none. -/
def digitsOf (n : Nat) : Bytes :=
  if n < Nat.pow 10 16 then
    if n = 0 then [] else Bytes.ofNat n
  else (field ((n.log2 / 3 + 1).log2 + 1) n).dropWhile (· = zeroDigit)

/-- The decimal of the given digits and place, without the zeros at the end. -/
def trim (digits : Bytes) (exp : Int) : Decimal :=
  match Bytes.dropEndWhile (· = zeroDigit) digits with
  | [] => ⟨[], 0⟩
  | kept => ⟨kept, exp⟩

/-- The decimal `n * 10 ^ s`. -/
def ofNatScaled (n : Nat) (s : Int) : Decimal :=
  let digits := digitsOf n
  trim digits (digits.length + s)

/-- The decimal expansion of `m * 2 ^ e`. -/
def ofBinary (m : Nat) (e : Int) : Decimal :=
  match e with
  | .ofNat k => ofNatScaled (m <<< k) 0
  | .negSucc k => ofNatScaled (m * Nat.pow 5 (k + 1)) (-(k + 1 : Nat))

/-- The digit at a place counted from the first one, zero outside. -/
def digitAt (d : Decimal) (i : Int) : UInt8 :=
  match i with
  | .ofNat n => d.digits.getD n zeroDigit
  | .negSucc _ => zeroDigit

/-- The first `n` digits, the rest dropped. -/
def roundDown (d : Decimal) (n : Nat) : Decimal :=
  if n < d.digits.length then trim (d.digits.take n) d.exp else d

/-- Adds one to the last of some digits, given in reverse: nines at the end vanish. -/
def increment : Bytes → Bytes
  | [] => []
  | d :: ds => if d = nineDigit then increment ds else (d + 1) :: ds

/-- The first `n` digits raised by one in the last place. -/
def roundUp (d : Decimal) (n : Nat) : Decimal :=
  if n < d.digits.length then
    match increment (d.digits.take n).reverse with
    | [] => ⟨[zeroDigit + 1], d.exp + 1⟩
    | kept => ⟨kept.reverse, d.exp⟩
  else d

/-- Whether rounding to `n` digits goes up: past the middle, or at the middle when the last digit
kept is odd. -/
def goesUp (d : Decimal) (n : Nat) : Bool :=
  match d.digits.drop n with
  | [] => false
  | [0x35] => 0 < n && (d.digitAt ((n : Int) - 1)) % 2 = 1
  | next :: _ => 0x35 ≤ next

/-- The decimal rounded to `n` digits, ties to the even digit; fewer digits are left as they are, and
so is every decimal when `n` is negative. -/
def round (d : Decimal) (n : Int) : Decimal :=
  match n with
  | .negSucc _ => d
  | .ofNat n => if d.goesUp n then d.roundUp n else d.roundDown n

end Decimal
end Reckon
