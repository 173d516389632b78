import Reckon.Decimal.Basic

/-!
# The fewest digits that identify a number

A printed number should read back as the number it came from.  Among the decimals that do, the
shortest is printed, and of several with that many digits the nearest.
-/

namespace Reckon
namespace Decimal

/-- A number and the ends of the interval of numbers that round to it, all as integers in units of
`10 ^ scale`. -/
structure Interval where
  low : Nat
  value : Nat
  high : Nat
  scale : Int
  /-- Whether the ends themselves round to the number. -/
  closed : Bool

namespace Interval

/-- Whether a number rounds to the value of the interval. -/
def contains (i : Interval) (x : Nat) : Bool :=
  if i.closed then i.low ≤ x && x ≤ i.high else i.low < x && x < i.high

/-- The decimal on the grid of spacing `10 ^ unit` that lies in the interval: the neighbour below or
above the value, the nearer one if both do, and the even one of two at the same distance. -/
def onGrid? (i : Interval) (unit : Nat) : Option Decimal :=
  let spacing := Nat.pow 10 unit
  let below := i.value / spacing
  let rest := i.value % spacing
  let chosen? : Option Nat :=
    match i.contains (below * spacing), i.contains ((below + 1) * spacing) with
    | true, true =>
      if 2 * rest < spacing || (2 * rest = spacing && below % 2 = 0) then some below
      else some (below + 1)
    | true, false => some below
    | false, true => some (below + 1)
    | false, false => none
  chosen?.map fun n => ofNatScaled n (unit + i.scale)

/-- The first grid that has a decimal in the interval, from spacing `10 ^ unit` down to single
units. -/
def search (i : Interval) : (unit : Nat) → Decimal
  | 0 => ofNatScaled i.value i.scale
  | unit + 1 => (i.onGrid? unit).getD (i.search unit)

/-- The decimal of the fewest digits in the interval. -/
def shortest (i : Interval) : Decimal :=
  i.search (digitsOf i.value).length

end Interval

/-- The interval of real numbers that round to `m * 2 ^ e` when `m` has its full precision.  Just
above a power of two, where `narrow` holds, the neighbour below is at half the distance. -/
def roundingInterval (m : Nat) (e : Int) (narrow : Bool) : Interval :=
  let (factor, scale) : Nat × Int := match e - 2 with
    | .ofNat k => (Nat.pow 2 k, 0)
    | .negSucc k => (Nat.pow 5 (k + 1), -(k + 1 : Nat))
  { low := (4 * m - if narrow then 1 else 2) * factor
    value := 4 * m * factor
    high := (4 * m + 2) * factor
    scale
    closed := m % 2 = 0 }

/-- Walks the digits of `d` until they part from both bounds, and rounds there.  `i` digits were
common so far; `d₀` is the whole decimal. -/
def partFrom (d₀ : Decimal) (lower upper : Decimal) (closed : Bool) (i : Nat) :
    (rest : Bytes) → Decimal
  | [] => d₀
  | m :: rest =>
    let l := lower.digitAt i
    let u := upper.digitAt i
    let down := l != m || (closed && i + 1 = lower.digits.length)
    let up := m != u && (closed || m + 1 < u || i + 1 < upper.digits.length)
    match down, up with
    | true, true => d₀.round (i + 1)
    | true, false => d₀.roundDown (i + 1)
    | false, true => d₀.roundUp (i + 1)
    | false, false => partFrom d₀ lower upper closed (i + 1) rest

/-- The fewest digits for `m * 2 ^ e`, where `2 ^ unit` is the weight of half the last place: the
digits are compared place by place with those of the two ends of the interval. -/
def shortestBetween (m : Nat) (e unit : Int) : Decimal :=
  let inHalves := match e - unit with
    | .ofNat k => m <<< k
    | .negSucc k => m >>> (k + 1)
  let d := ofBinary m e
  let lower := ofBinary (inHalves - 1) unit
  let upper := ofBinary (inHalves + 1) unit
  partFrom d lower upper (inHalves / 2 % 2 = 0) 0 d.digits

end Decimal
end Reckon
