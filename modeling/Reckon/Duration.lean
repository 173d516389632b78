import Reckon.Double.Basic
import Reckon.Text.Bytes

/-!
# Durations

A duration is a signed number of nanoseconds that fits in 64 bits.  It is written as a sequence of
decimal numbers with units, such as `1h30m0s`.
-/

namespace Reckon

/-- A span of time in nanoseconds. -/
structure Duration where
  ns : Int
  deriving DecidableEq, Repr

/-- Why a text is no duration. -/
inductive DurationError where
  | invalid (text : Bytes)
  | missingUnit (text : Bytes)
  | unknownUnit (unit text : Bytes)
  deriving DecidableEq, Repr

namespace DurationError

/-- A text between double quotes; bytes that are not printable ASCII are written in hexadecimal. -/
def quote (s : Bytes) : Bytes :=
  let escape (b : UInt8) : Bytes :=
    if b < 0x20 || 0x80 ≤ b then 0x5C :: 0x78 :: Bytes.hexOfNat 2 b.toNat
    else if b = 0x22 || b = 0x5C then [0x5C, b]
    else [b]
  0x22 :: s.flatMap escape ++ [0x22]

/-- The message of an error. -/
def message : DurationError → Bytes
  | .invalid text => "time: invalid duration " ++ quote text
  | .missingUnit text => "time: missing unit in duration " ++ quote text
  | .unknownUnit unit text =>
    "time: unknown unit " ++ quote unit ++ " in duration " ++ quote text

end DurationError

namespace Duration

/-- The nanoseconds of a unit.  A microsecond may be written with either of the two letters mu. -/
def unitOf? (unit : Bytes) : Option Nat :=
  if unit = ("ns" : Bytes) then some 1
  else if unit = ("us" : Bytes) || unit = ("\u00b5s" : Bytes) || unit = ("\u03bcs" : Bytes) then
    some 1000
  else if unit = ("ms" : Bytes) then some 1000000
  else if unit = ("s" : Bytes) then some 1000000000
  else if unit = ("m" : Bytes) then some 60000000000
  else if unit = ("h" : Bytes) then some 3600000000000
  else none

/-- The largest magnitude of a duration. -/
def bound : Nat :=
  Nat.pow 2 63

/-- The fraction spelled by some digits as a numerator and a power of ten; digits past the range of
the numerator are ignored. -/
def fraction (digits : Bytes) : Nat × Float :=
  let step : Nat × Float × Bool → UInt8 → Nat × Float × Bool
    | (x, scale, full), d =>
      let y := x * 10 + Bytes.digitValue d
      if full || x > (bound - 1) / 10 || y > bound then (x, scale, true)
      else (y, scale * 10.0, false)
  let (x, scale, _) := digits.foldl step (0, 1.0, false)
  (x, scale)

/-- The nanoseconds of `whole` and a fraction in some unit; `none` when they are too many.  The
fraction is computed in double precision. -/
def amount? (whole : Nat) (frac : Nat × Float) (unit : Nat) : Option Nat :=
  if whole > bound / unit then none
  else
    let part :=
      if frac.1 = 0 then 0
      else
        Double.floorAbs (Double.ofInt frac.1 * (Double.ofInt unit / frac.2))
    let total := whole * unit + part
    if total > bound then none else some total

/-- A byte that belongs to a number. -/
def isNumeric (b : UInt8) : Bool :=
  Bytes.isDigit b || b = 0x2E

/-- The digits after a point at the start of a text, and what follows them. -/
def takeFraction (s : Bytes) : Bytes × Bytes :=
  match s with
  | 0x2E :: t => (t.takeWhile Bytes.isDigit, t.dropWhile Bytes.isDigit)
  | _ => ([], s)

/-- Reads numbers with units until the text ends and adds them to `sum`.  `text` is the whole text
for the messages. -/
def sumFrom (text : Bytes) (sum : Nat) : (fuel : Nat) → (s : Bytes) → Except DurationError Nat
  | 0, _ => .error (.invalid text)
  | _, [] => .ok sum
  | fuel + 1, b :: s =>
    if !isNumeric b then .error (.invalid text)
    else
      let whole := (b :: s).takeWhile Bytes.isDigit
      let (frac, rest) := takeFraction ((b :: s).dropWhile Bytes.isDigit)
      if Bytes.natOfDigits whole > bound || (whole.isEmpty && frac.isEmpty) then
        .error (.invalid text)
      else
        let unit := rest.takeWhile (fun c => !isNumeric c)
        let after := rest.dropWhile (fun c => !isNumeric c)
        if unit.isEmpty then .error (.missingUnit text)
        else match unitOf? unit with
          | none => .error (.unknownUnit unit text)
          | some u =>
            match amount? (Bytes.natOfDigits whole) (fraction frac) u with
            | none => .error (.invalid text)
            | some n =>
              let sum := (sum + n) % Nat.pow 2 64
              if sum > bound then .error (.invalid text)
              else sumFrom text sum fuel after

/-- Reads a duration.  Zero needs no unit. -/
def read (text : Bytes) : Except DurationError Duration :=
  let (negative, body) : Bool × Bytes := match text with
    | 0x2D :: s => (true, s)
    | 0x2B :: s => (false, s)
    | s => (false, s)
  if body = ("0" : Bytes) then .ok ⟨0⟩
  else if body.isEmpty then .error (.invalid text)
  else
    match sumFrom text 0 (body.length + 1) body with
    | .error e => .error e
    | .ok sum =>
      if negative then .ok ⟨-(sum : Int)⟩
      else if sum ≥ bound then .error (.invalid text)
      else .ok ⟨sum⟩

/-- A number of units of which `10 ^ places` make one whole, without zeros at the end. -/
def decimal (n places : Nat) : Bytes :=
  let unit := Nat.pow 10 places
  let digits := Bytes.ofNat (n % unit)
  let padded := List.replicate (places - digits.length) 0x30 ++ digits
  let shown := if places = 0 then [] else Bytes.dropEndWhile (· = 0x30) padded
  Bytes.ofNat (n / unit) ++ if shown.isEmpty then [] else 0x2E :: shown

/-- A number of nanoseconds with units.  Below a second a smaller unit is used; from a minute on the
seconds are preceded by minutes, and from an hour on by hours. -/
def renderNat (n : Nat) : Bytes :=
  if n = 0 then "0s"
  else if n < 1000 then decimal n 0 ++ "ns"
  else if n < 1000000 then decimal n 3 ++ "\u00b5s"
  else if n < 1000000000 then decimal n 6 ++ "ms"
  else
    let minutes := n / 60000000000
    let seconds := decimal (n % 60000000000) 9 ++ "s"
    if minutes = 0 then seconds
    else
      let hours := minutes / 60
      let tail := Bytes.ofNat (minutes % 60) ++ "m" ++ seconds
      if hours = 0 then tail else Bytes.ofNat hours ++ "h" ++ tail

/-- A duration with units. -/
def render (d : Duration) : Bytes :=
  if d.ns < 0 then 0x2D :: renderNat d.ns.natAbs else renderNat d.ns.natAbs

/-- The duration that a text sets: a text that cannot be read sets it to zero. -/
def readOrZero (text : Bytes) : Duration :=
  match read text with
  | .ok d => d
  | .error _ => ⟨0⟩

end Duration
end Reckon
