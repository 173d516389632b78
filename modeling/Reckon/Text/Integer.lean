import Reckon.Numeral

/-!
# Integers as text

Integers in a given base or in a base that the text names (`0x`, `0o`, `0b`, a leading zero), up to a
largest value.  Characters are looked at from left to right, so the first fault decides what is wrong
with a text.
-/

namespace Reckon
namespace Integer

/-- Why a text is no integer of the wanted range. -/
inductive Fault where
  | malformed
  | outOfRange
  deriving DecidableEq, Repr

/-- The largest integer of 64 bits without a sign. -/
def maxUnsigned : Nat :=
  Nat.pow 2 64 - 1

/-- Appends a digit to a number that may not exceed `max`. -/
def pushDigit (base max n : Nat) (b : UInt8) : Except Fault Nat :=
  match Numeral.digitIn? base b with
  | none => .error .malformed
  | some d => if n * base + d > max then .error .outOfRange else .ok (n * base + d)

/-- The number spelled by the digits of a base. -/
def ofDigits (base max : Nat) (s : Bytes) : Except Fault Nat :=
  if s.isEmpty then .error .malformed else s.foldlM (pushDigit base max) 0

/-- The base that a text names and the digits after the mark. -/
def splitBase (s : Bytes) : Nat × Bytes :=
  match s with
  | 0x30 :: mark :: d :: rest =>
    match Numeral.baseOfMark? mark with
    | some base => (base, d :: rest)
    | none => (8, mark :: d :: rest)
  | 0x30 :: rest => (8, rest)
  | s => (10, s)

/-- The number spelled in a base that the text names, with separators between digits. -/
def ofAnyBase (max : Nat) (s : Bytes) : Except Fault Nat :=
  if s.isEmpty then .error .malformed
  else
    let (base, digits) := splitBase s
    match (digits.filter (· != Numeral.separator)).foldlM (pushDigit base max) 0 with
    | .error e => .error e
    | .ok n =>
      if digits.contains Numeral.separator && !Numeral.separatorsFit s then .error .malformed
      else .ok n

/-- An integer of 64 bits with an optional sign; `digits` reads what follows the sign. -/
def ofSigned (digits : Bytes → Except Fault Nat) (s : Bytes) : Except Fault Int :=
  let (negative, body) := Numeral.takeSign s
  match digits body with
  | .error e => .error e
  | .ok n =>
    if n < Nat.pow 2 63 || (negative && n = Nat.pow 2 63) then .ok (Numeral.signed negative n)
    else .error .outOfRange

/-- A decimal integer of 64 bits with an optional sign. -/
def ofDecimal (s : Bytes) : Except Fault Int :=
  ofSigned (ofDigits 10 maxUnsigned) s

end Integer
end Reckon
