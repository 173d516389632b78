import Reckon.Binary.Power
import Reckon.Binary.Read
import Reckon.Expr.Basic

/-!
# Values of trees

A tree is evaluated children first, in one of two arithmetics.  Double precision has no failure of its
own: a division by zero or an undefined operation follows IEEE 754.  Arbitrary precision reads each
literal again, to the precision asked for, and reports an operation that has no result.
-/

namespace Reckon
namespace Expr

/-- Applies an operation in double precision. -/
def applyDouble (op : Operation) (x y : Float) : Except Defect Float :=
  match op with
  | .add => .ok (x + y)
  | .subtract => .ok (x - y)
  | .multiply => .ok (x * y)
  | .divide => .ok (x / y)
  | .exponent => .ok (Double.pow x y)
  | .undefined code => .error (.appliedUndefined (.undefined code))

/-- The value of a tree in double precision. -/
def evaluate : Expr → Except Defect Float
  | .constant value _ => .ok value
  | .binary op left right =>
    match left.evaluate with
    | .error d => .error d
    | .ok x =>
      match right.evaluate with
      | .error d => .error d
      | .ok y => applyDouble op x y
  | .absent => .error .missingNode

end Expr

/-- Why a tree has no value in arbitrary precision. -/
inductive EvalError where
  /-- An operation has no result for its operands. -/
  | domain (op : Operation) (reason : Undefined)
  /-- A constant is undefined and has no literal that can be read. -/
  | undefinedConstant
  /-- The tree is not well formed. -/
  | defect (d : Defect)
  deriving DecidableEq, Repr

namespace Expr

/-- The precision used when none is given. -/
def defaultPrecision : Nat := 64

/-- The number a constant stands for, read from its literal if it has one that can be read. -/
def constantBinary (prec : Nat) (value : Float) (text : Bytes) : Except EvalError Binary :=
  let fallback : Except EvalError Binary :=
    if Double.isNaN value then .error .undefinedConstant
    else .ok (Binary.ofDouble prec value)
  if text.isEmpty then fallback
  else match Binary.read? prec text with
    | some x => .ok x
    | none => fallback

/-- Applies an operation in arbitrary precision. -/
def applyBinary (prec : Nat) (op : Operation) (x y : Binary)
    (fraction : Binary.FractionalPower := .rounded) : Except EvalError Binary :=
  let result (r : Except Undefined Binary) : Except EvalError Binary :=
    match r with
    | .ok z => .ok z
    | .error reason => .error (.domain op reason)
  match op with
  | .add => result (Binary.add prec x y)
  | .subtract => result (Binary.sub prec x y)
  | .multiply => result (Binary.mul prec x y)
  | .divide => result (Binary.div prec x y)
  | .exponent => result (Binary.pow prec x y fraction)
  | .undefined code => .error (.defect (.appliedUndefined (.undefined code)))

/-- The value of a tree with a given positive number of bits. -/
def evaluateAt (prec : Nat) (e : Expr) (fraction : Binary.FractionalPower := .rounded) :
    Except EvalError Binary :=
  match e with
  | .constant value text => constantBinary prec value text
  | .binary op left right =>
    match left.evaluateAt prec fraction with
    | .error e => .error e
    | .ok x =>
      match right.evaluateAt prec fraction with
      | .error e => .error e
      | .ok y => applyBinary prec op x y fraction
  | .absent => .error (.defect .missingNode)

/-- The value of a tree in arbitrary precision; zero asks for the default precision. -/
def evaluateBinary (prec : Nat) (e : Expr) (fraction : Binary.FractionalPower := .rounded) :
    Except EvalError Binary :=
  e.evaluateAt (Binary.clampPrec (if prec = 0 then defaultPrecision else prec)) fraction

end Expr
end Reckon
