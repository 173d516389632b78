import Reckon.Binary.Stored
import Reckon.Expr.Evaluate

/-!
# How the value of a tree is stored

The words and the last rounding of a value follow from those of the operands, so that they are worked
out for the whole tree, beside its values.
-/

namespace Reckon
namespace Expr

/-- The result `z` of an operation with how it is stored. -/
def applyStored (prec : Nat) (op : Operation) (z : Binary) (x y : Stored) : Stored :=
  match op with
  | .add => Stored.sum prec z x y
  | .subtract => Stored.sum prec z x { y with number := y.number.neg }
  | .multiply => Stored.product prec z x y
  | .divide => Stored.quotient prec z x y
  | .exponent => Stored.power prec z x y
  | .undefined _ => Stored.make z 0 .eq

/-- The number that a constant stands for with how it is stored. -/
def constantStored (prec : Nat) (z : Binary) (text : Bytes) : Stored :=
  match Numeral.readWide? text with
  | some n => Stored.literal prec z n
  | none => Stored.make z 1 .eq

/-- The value of a tree with how it is stored; `none` if the tree has no value. -/
def stored? (prec : Nat) (e : Expr) (fraction : Binary.FractionalPower := .rounded) :
    Option Stored :=
  match e with
  | .constant value text =>
    (constantBinary prec value text).toOption.map fun z => constantStored prec z text
  | .binary op left right =>
    match left.stored? prec fraction, right.stored? prec fraction with
    | some x, some y =>
      (applyBinary prec op x.number y.number fraction).toOption.map fun z =>
        applyStored prec op z x y
    | _, _ => none
  | .absent => none

end Expr
end Reckon
