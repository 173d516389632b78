import Reckon.Proofs.Expr.Spelled
import Reckon.Proofs.Visit

/-!
# The nodes of a tree in post-order

Both subtrees of a node stand before it, the left one first.  A walk over a complete tree is a visit
of this list, and evaluation meets the nodes in the same order.
-/

namespace Reckon
namespace Expr

/-- A tree without missing parts. -/
inductive Complete : Expr → Prop
  | constant (value : Float) (text : Bytes) : Complete (.constant value text)
  | binary (op : Operation) {left right : Expr} (hleft : Complete left) (hright : Complete right) :
      Complete (.binary op left right)

/-- A tree without missing parts whose operations are defined. -/
inductive WellFormed : Expr → Prop
  | constant (value : Float) (text : Bytes) : WellFormed (.constant value text)
  | binary {op : Operation} {left right : Expr} (hop : op.isDefined = true)
      (hleft : WellFormed left) (hright : WellFormed right) : WellFormed (.binary op left right)

theorem WellFormed.complete {e : Expr} (h : e.WellFormed) : e.Complete := by
  induction h with
  | constant value text => exact .constant value text
  | binary _ _ _ ihl ihr => exact .binary _ ihl ihr

theorem Spelled.wellFormed {e : Expr} (h : e.Spelled) : e.WellFormed := by
  induction h with
  | constant _ => exact .constant _ _
  | binary hop _ _ ihl ihr => exact .binary hop ihl ihr

/-- The nodes of a tree: those of the left subtree, those of the right one, the node itself. -/
def postOrder : Expr → List Expr
  | .constant value text => [.constant value text]
  | .binary op left right => left.postOrder ++ right.postOrder ++ [.binary op left right]
  | .absent => []

/-- A walk over a complete tree visits its nodes in post-order. -/
theorem Complete.walk_eq
    {σ : Type} (visit : Expr → σ → σ × Bool) {e : Expr} (h : e.Complete) (s : σ) :
    e.walk visit s = .ok (visitList visit e.postOrder s) := by
  induction h generalizing s with
  | constant value text => rw [walk, postOrder, visitList_singleton]
  | @binary op left right _ _ ihl ihr =>
    rw [walk, postOrder, List.append_assoc, visitList_append, ihl]
    rcases visitList visit left.postOrder s with ⟨s', _ | _⟩
    · rfl
    · dsimp only
      rw [visitList_append, ihr]
      rcases visitList visit right.postOrder s' with ⟨s'', _ | _⟩
      · rfl
      · dsimp only
        rw [visitList_singleton]

/-! ## Evaluation -/

/-- The precision that a tree is evaluated with: the one asked for, 64 bits if that is zero, and no
more than the largest one there is. -/
def workingPrecision (prec : Nat) : Nat :=
  if prec = 0 then 64 else min prec 4294967295

theorem one_le_workingPrecision (prec : Nat) : 1 ≤ workingPrecision prec := by
  unfold workingPrecision
  split
  · decide
  · omega

theorem evaluateBinary_eq (prec : Nat) (e : Expr) (fraction : Binary.FractionalPower) :
    e.evaluateBinary prec fraction = e.evaluateAt (workingPrecision prec) fraction := by
  unfold evaluateBinary workingPrecision
  by_cases hzero : prec = 0
  · rw [if_pos hzero, if_pos hzero]
    rfl
  · rw [if_neg hzero, if_neg hzero]
    rfl

/-- What an operation does with two numbers.  One that is not defined is never applied. -/
def applyNumeric (prec : Nat) (fraction : Binary.FractionalPower) (op : Operation) (x y : Binary) :
    Except Undefined Binary :=
  match op with
  | .add => Binary.add prec x y
  | .subtract => Binary.sub prec x y
  | .multiply => Binary.mul prec x y
  | .divide => Binary.div prec x y
  | .exponent => Binary.pow prec x y fraction
  | .undefined _ => .error (.stated [])

/-- A defined operation is applied to the numbers, and its error is given its name. -/
theorem applyBinary_eq
    {op : Operation} (hop : op.isDefined = true) (prec : Nat) (fraction : Binary.FractionalPower)
    (x y : Binary) :
    applyBinary prec op x y fraction =
      (applyNumeric prec fraction op x y).mapError (.domain op) := by
  cases op with
  | undefined code => cases hop
  | add | subtract | multiply | divide | exponent =>
    simp only [applyBinary, applyNumeric]
    split
    all_goals
      rename_i hresult
      rw [hresult]
      rfl

theorem evaluateAt_binary_of_ok
    {prec : Nat} {fraction : Binary.FractionalPower} {op : Operation} {left right : Expr}
    {x y : Binary} (hleft : left.evaluateAt prec fraction = .ok x)
    (hright : right.evaluateAt prec fraction = .ok y) :
    (binary op left right).evaluateAt prec fraction = applyBinary prec op x y fraction := by
  simp only [evaluateAt, hleft, hright]

/-- The values of both subtrees of an operation that has one. -/
theorem exists_of_evaluateAt_binary
    {prec : Nat} {fraction : Binary.FractionalPower} {op : Operation} {left right : Expr}
    {z : Binary}
    (h : (binary op left right).evaluateAt prec fraction = .ok z) :
    ∃ x y, left.evaluateAt prec fraction = .ok x ∧ right.evaluateAt prec fraction = .ok y ∧
      applyBinary prec op x y fraction = .ok z := by
  rw [evaluateAt] at h
  cases hleft : left.evaluateAt prec fraction with
  | error err => simp [hleft] at h
  | ok x =>
    cases hright : right.evaluateAt prec fraction with
    | error err => simp [hleft, hright] at h
    | ok y => exact ⟨x, y, rfl, rfl, by simpa only [hleft, hright] using h⟩

end Expr
end Reckon
