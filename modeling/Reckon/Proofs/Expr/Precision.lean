import Reckon.Proofs.Binary.Precision
import Reckon.Proofs.Expr.PostOrder

/-!
# The precision of the value of a tree

A tree is evaluated with one precision throughout.  Its value and the values of all nodes have it,
wherever they come from: a literal, a double precision number, an operation that rounds, or a special
case that does not compute anything.
-/

namespace Reckon
namespace Expr

variable {prec : ℕ} {fraction : Binary.FractionalPower}

theorem hasPrecision_constantBinary
    (hprec : 1 ≤ prec) {value : Float} {text : Bytes} {z : Binary}
    (h : constantBinary prec value text = .ok z) : z.HasPrecision prec := by
  have hfallback (h : (if Double.isNaN value then .error .undefinedConstant
      else .ok (Binary.ofDouble prec value) : Except EvalError Binary) = .ok z) :
      z.HasPrecision prec := by
    split at h <;> cases h
    exact Binary.hasPrecision_ofDouble hprec value
  unfold constantBinary at h
  dsimp only at h
  split at h
  · exact hfallback h
  · split at h
    · cases h
      exact Binary.hasPrecision_read? hprec ‹_›
    · exact hfallback h

theorem hasPrecision_applyNumeric
    (hprec : 1 ≤ prec) (hfraction : fraction.KeepsPrecision) {op : Operation} {x y z : Binary}
    (hx : x.HasPrecision prec) (hy : y.HasPrecision prec)
    (h : applyNumeric prec fraction op x y = .ok z) : z.HasPrecision prec := by
  cases op with
  | add => exact Binary.hasPrecision_add hprec hx hy h
  | subtract => exact Binary.hasPrecision_sub hprec hx hy h
  | multiply => exact Binary.hasPrecision_mul hprec h
  | divide => exact Binary.hasPrecision_div hprec h
  | exponent => exact Binary.hasPrecision_pow hprec hfraction h
  | undefined code => cases h

theorem hasPrecision_applyBinary
    (hprec : 1 ≤ prec) (hfraction : fraction.KeepsPrecision) {op : Operation} {x y z : Binary}
    (hx : x.HasPrecision prec) (hy : y.HasPrecision prec)
    (h : applyBinary prec op x y fraction = .ok z) : z.HasPrecision prec := by
  have hop : op.isDefined = true := by
    cases op with
    | undefined code => cases h
    | add | subtract | multiply | divide | exponent => rfl
  rw [applyBinary_eq hop] at h
  cases hresult : applyNumeric prec fraction op x y with
  | error reason =>
    rw [hresult] at h
    cases h
  | ok w =>
    rw [hresult] at h
    cases h
    exact hasPrecision_applyNumeric hprec hfraction hx hy hresult

theorem hasPrecision_evaluateAt
    (hprec : 1 ≤ prec) (hfraction : fraction.KeepsPrecision) {e : Expr} {z : Binary}
    (h : e.evaluateAt prec fraction = .ok z) : z.HasPrecision prec := by
  induction e generalizing z with
  | constant value text => exact hasPrecision_constantBinary hprec h
  | binary op left right ihl ihr =>
    obtain ⟨x, y, hx, hy, h⟩ := exists_of_evaluateAt_binary h
    exact hasPrecision_applyBinary hprec hfraction (ihl hx) (ihr hy) h
  | absent => cases h

/-- Every node of a tree that has a value has one. -/
theorem exists_evaluateAt_of_mem_postOrder
    {e node : Expr} {z : Binary} (h : e.evaluateAt prec fraction = .ok z)
    (hnode : node ∈ e.postOrder) : ∃ x, node.evaluateAt prec fraction = .ok x := by
  induction e generalizing z with
  | constant value text =>
    obtain rfl := List.mem_singleton.mp hnode
    exact ⟨z, h⟩
  | binary op left right ihl ihr =>
    obtain ⟨x, y, hx, hy, -⟩ := exists_of_evaluateAt_binary h
    rw [postOrder, List.mem_append, List.mem_append, List.mem_singleton] at hnode
    rcases hnode with (hnode | hnode) | rfl
    · exact ihl hx hnode
    · exact ihr hy hnode
    · exact ⟨z, h⟩
  | absent => cases h

/-- Whenever a tree is evaluated in arbitrary precision, its value and those of all its nodes have
exactly the precision it is evaluated with. -/
theorem evaluateBinary_hasPrecision
    (prec : ℕ) {fraction : Binary.FractionalPower} (hfraction : fraction.KeepsPrecision)
    {e : Expr} {z : Binary} (h : e.evaluateBinary prec fraction = .ok z) :
    z.HasPrecision (workingPrecision prec) ∧
      ∀ node ∈ e.postOrder, ∃ x, node.evaluateAt (workingPrecision prec) fraction = .ok x ∧
        x.HasPrecision (workingPrecision prec) := by
  rw [evaluateBinary_eq] at h
  have hprec := one_le_workingPrecision prec
  refine ⟨hasPrecision_evaluateAt hprec hfraction h, ?_⟩
  intro node hnode
  obtain ⟨x, hx⟩ := exists_evaluateAt_of_mem_postOrder h hnode
  exact ⟨x, hx, hasPrecision_evaluateAt hprec hfraction hx⟩

/-- The infinity `0 ^ -1` is not computed, yet it has the five bits asked for. -/
theorem evaluateBinary_hasPrecision_of_infinite_power :
    (binary .exponent (constant 0 []) (constant (-1) [])).evaluateBinary 5 =
        .ok (.infinity 5 false) ∧
      (Binary.infinity 5 false).HasPrecision (workingPrecision 5) := by
  have hvalue : (binary .exponent (constant 0 []) (constant (-1) [])).evaluateBinary 5 =
      .ok (.infinity 5 false) := by
    decide
  exact ⟨hvalue, (evaluateBinary_hasPrecision 5 Binary.keepsPrecision_rounded hvalue).1⟩

end Expr
end Reckon
