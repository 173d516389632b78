import Reckon.Proofs.Binary.Undefined
import Reckon.Proofs.Expr.PostOrder

/-!
# The first undefined node

A node is undefined if it is an operation without a result for the values of its subtrees, or a
constant that stands for no number.  Evaluation in arbitrary precision fails exactly if there is an
undefined node, and with the error of the first one in post-order.  What comes after it in the walk has
no influence on the error.
-/

namespace Reckon
namespace Expr

/-- A node that is undefined for the values of its subtrees, and the error that it gives. -/
inductive UndefinedAt (prec : ℕ) (fraction : Binary.FractionalPower) : Expr → EvalError → Prop
  | constant {value : Float} {text : Bytes} (htext : text = [] ∨ Binary.read? prec text = none)
      (hvalue : Double.isNaN value = true) :
      UndefinedAt prec fraction (.constant value text) .undefinedConstant
  | operation {op : Operation} {left right : Expr} {x y : Binary} {reason : Undefined}
      (hleft : left.evaluateAt prec fraction = .ok x)
      (hright : right.evaluateAt prec fraction = .ok y) (h : op.NoResult x y reason) :
      UndefinedAt prec fraction (.binary op left right) (.domain op reason)

/-- No node of a list is undefined. -/
def AllDefined (prec : ℕ) (fraction : Binary.FractionalPower) (nodes : List Expr) : Prop :=
  ∀ node ∈ nodes, ∀ err, ¬ UndefinedAt prec fraction node err

/-- The first undefined node of a list gives an error. -/
def FirstUndefined (prec : ℕ) (fraction : Binary.FractionalPower) (nodes : List Expr)
    (err : EvalError) : Prop :=
  ∃ before node after, nodes = before ++ node :: after ∧ AllDefined prec fraction before ∧
    UndefinedAt prec fraction node err

variable {prec : ℕ} {fraction : Binary.FractionalPower}

/-! ## One node -/

theorem constantBinary_eq_error_iff
    (fraction : Binary.FractionalPower) {value : Float} {text : Bytes} {err : EvalError} :
    constantBinary prec value text = .error err ↔
      UndefinedAt prec fraction (.constant value text) err := by
  have hundefined : UndefinedAt prec fraction (.constant value text) err ↔
      (text = [] ∨ Binary.read? prec text = none) ∧ Double.isNaN value = true ∧
        err = .undefinedConstant := by
    constructor
    · rintro ⟨htext, hvalue⟩
      exact ⟨htext, hvalue, rfl⟩
    · rintro ⟨htext, hvalue, rfl⟩
      exact .constant htext hvalue
  rw [hundefined, constantBinary]
  by_cases htext : text = [] ∨ Binary.read? prec text = none
  · by_cases hvalue : Double.isNaN value = true <;>
      rcases htext with rfl | htext <;>
        simp_all [eq_comm (a := err)]
  · obtain ⟨hne, hread⟩ := not_or.mp htext
    obtain ⟨x, hx⟩ := Option.ne_none_iff_exists'.mp hread
    simp [hne, hx]

theorem applyNumeric_eq_error_iff
    {op : Operation} (hop : op.isDefined = true) {x y : Binary} {reason : Undefined} :
    applyNumeric prec fraction op x y = .error reason ↔ op.NoResult x y reason := by
  cases op with
  | add => exact Binary.add_eq_error_iff
  | subtract => exact Binary.sub_eq_error_iff
  | multiply => exact Binary.mul_eq_error_iff
  | divide => exact Binary.div_eq_error_iff
  | exponent => exact Binary.pow_eq_error_iff
  | undefined code => cases hop

theorem applyBinary_eq_error_iff
    {op : Operation} (hop : op.isDefined = true) {x y : Binary} {err : EvalError} :
    applyBinary prec op x y fraction = .error err ↔
      ∃ reason, op.NoResult x y reason ∧ err = .domain op reason := by
  have hnumeric (reason : Undefined) :
      op.NoResult x y reason ↔ applyNumeric prec fraction op x y = .error reason :=
    (applyNumeric_eq_error_iff hop).symm
  simp only [applyBinary_eq hop, hnumeric]
  cases applyNumeric prec fraction op x y <;> simp [Except.mapError, eq_comm]

theorem UndefinedAt.evaluateAt_eq
    {node : Expr} {err : EvalError} (h : UndefinedAt prec fraction node err) :
    node.evaluateAt prec fraction = .error err := by
  cases h with
  | constant htext hvalue => exact (constantBinary_eq_error_iff fraction).mpr (.constant htext hvalue)
  | @operation op left right x y reason hleft hright h =>
    have hop : op.isDefined = true := by cases h <;> rfl
    rw [evaluateAt_binary_of_ok hleft hright]
    exact (applyBinary_eq_error_iff hop).mpr ⟨reason, h, rfl⟩

/-! ## Lists of nodes -/

variable {nodes rest : List Expr} {err : EvalError}

theorem AllDefined.append
    (h : AllDefined prec fraction nodes) (hrest : AllDefined prec fraction rest) :
    AllDefined prec fraction (nodes ++ rest) :=
  List.forall_mem_append.mpr ⟨h, hrest⟩

theorem FirstUndefined.append
    (h : FirstUndefined prec fraction nodes err) (rest : List Expr) :
    FirstUndefined prec fraction (nodes ++ rest) err := by
  obtain ⟨before, node, after, rfl, hbefore, hnode⟩ := h
  exact ⟨before, node, after ++ rest, by simp, hbefore, hnode⟩

theorem FirstUndefined.after
    (h : FirstUndefined prec fraction rest err) (hnodes : AllDefined prec fraction nodes) :
    FirstUndefined prec fraction (nodes ++ rest) err := by
  obtain ⟨before, node, after, rfl, hbefore, hnode⟩ := h
  exact ⟨nodes ++ before, node, after, by simp, hnodes.append hbefore, hnode⟩

theorem FirstUndefined.not_allDefined
    (h : FirstUndefined prec fraction nodes err) : ¬ AllDefined prec fraction nodes := by
  obtain ⟨before, node, after, rfl, -, hnode⟩ := h
  intro hall
  exact hall node (by simp) err hnode

/-- There is only one first undefined node: neither of two can stand before the other. -/
theorem FirstUndefined.unique
    {err' : EvalError} (h : FirstUndefined prec fraction nodes err)
    (h' : FirstUndefined prec fraction nodes err') : err = err' := by
  obtain ⟨before, node, after, rfl, hbefore, hnode⟩ := h
  obtain ⟨before', node', after', hnodes, hbefore', hnode'⟩ := h'
  rcases List.append_eq_append_iff.mp hnodes with ⟨middle, rfl, hrest⟩ | ⟨middle, rfl, hrest⟩
  · cases middle with
    | nil =>
      obtain ⟨rfl, -⟩ := List.cons.inj hrest
      exact Except.error.inj (hnode.evaluateAt_eq.symm.trans hnode'.evaluateAt_eq)
    | cons head tail =>
      obtain ⟨rfl, -⟩ := List.cons.inj hrest
      exact absurd hnode (hbefore' _ (by simp) err)
  · cases middle with
    | nil =>
      obtain ⟨rfl, -⟩ := List.cons.inj hrest
      exact Except.error.inj (hnode.evaluateAt_eq.symm.trans hnode'.evaluateAt_eq)
    | cons head tail =>
      obtain ⟨rfl, -⟩ := List.cons.inj hrest
      exact absurd hnode' (hbefore _ (by simp) err')

/-! ## Trees -/

/-- Evaluation meets the nodes in post-order and stops at the first undefined one. -/
theorem WellFormed.evaluateAt_cases
    {e : Expr} (h : e.WellFormed) (prec : ℕ) (fraction : Binary.FractionalPower) :
    (∃ x, e.evaluateAt prec fraction = .ok x ∧ AllDefined prec fraction e.postOrder) ∨
      ∃ err, e.evaluateAt prec fraction = .error err ∧
        FirstUndefined prec fraction e.postOrder err := by
  induction h with
  | constant value text =>
    cases hvalue : constantBinary prec value text with
    | ok x =>
      refine Or.inl ⟨x, hvalue, List.forall_mem_singleton.mpr ?_⟩
      intro err herr
      have hvalue' := (constantBinary_eq_error_iff fraction).mpr herr
      rw [hvalue] at hvalue'
      cases hvalue'
    | error err =>
      exact Or.inr ⟨err, hvalue, [], _, [], rfl, nofun, (constantBinary_eq_error_iff fraction).mp hvalue⟩
  | @binary op left right hop _ _ ihl ihr =>
    rw [postOrder, List.append_assoc]
    rcases ihl with ⟨x, hx, hleft⟩ | ⟨err, hx, hleft⟩
    · rcases ihr with ⟨y, hy, hright⟩ | ⟨err, hy, hright⟩
      · cases hvalue : applyBinary prec op x y fraction with
        | ok z =>
          refine Or.inl ⟨z, by rw [evaluateAt_binary_of_ok hx hy, hvalue], ?_⟩
          refine hleft.append (hright.append (List.forall_mem_singleton.mpr ?_))
          intro err herr
          have hvalue' := herr.evaluateAt_eq
          rw [evaluateAt_binary_of_ok hx hy, hvalue] at hvalue'
          cases hvalue'
        | error err =>
          refine Or.inr ⟨err, by rw [evaluateAt_binary_of_ok hx hy, hvalue], ?_⟩
          obtain ⟨reason, hreason, rfl⟩ := (applyBinary_eq_error_iff hop).mp hvalue
          have hself : FirstUndefined prec fraction [Expr.binary op left right] (.domain op reason) :=
            ⟨[], _, [], rfl, nofun, .operation hx hy hreason⟩
          exact (hself.after hright).after hleft
      · exact Or.inr ⟨err, by simp only [evaluateAt, hx, hy], (hright.append _).after hleft⟩
    · exact Or.inr ⟨err, by simp only [evaluateAt, hx], hleft.append _⟩

theorem WellFormed.evaluateAt_eq_error_iff
    {e : Expr} (h : e.WellFormed) :
    e.evaluateAt prec fraction = .error err ↔ FirstUndefined prec fraction e.postOrder err := by
  rcases h.evaluateAt_cases prec fraction with ⟨x, hx, hall⟩ | ⟨err', herr', hfirst⟩
  · rw [hx]
    exact ⟨nofun, fun hfirst => absurd hall hfirst.not_allDefined⟩
  · rw [herr']
    constructor
    · rintro ⟨⟩
      exact hfirst
    · intro hfirst'
      rw [hfirst.unique hfirst']

/-- Arbitrary precision fails at the first undefined node in the order of a walk, and with its error.
The nodes behind it have no influence: they may be any that complete the tree. -/
theorem evaluateBinary_fails_at_first_undefined
    (prec : ℕ) (fraction : Binary.FractionalPower) {e : Expr} (h : e.WellFormed) :
    (∀ {σ : Type} (visit : Expr → σ → σ × Bool) (s : σ),
      e.walk visit s = .ok (visitList visit e.postOrder s)) ∧
    (∀ err, e.evaluateBinary prec fraction = .error err ↔
      FirstUndefined (workingPrecision prec) fraction e.postOrder err) ∧
    ∀ nodes err, nodes <+: e.postOrder →
      FirstUndefined (workingPrecision prec) fraction nodes err →
        e.evaluateBinary prec fraction = .error err := by
  have herror (err : EvalError) : e.evaluateBinary prec fraction = .error err ↔
      FirstUndefined (workingPrecision prec) fraction e.postOrder err := by
    rw [evaluateBinary_eq]
    exact h.evaluateAt_eq_error_iff
  refine ⟨fun visit s => h.complete.walk_eq visit s, herror, ?_⟩
  rintro nodes err ⟨rest, hrest⟩ hfirst
  rw [herror, ← hrest]
  exact hfirst.append rest

/-- In `0 / 0 + nan` the division fails, and the constant that is no number is never looked at. -/
theorem evaluateBinary_fails_at_quotient :
    (binary .add (binary .divide (constant 0 []) (constant 0 []))
      (constant Double.nan [])).evaluateBinary 0 =
        .error (.domain .divide .indeterminateQuotient) := by
  have hzero : (constant 0 []).evaluateAt (workingPrecision 0) = .ok (.zero 64 false) := by
    decide
  have hwell : (binary .add (binary .divide (constant 0 []) (constant 0 []))
      (constant Double.nan [])).WellFormed :=
    .binary rfl (.binary rfl (.constant _ _) (.constant _ _)) (.constant _ _)
  apply (evaluateBinary_fails_at_first_undefined 0 .rounded hwell).2.2
    [constant 0 [], constant 0 [], binary .divide (constant 0 []) (constant 0 [])]
  · exact ⟨[_, _], rfl⟩
  · refine ⟨[constant 0 [], constant 0 []], _, [], rfl, ?_, ?_⟩
    · intro node hnode err herr
      obtain rfl : node = constant 0 [] := by simpa using hnode
      have hvalue := herr.evaluateAt_eq
      rw [hzero] at hvalue
      cases hvalue
    · exact .operation hzero hzero (.divide (Or.inl ⟨rfl, rfl⟩))

end Expr
end Reckon
