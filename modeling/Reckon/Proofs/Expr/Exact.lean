import Reckon.Proofs.Binary.Exact
import Reckon.Proofs.Binary.Literal
import Reckon.Proofs.Expr.PostOrder

/-!
# Evaluation without rounding

A tree of literals under addition, subtraction, multiplication and division has an exact rational
value, unless a divisor in it is zero.  Arbitrary precision gives this very value as long as the exact
value of every node fits the precision: then no step of the evaluation rounds.
-/

namespace Reckon

/-- The exact result of one of the four rational operations; a division by zero has none. -/
def Operation.rational? (op : Operation) (a b : ℚ) : Option ℚ :=
  match op with
  | .add => some (a + b)
  | .subtract => some (a - b)
  | .multiply => some (a * b)
  | .divide => if b = 0 then none else some (a / b)
  | .exponent | .undefined _ => none

/-- A text of digits and points that the lexer takes as one literal. -/
def Literal.Accepted (text : Bytes) : Prop :=
  (∀ b ∈ text, Literal.isNumeric b = true) ∧ Literal.WellFormed text
  deriving Decidable

open Lexical in
/-- These are the texts of number tokens: the lexer reads such a text as one token. -/
theorem Literal.accepted_iff (mode : Mode) (text : Bytes) :
    Literal.Accepted text ↔
      ∃ t, Lexer.tokenize mode text = .ok [t] ∧ t.kind = .number ∧ t.value = text := by
  constructor
  · rintro ⟨hnumeric, hgood⟩
    have hslice : slice text 0 text.length = text := by simp [slice]
    have hrun : MaximalRun text 0 text.length := by
      refine ⟨?_, ?_, fun k hk => absurd hk k.succ_ne_zero, ?_⟩
      · obtain ⟨b, hb, -⟩ := hgood.1
        exact List.length_pos_of_mem hb
      · intro k _ hlt
        exact ⟨text[k], List.getElem?_eq_getElem hlt, hnumeric _ (List.getElem_mem hlt)⟩
      · intro hafter
        exact absurd (lt_length_of_byteAt hafter) (lt_irrefl _)
    refine ⟨Token.make .number (slice text 0 text.length) (0 : Nat), ?_, rfl, hslice⟩
    apply Lexer.tokenize_eq_ok_iff.mpr
    exact .token (.number hrun) (not_fault_of_wellFormed hrun (hslice.symm ▸ hgood)) .finish
  · rintro ⟨t, htokens, hkind, hvalue⟩
    have hreads := Lexer.tokenize_eq_ok_iff.mp htokens
    obtain ⟨i, j, hlex⟩ := (hreads.lexing.mem_iff t).mp (List.mem_singleton_self t)
    have hspells := spells_of_lexeme (forall_not_fault_iff.mp hreads.not_fault).1 hlex hkind
    rw [hvalue] at hspells
    exact ⟨hspells.isNumeric, hspells.wellFormed⟩

namespace Expr

/-- The exact value of a tree of literals under the four rational operations. -/
def rational? : Expr → Option ℚ
  | .constant _ text => if Literal.Accepted text then some (Literal.toRat text) else none
  | .binary op left right =>
    left.rational?.bind fun a => right.rational?.bind fun b => op.rational? a b
  | .absent => none

variable {prec : ℕ}

theorem exists_constantBinary_of_accepted
    {text : Bytes} (value : Float) (h : Literal.Accepted text) (hprec : 1 ≤ prec)
    (hfits : Form.Fits prec (Literal.toRat text)) :
    ∃ z, constantBinary prec value text = .ok z ∧ z.toRat? = some (Literal.toRat text) := by
  obtain ⟨f, hread, hrounds⟩ := Literal.exists_read? h.1 h.2 hprec
  have hne : text ≠ [] := by
    obtain ⟨b, hb, -⟩ := h.2.1
    exact List.ne_nil_of_mem hb
  have hnonneg : 0 ≤ Literal.toRat text := by
    unfold Literal.toRat
    positivity
  rw [← abs_of_nonneg hnonneg] at hrounds
  refine ⟨⟨prec, false, f⟩, by simp [constantBinary, hne, hread], ?_⟩
  exact Binary.toRat?_of_rounds hrounds hfits (abs_of_nonneg hnonneg).symm

/-- An operation whose exact result fits returns it. -/
theorem exists_applyNumeric_of_exact
    (hprec : 1 ≤ prec) {op : Operation} {x y : Binary} {a b c : ℚ}
    (hx : x.toRat? = some a) (hy : y.toRat? = some b) (h : op.rational? a b = some c)
    (hfits : Form.Fits prec c) :
    ∃ z, applyNumeric prec .rounded op x y = .ok z ∧ z.toRat? = some c := by
  cases op with
  | add =>
    obtain rfl := Option.some.inj h
    exact Binary.exists_add hprec hx hy hfits
  | subtract =>
    obtain rfl := Option.some.inj h
    exact Binary.exists_sub hprec hx hy hfits
  | multiply =>
    obtain rfl := Option.some.inj h
    exact Binary.exists_mul hprec hx hy hfits
  | divide =>
    by_cases hb : b = 0
    · simp [Operation.rational?, hb] at h
    · simp only [Operation.rational?, if_neg hb, Option.some.injEq] at h
      subst h
      exact Binary.exists_div hprec hx hy hb hfits
  | exponent => cases h
  | undefined code => cases h

theorem isDefined_of_rational?
    {op : Operation} {a b c : ℚ} (h : op.rational? a b = some c) : op.isDefined = true := by
  cases op with
  | undefined code => cases h
  | add | subtract | multiply | divide | exponent => rfl

/-- By induction on the tree: a node whose subtrees have their exact values gets its own. -/
theorem exists_evaluateAt_of_exact
    (hprec : 1 ≤ prec) {e : Expr} {q : ℚ} (h : e.rational? = some q)
    (hfits : ∀ n ∈ e.postOrder, ∀ r, n.rational? = some r → Form.Fits prec r) :
    ∃ z, e.evaluateAt prec = .ok z ∧ z.toRat? = some q := by
  induction e generalizing q with
  | constant value text =>
    have hq := hfits _ (List.mem_singleton_self _) q h
    by_cases hliteral : Literal.Accepted text
    · simp only [rational?, if_pos hliteral, Option.some.injEq] at h
      subst h
      exact exists_constantBinary_of_accepted value hliteral hprec hq
    · simp [rational?, hliteral] at h
  | binary op left right ihl ihr =>
    simp only [postOrder, List.forall_mem_append, List.forall_mem_singleton] at hfits
    obtain ⟨⟨hleft, hright⟩, hself⟩ := hfits
    have hq := hself q h
    obtain ⟨a, ha, h⟩ := Option.bind_eq_some_iff.mp h
    obtain ⟨b, hb, h⟩ := Option.bind_eq_some_iff.mp h
    obtain ⟨x, hx, hxvalue⟩ := ihl ha hleft
    obtain ⟨y, hy, hyvalue⟩ := ihr hb hright
    obtain ⟨z, hz, hvalue⟩ := exists_applyNumeric_of_exact hprec hxvalue hyvalue h hq
    refine ⟨z, ?_, hvalue⟩
    rw [evaluateAt_binary_of_ok hx hy, applyBinary_eq (isDefined_of_rational? h), hz]
    rfl
  | absent => cases h

/-- Arbitrary precision is exact whenever the exact answer fits: if a tree has an exact value and that
of every node fits the precision, the tree is evaluated, and to its exact value. -/
theorem evaluateBinary_exact_of_fits
    (prec : ℕ) {e : Expr} {q : ℚ} (h : e.rational? = some q)
    (hfits : ∀ n ∈ e.postOrder, ∀ r, n.rational? = some r → Form.Fits (workingPrecision prec) r) :
    ∃ z, e.evaluateBinary prec = .ok z ∧ z.toRat? = some q := by
  rw [evaluateBinary_eq]
  exact exists_evaluateAt_of_exact (one_le_workingPrecision prec) h hfits

/-- One bit is enough for `1 / 2`, whose literals are read from their texts although the constants hold
no number. -/
theorem evaluateBinary_exact_of_quotient :
    ∃ z, (binary .divide (constant Double.nan [0x31])
        (constant Double.nan [0x32])).evaluateBinary 1 = .ok z ∧ z.toRat? = some (1 / 2) := by
  have hone : (constant Double.nan [0x31]).rational? = some 1 := by
    have hliteral : Literal.Accepted [0x31] := by decide +kernel
    simp [rational?, hliteral, Literal.toRat, show Literal.digits [0x31] = 1 by decide,
      show Literal.places [0x31] = 0 by decide]
  have htwo : (constant Double.nan [0x32]).rational? = some 2 := by
    have hliteral : Literal.Accepted [0x32] := by decide +kernel
    simp [rational?, hliteral, Literal.toRat, show Literal.digits [0x32] = 2 by decide,
      show Literal.places [0x32] = 0 by decide]
  have hhalf : (binary .divide (constant Double.nan [0x31]) (constant Double.nan [0x32])).rational? =
      some (1 / 2) := by
    rw [rational?, hone, htwo, Option.bind_some, Option.bind_some, Operation.rational?,
      if_neg (by norm_num)]
  -- Each of the three values is a power of two.
  have hfits {q : ℚ} (t : ℤ) (hq : q = 2 ^ t) (ht : Form.minExp ≤ t + 1 ∧ t + 1 ≤ Form.maxExp) :
      Form.Fits (workingPrecision 1) q := by
    have habs : |q| = 2 ^ t := by rw [hq, abs_of_pos (by positivity)]
    refine Or.inr ⟨⟨1, t, by rw [habs, Nat.cast_one, one_mul], by decide⟩, t + 1, ht.1, ht.2, ?_, ?_⟩
    · rw [habs, add_sub_cancel_right]
    · rw [habs]
      exact zpow_lt_zpow_right₀ (by norm_num) (by omega)
  apply evaluateBinary_exact_of_fits 1 hhalf
  simp only [postOrder, List.forall_mem_append, List.forall_mem_singleton, hone, htwo, hhalf,
    Option.some.injEq, forall_eq']
  refine ⟨⟨?_, ?_⟩, ?_⟩
  · exact hfits 0 (by norm_num) (by decide)
  · exact hfits 1 (by norm_num) (by decide)
  · exact hfits (-1) (by norm_num) (by decide)

end Expr
end Reckon
