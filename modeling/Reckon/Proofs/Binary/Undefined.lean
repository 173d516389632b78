import Reckon.Expr.Evaluate
import Reckon.Proofs.Binary.IntegerPower
import Reckon.Proofs.Double.Undefined

/-!
# Operations without a result

An operation has no result for a few pairs of operands only.  They are listed here with the reason
that is given, and the list is complete: every other pair has a result, at every precision.

The precision does not matter, and neither does the way in which fractional powers are taken.
-/

namespace Reckon

/-- Whether a number is an integer can be seen from its exponent, because the mantissa is odd. -/
theorem Magnitude.isInteger_iff (m : Magnitude) :
    m.isInteger = true ↔ ∃ n : ℕ, m.toRat = n := by
  have hinteger : m.isInteger = true ↔ 0 ≤ m.exp := by simp [isInteger]
  rw [hinteger]
  constructor
  · intro hexp
    obtain ⟨k, hk⟩ := Int.eq_ofNat_of_zero_le hexp
    exact ⟨m.mant * 2 ^ k, by simp [toRat, hk]⟩
  · rintro ⟨n, hn⟩
    by_contra! hexp
    obtain ⟨k, hk⟩ : ∃ k : ℕ, m.exp = -((k + 1 : ℕ) : ℤ) := ⟨(-m.exp - 1).toNat, by omega⟩
    rw [toRat, hk, zpow_neg, zpow_natCast, mul_inv_eq_iff_eq_mul₀ (by positivity)] at hn
    have hmant : m.mant = n * 2 ^ (k + 1) := by exact_mod_cast hn
    have heven : m.mant % 2 = 0 := by rw [hmant, pow_succ, ← mul_assoc, Nat.mul_mod_left]
    exact absurd m.odd (by omega)

theorem Magnitude.eq_one_iff {m : Magnitude} : m = .one ↔ m.toRat = 1 := by
  constructor
  · rintro rfl
    exact toRat_one
  · intro h
    have hmant : m.mant = 1 := by
      have hle : m.mant ≤ 1 := mant_le_of_toRat_eq (e := 0) (by simpa using h)
      have := m.mant_pos
      omega
    have hexp : m.exp = 0 := by
      rw [toRat, hmant, Nat.cast_one, one_mul] at h
      exact (zpow_eq_one_iff_right₀ (by norm_num) (by norm_num)).mp h
    cases m
    simp_all [one]

namespace Binary

/-- An estimated size with which a fractional power is not computed, although its place in the range
of exponents does not decide the result. -/
def EstimateRefused (estimate : Float) : Prop :=
  Double.isNaN estimate = true ∨
    Double.ofInt fractionalPowerBits < Double.abs estimate ∧
      ¬ Double.ofInt Form.maxExp < estimate ∧ ¬ estimate < Double.ofInt Form.minExp

end Binary

/-- The operands for which an operation has no result, with the reason. -/
inductive Operation.NoResult : Operation → Binary → Binary → Undefined → Prop
  | add {x y} (hx : x.form = .infinite) (hy : y.form = .infinite)
      (hsign : x.negative ≠ y.negative) : NoResult .add x y .oppositeInfinities
  | subtract {x y} (hx : x.form = .infinite) (hy : y.form = .infinite)
      (hsign : x.negative = y.negative) : NoResult .subtract x y .equalInfinities
  | multiply {x y} (h : x.form = .zero ∧ y.form = .infinite ∨ x.form = .infinite ∧ y.form = .zero) :
      NoResult .multiply x y .zeroTimesInfinity
  | divide {x y} (h : x.form = .zero ∧ y.form = .zero ∨ x.form = .infinite ∧ y.form = .infinite) :
      NoResult .divide x y .indeterminateQuotient
  | infinite {x y} (h : x.form = .infinite ∨ y.form = .infinite) :
      NoResult .exponent x y .infiniteOperand
  | negativeBase {x y : Binary} {b e : Magnitude} (hx : x.form = .finite b)
      (hnegative : x.negative = true) (hy : y.form = .finite e) (hfraction : ¬ ∃ n : ℕ, e.toRat = n) :
      NoResult .exponent x y .negativeBase
  | magnitude {x y : Binary} {b e : Magnitude} (hx : x.form = .finite b)
      (hpositive : x.negative = false) (hone : b.toRat ≠ 1) (hy : y.form = .finite e)
      (hfraction : ¬ ∃ n : ℕ, e.toRat = n)
      (hestimate : Binary.EstimateRefused (Binary.powEstimate b y)) :
      NoResult .exponent x y .fractionalMagnitude

namespace Binary

variable {prec : ℕ} {x y : Binary} {reason : Undefined} {fraction : FractionalPower}

theorem add_eq_error_iff : add prec x y = .error reason ↔ Operation.NoResult .add x y reason := by
  constructor
  · intro h
    unfold add at h
    split at h <;> try cases h
    rename_i hx hy
    by_cases hsign : x.negative = y.negative
    · rw [if_pos hsign] at h
      cases h
    · rw [if_neg hsign] at h
      cases h
      exact .add hx hy hsign
  · intro h
    cases h with
    | add hx hy hsign => simp only [add, hx, hy, if_neg hsign]

theorem sub_eq_error_iff :
    sub prec x y = .error reason ↔ Operation.NoResult .subtract x y reason := by
  constructor
  · intro h
    unfold sub at h
    split at h <;> try cases h
    rename_i hx hy
    by_cases hsign : x.negative = y.negative
    · rw [if_pos hsign] at h
      cases h
      exact .subtract hx hy hsign
    · rw [if_neg hsign] at h
      cases h
  · intro h
    cases h with
    | subtract hx hy hsign => simp only [sub, hx, hy, if_pos hsign]

theorem mul_eq_error_iff :
    mul prec x y = .error reason ↔ Operation.NoResult .multiply x y reason := by
  constructor
  · intro h
    unfold mul at h
    dsimp only at h
    split at h <;> cases h
    · exact .multiply (Or.inr ⟨‹_›, ‹_›⟩)
    · exact .multiply (Or.inl ⟨‹_›, ‹_›⟩)
  · intro h
    cases h with
    | multiply h => rcases h with ⟨hx, hy⟩ | ⟨hx, hy⟩ <;> simp only [mul, hx, hy]

theorem div_eq_error_iff :
    div prec x y = .error reason ↔ Operation.NoResult .divide x y reason := by
  constructor
  · intro h
    unfold div at h
    dsimp only at h
    split at h <;> cases h
    · exact .divide (Or.inl ⟨‹_›, ‹_›⟩)
    · exact .divide (Or.inr ⟨‹_›, ‹_›⟩)
  · intro h
    cases h with
    | divide h => rcases h with ⟨hx, hy⟩ | ⟨hx, hy⟩ <;> simp only [div, hx, hy]

/-- A power with a fractional exponent has a value unless the estimate of its size is refused. -/
theorem powFinite_eq_error_iff
    {base exp : Binary} {b e : Magnitude} (hbase : base.form = .finite b) (negative : Bool) :
    powFinite prec base exp b e negative fraction = .error reason ↔
      ¬ (∃ n : ℕ, e.toRat = n) ∧ EstimateRefused (powEstimate b exp) ∧
        reason = .fractionalMagnitude := by
  rw [← e.isInteger_iff, powFinite]
  generalize powEstimate b exp = estimate
  have habove : estimateAbove estimate Form.maxExp = true ↔ Double.ofInt Form.maxExp < estimate :=
    decide_eq_true_iff
  have hbelow : estimateBelow estimate Form.minExp = true ↔ estimate < Double.ofInt Form.minExp :=
    decide_eq_true_iff
  have hbound : estimateAbove (Double.abs estimate) fractionalPowerBits = true ↔
      Double.ofInt fractionalPowerBits < Double.abs estimate := decide_eq_true_iff
  simp only [habove, hbelow, Bool.or_eq_true, hbound, EstimateRefused]
  by_cases hlarge : Double.ofInt Form.maxExp < estimate
  · -- An undefined estimate lies neither above nor below anything.
    have hdefined : Double.isNaN estimate ≠ true := fun h => Double.not_gt_of_isNaN h _ hlarge
    simp [hlarge, hdefined]
  by_cases hsmall : estimate < Double.ofInt Form.minExp
  · have hdefined : Double.isNaN estimate ≠ true := fun h => Double.not_lt_of_isNaN h _ hsmall
    simp [hlarge, hsmall, hdefined]
  rw [if_neg hlarge, if_neg hsmall]
  by_cases hinteger : e.isInteger = true
  · obtain ⟨z, hz⟩ := exists_powInteger prec hbase exp.negative (integerPart e) negative
    simp [hinteger, hz]
  · rw [if_neg hinteger]
    by_cases hrefused : Double.isNaN estimate = true ∨
        Double.ofInt fractionalPowerBits < Double.abs estimate
    · simp [hrefused, hinteger, hlarge, hsmall, eq_comm (a := reason)]
    · simp [hrefused, hlarge, hsmall]

theorem pow_eq_error_iff :
    pow prec x y fraction = .error reason ↔ Operation.NoResult .exponent x y reason := by
  constructor
  · intro h
    unfold pow at h
    split at h
    · cases h
      exact .infinite (Or.inl ‹_›)
    · cases h
      exact .infinite (Or.inr ‹_›)
    · cases h
    · cases h
    · rename_i b e hx hy
      by_cases hbase : (x.negative && !e.isInteger) = true
      · rw [if_pos hbase] at h
        cases h
        obtain ⟨hnegative, hfraction⟩ := Bool.and_eq_true_iff.mp hbase
        refine .negativeBase hx hnegative hy ?_
        rw [← Magnitude.isInteger_iff]
        simpa using hfraction
      rw [if_neg hbase] at h
      by_cases hone : b = .one
      · rw [if_pos hone] at h
        cases h
      rw [if_neg hone] at h
      obtain ⟨hfraction, hestimate, rfl⟩ := (powFinite_eq_error_iff hx _).mp h
      refine .magnitude hx ?_ (mt Magnitude.eq_one_iff.mpr hone) hy hfraction hestimate
      rw [← Magnitude.isInteger_iff] at hfraction
      simpa [hfraction] using hbase
  · intro h
    cases h with
    | infinite h =>
      rcases h with h | h
      · simp only [pow, h]
      · simp only [pow, h]
        cases x.form <;> rfl
    | negativeBase hx hnegative hy hfraction =>
      rw [← Magnitude.isInteger_iff] at hfraction
      simp [pow, hx, hy, hnegative, hfraction]
    | magnitude hx hpositive hone hy hfraction hestimate =>
      have hone' := mt Magnitude.eq_one_iff.mp hone
      simp only [pow, hx, hy, hpositive, Bool.false_and, Bool.false_eq_true, if_false, if_neg hone']
      exact (powFinite_eq_error_iff hx _).mpr ⟨hfraction, hestimate, rfl⟩

end Binary
end Reckon
