import Reckon.Proofs.Binary.Rounds

/-!
# Operations are rounded once

On finite numbers each operation gives the exact result of its operands, correctly rounded.  So when
the operands stand for rational numbers and the exact result fits the precision, the operation returns
a number that stands for this result.
-/

namespace Reckon

open Form

/-! ## Signs -/

theorem abs_withSign (negative : Bool) {q : ℚ} (hq : 0 ≤ q) : |withSign negative q| = q := by
  cases negative with
  | false => exact abs_of_nonneg hq
  | true => exact (abs_neg q).trans (abs_of_nonneg hq)

@[simp] theorem withSign_zero (negative : Bool) : withSign negative 0 = 0 := by
  cases negative <;> simp [withSign]

/-- A property of integers that does not depend on the sign can be told without it. -/
theorem exists_withSign_eq_intCast
    (negative : Bool) {q : ℚ} (hq : 0 ≤ q) {P : ℤ → Prop} (hP : ∀ n, P n → P (-n)) :
    (∃ n : ℤ, P n ∧ withSign negative q = n) ↔ ∃ n : ℕ, P n ∧ q = n := by
  constructor
  · rintro ⟨n, hn, hvalue⟩
    refine ⟨n.natAbs, ?_, ?_⟩
    · rcases Int.natAbs_eq n with habs | habs
      · rwa [← habs]
      · rw [← neg_neg (n.natAbs : ℤ), ← habs]
        exact hP n hn
    · rw [Nat.cast_natAbs, Int.cast_abs, ← hvalue, abs_withSign negative hq]
  · rintro ⟨n, hn, rfl⟩
    cases negative with
    | false => exact ⟨n, hn, by simp [withSign]⟩
    | true => exact ⟨-n, hP n hn, by simp [withSign]⟩

theorem withSign_mul (s t : Bool) (a b : ℚ) :
    withSign s a * withSign t b = withSign (s != t) (a * b) := by
  cases s <;> cases t <;> simp [withSign]

theorem withSign_div (s t : Bool) (a b : ℚ) :
    withSign s a / withSign t b = withSign (s != t) (a / b) := by
  cases s <;> cases t <;> simp [withSign, neg_div, div_neg]

namespace Binary

variable {prec : ℕ} {x y : Binary} {a b : ℚ}

/-- A number that stands for a rational number is a zero or finite. -/
theorem toRat?_eq_some_iff :
    x.toRat? = some a ↔
      x.form = .zero ∧ a = 0 ∨ ∃ m, x.form = .finite m ∧ a = withSign x.negative m.toRat := by
  unfold toRat?
  cases x.form with
  | zero => simpa [Form.toRat?] using eq_comm
  | finite m => simpa [Form.toRat?] using eq_comm
  | infinite => simp [Form.toRat?]

theorem toRat?_of_zero (h : x.form = .zero) : x.toRat? = some 0 :=
  toRat?_eq_some_iff.mpr (Or.inl ⟨h, rfl⟩)

/-- A rounded magnitude with a sign stands for an exact result that fits. -/
theorem toRat?_of_rounds
    {f : Form} {negative : Bool} (h : Rounds prec |a| f) (hfits : Fits prec a)
    (hsign : a = withSign negative |a|) : toRat? ⟨prec, negative, f⟩ = some a := by
  rw [toRat?, h.toRat?_eq hfits, Option.map_some, ← hsign]

theorem toRat?_of_rounds_withSign
    {f : Form} {negative : Bool} (ha : 0 ≤ a) (h : Rounds prec a f)
    (hfits : Fits prec (withSign negative a)) :
    toRat? ⟨prec, negative, f⟩ = some (withSign negative a) := by
  have habs := abs_withSign negative ha
  exact toRat?_of_rounds (by rwa [habs]) hfits (by rw [habs])

theorem rounds_round (hprec : 1 ≤ prec) (m : Magnitude) :
    Rounds prec m.toRat (Form.round prec (.finite m)) := by
  apply rounds_ofRatio hprec m.mant one_pos
  simp [Magnitude.toRat]

/-- At another precision a finite number is rounded unless it has no more bits anyway. -/
theorem withPrec_form (hprec : 1 ≤ prec) {m : Magnitude} (hx : x.form = .finite m) :
    x.prec ≤ prec ∧ (x.withPrec prec).form = .finite m ∨
      Rounds prec m.toRat (x.withPrec prec).form := by
  unfold withPrec
  dsimp only
  rw [hx]
  by_cases hlt : prec < x.prec
  · rw [if_pos hlt]
    exact Or.inr (rounds_round hprec m)
  · rw [if_neg hlt]
    exact Or.inl ⟨not_lt.mp hlt, rfl⟩

/-- A number that fits a precision is the same at that precision. -/
theorem toRat?_withPrec
    (hprec : 1 ≤ prec) (hx : x.toRat? = some a) (hfits : Fits prec a) :
    (x.withPrec prec).toRat? = some a := by
  rcases toRat?_eq_some_iff.mp hx with ⟨hform, rfl⟩ | ⟨m, hform, rfl⟩
  · apply toRat?_of_zero
    simp [withPrec, hform, Form.round]
  · by_cases hlt : prec < x.prec
    · simp only [withPrec, if_pos hlt, hform]
      exact toRat?_of_rounds_withSign m.toRat_pos.le (rounds_round hprec m) hfits
    · simp only [toRat?, withPrec, if_neg hlt, hform, Form.toRat?, Option.map_some]

/-! ## Sums and differences -/

theorem signedUnits_mul_zpow
    (negative : Bool) (m : Magnitude) {unit : ℤ} (hunit : unit ≤ m.exp) :
    (signedUnits negative m unit : ℚ) * 2 ^ unit = withSign negative m.toRat := by
  have hscale : ((m.mant <<< (m.exp - unit).toNat : ℕ) : ℚ) * 2 ^ unit = m.toRat := by
    rw [Nat.shiftLeft_eq, Magnitude.toRat]
    push_cast
    rw [← zpow_natCast, Int.toNat_of_nonneg (sub_nonneg.mpr hunit), mul_assoc,
      ← zpow_add₀ (by norm_num), sub_add_cancel]
  cases negative with
  | false => exact hscale
  | true =>
    have hneg : signedUnits true m unit = -((m.mant <<< (m.exp - unit).toNat : ℕ) : ℤ) := rfl
    rw [hneg, Int.cast_neg, Int.cast_natCast, neg_mul, hscale]
    rfl

/-- The sum of two finite numbers is the exact sum rounded, with its sign. -/
theorem exists_rounds_addFinite
    (hprec : 1 ≤ prec) (s t : Bool) (m n : Magnitude) {q : ℚ}
    (hq : q = withSign s m.toRat + withSign t n.toRat) :
    ∃ negative f, addFinite prec s m t n = ⟨prec, negative, f⟩ ∧ Rounds prec |q| f ∧
      q = withSign negative |q| := by
  have hsum : q = (signedUnits s m (min m.exp n.exp) + signedUnits t n (min m.exp n.exp) : ℤ) *
      2 ^ min m.exp n.exp := by
    rw [hq, ← signedUnits_mul_zpow s m (min_le_left _ n.exp),
      ← signedUnits_mul_zpow t n (min_le_right m.exp _)]
    push_cast
    ring
  refine ⟨_, _, rfl, ?_⟩
  generalize signedUnits s m (min m.exp n.exp) + signedUnits t n (min m.exp n.exp) = sum at hsum ⊢
  have hpow : (0 : ℚ) < 2 ^ min m.exp n.exp := by positivity
  constructor
  · apply rounds_ofRatio hprec sum.natAbs one_pos
    rw [hsum, abs_mul, abs_of_pos hpow, Nat.cast_natAbs, Int.cast_abs, Nat.cast_one, div_one]
  · by_cases hneg : sum < 0
    · have hle : q ≤ 0 := hsum ▸ mul_nonpos_of_nonpos_of_nonneg (by exact_mod_cast hneg.le) hpow.le
      rw [abs_of_nonpos hle]
      simp [withSign, hneg]
    · have hge : 0 ≤ q := hsum ▸ mul_nonneg (by exact_mod_cast not_lt.mp hneg) hpow.le
      rw [abs_of_nonneg hge]
      simp [withSign, hneg]

theorem exists_add
    (hprec : 1 ≤ prec) (hx : x.toRat? = some a) (hy : y.toRat? = some b)
    (hfits : Fits prec (a + b)) : ∃ z, add prec x y = .ok z ∧ z.toRat? = some (a + b) := by
  rcases toRat?_eq_some_iff.mp hx with ⟨hxform, rfl⟩ | ⟨m, hxform, rfl⟩
  · rcases toRat?_eq_some_iff.mp hy with ⟨hyform, rfl⟩ | ⟨n, hyform, rfl⟩
    · refine ⟨zero prec (x.negative && y.negative), by simp only [add, hxform, hyform], ?_⟩
      rw [add_zero]
      exact toRat?_of_zero rfl
    · refine ⟨y.withPrec prec, by simp only [add, hxform, hyform], ?_⟩
      rw [zero_add] at hfits ⊢
      exact toRat?_withPrec hprec hy hfits
  · rcases toRat?_eq_some_iff.mp hy with ⟨hyform, rfl⟩ | ⟨n, hyform, rfl⟩
    · refine ⟨x.withPrec prec, by simp only [add, hxform, hyform], ?_⟩
      rw [add_zero] at hfits ⊢
      exact toRat?_withPrec hprec hx hfits
    · obtain ⟨negative, f, hadd, hrounds, hsign⟩ :=
        exists_rounds_addFinite hprec x.negative y.negative m n rfl
      exact ⟨_, by simp only [add, hxform, hyform, hadd], toRat?_of_rounds hrounds hfits hsign⟩

theorem toRat?_neg (hx : x.toRat? = some a) : x.neg.toRat? = some (-a) := by
  obtain ⟨q, hq, rfl⟩ := Option.map_eq_some_iff.mp hx
  rw [toRat?, neg, hq, Option.map_some]
  cases x.negative <;> simp [withSign]

/-- Unless both operands are infinite, a difference is a sum with the opposite number. -/
theorem sub_eq_add_of_ne_infinite (h : x.form ≠ .infinite) : sub prec x y = add prec x y.neg := by
  unfold sub add neg
  cases hxform : x.form with
  | infinite => exact absurd hxform h
  | zero => cases hyform : y.form <;> rfl
  | finite m => cases hyform : y.form <;> rfl

theorem form_ne_infinite (hx : x.toRat? = some a) : x.form ≠ .infinite := by
  intro hform
  simp [toRat?, hform, Form.toRat?] at hx

theorem exists_sub
    (hprec : 1 ≤ prec) (hx : x.toRat? = some a) (hy : y.toRat? = some b)
    (hfits : Fits prec (a - b)) : ∃ z, sub prec x y = .ok z ∧ z.toRat? = some (a - b) := by
  rw [sub_eq_add_of_ne_infinite (form_ne_infinite hx)]
  rw [sub_eq_add_neg] at hfits ⊢
  exact exists_add hprec hx (toRat?_neg hy) hfits

/-! ## Products and quotients -/

theorem exists_rounds_mul
    (hprec : 1 ≤ prec) {m n : Magnitude} (hx : x.form = .finite m) (hy : y.form = .finite n) :
    ∃ f, mul prec x y = .ok ⟨prec, x.negative != y.negative, f⟩ ∧
      Rounds prec (m.toRat * n.toRat) f := by
  refine ⟨_, by simp only [mul, hx, hy]; rfl, ?_⟩
  apply rounds_ofRatio hprec _ one_pos
  rw [Magnitude.toRat, Magnitude.toRat, zpow_add₀ (by norm_num)]
  push_cast
  ring

theorem exists_mul
    (hprec : 1 ≤ prec) (hx : x.toRat? = some a) (hy : y.toRat? = some b)
    (hfits : Fits prec (a * b)) : ∃ z, mul prec x y = .ok z ∧ z.toRat? = some (a * b) := by
  rcases toRat?_eq_some_iff.mp hx with ⟨hxform, rfl⟩ | ⟨m, hxform, rfl⟩
  · refine ⟨zero prec (x.negative != y.negative), ?_, ?_⟩
    · rcases toRat?_eq_some_iff.mp hy with ⟨hyform, -⟩ | ⟨n, hyform, -⟩
      · simp only [mul, hxform, hyform]
      · simp only [mul, hxform, hyform]
    · rw [zero_mul]
      exact toRat?_of_zero rfl
  · rcases toRat?_eq_some_iff.mp hy with ⟨hyform, rfl⟩ | ⟨n, hyform, rfl⟩
    · refine ⟨zero prec (x.negative != y.negative), by simp only [mul, hxform, hyform], ?_⟩
      rw [mul_zero]
      exact toRat?_of_zero rfl
    · obtain ⟨f, hmul, hrounds⟩ := exists_rounds_mul hprec hxform hyform
      rw [withSign_mul] at hfits ⊢
      exact ⟨_, hmul,
        toRat?_of_rounds_withSign (mul_pos m.toRat_pos n.toRat_pos).le hrounds hfits⟩

theorem exists_rounds_div
    (hprec : 1 ≤ prec) {m n : Magnitude} (hx : x.form = .finite m) (hy : y.form = .finite n) :
    ∃ f, div prec x y = .ok ⟨prec, x.negative != y.negative, f⟩ ∧
      Rounds prec (m.toRat / n.toRat) f := by
  refine ⟨_, by simp only [div, hx, hy]; rfl, ?_⟩
  apply rounds_ofRatio hprec _ n.mant_pos
  rw [Magnitude.toRat, Magnitude.toRat, zpow_sub₀ (by norm_num), mul_div_mul_comm]

theorem exists_div
    (hprec : 1 ≤ prec) (hx : x.toRat? = some a) (hy : y.toRat? = some b) (hb : b ≠ 0)
    (hfits : Fits prec (a / b)) : ∃ z, div prec x y = .ok z ∧ z.toRat? = some (a / b) := by
  rcases toRat?_eq_some_iff.mp hy with ⟨-, rfl⟩ | ⟨n, hyform, rfl⟩
  · exact absurd rfl hb
  rcases toRat?_eq_some_iff.mp hx with ⟨hxform, rfl⟩ | ⟨m, hxform, rfl⟩
  · refine ⟨zero prec (x.negative != y.negative), by simp only [div, hxform, hyform], ?_⟩
    rw [zero_div]
    exact toRat?_of_zero rfl
  · obtain ⟨f, hdiv, hrounds⟩ := exists_rounds_div hprec hxform hyform
    rw [withSign_div] at hfits ⊢
    exact ⟨_, hdiv, toRat?_of_rounds_withSign (div_pos m.toRat_pos n.toRat_pos).le hrounds hfits⟩

end Binary
end Reckon
