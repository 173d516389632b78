import Reckon.Proofs.Binary.PowerError

/-!
# Integer powers that are rounded once

A mantissa is odd, and so are its powers: the higher a power of a base, the more significant bits it
has.  If the last power has no more of them than the working precision, neither has any power on the
way, and repeated squaring rounds nothing.  What is left is the rounding to the precision asked for.
-/

namespace Reckon

open Form

namespace Magnitude

/-- The power of a magnitude, not rounded. -/
def pow (b : Magnitude) (n : ℕ) : Magnitude where
  mant := b.mant ^ n
  exp := n * b.exp
  odd := Nat.odd_iff.mp ((Nat.odd_iff.mpr b.odd).pow)

variable {b : Magnitude}

theorem toRat_pow (b : Magnitude) (n : ℕ) : (b.pow n).toRat = b.toRat ^ n := by
  rw [toRat, toRat, pow, mul_pow, Nat.cast_pow, mul_comm (n : ℤ), zpow_mul, zpow_natCast]

/-- A smaller power has no more significant bits. -/
theorem exists_pow_eq
    {n m prec : ℕ} {e : ℤ} (hvalue : b.toRat ^ n = m * 2 ^ e) (hm : m < 2 ^ prec) {j : ℕ}
    (hle : j ≤ n) : ∃ (m : ℕ) (e : ℤ), b.toRat ^ j = m * 2 ^ e ∧ m < 2 ^ prec := by
  refine ⟨(b.pow j).mant, (b.pow j).exp, (b.toRat_pow j).symm, ?_⟩
  calc b.mant ^ j ≤ b.mant ^ n := Nat.pow_le_pow_right b.mant_pos hle
    _ ≤ m := mant_le_of_toRat_eq (x := b.pow n) ((b.toRat_pow n).trans hvalue)
    _ < 2 ^ prec := hm

end Magnitude

namespace Binary

variable {prec wide n : ℕ} {base x y : Binary} {b : Magnitude} {q r : ℚ}

/-- A number without its sign, given exactly. -/
def Exactly (q : ℚ) (x : Binary) : Prop :=
  ∃ a, x.form = .finite a ∧ a.toRat = q

theorem Exactly.mul
    (hprec : 1 ≤ prec) (hx : Exactly q x) (hy : Exactly r y) (hfits : Fits prec (q * r)) :
    ∃ z, Binary.mul prec x y = .ok z ∧ Exactly (q * r) z := by
  obtain ⟨a, ha, rfl⟩ := hx
  obtain ⟨b, hb, rfl⟩ := hy
  obtain ⟨f, hmul, hrounds⟩ := exists_rounds_mul hprec ha hb
  exact ⟨_, hmul, hrounds.eq_of_fits (mul_pos a.toRat_pos b.toRat_pos) hfits⟩

theorem Exactly.withPrec
    (hprec : 1 ≤ prec) (hx : Exactly q x) (hfits : Fits prec q) : Exactly q (x.withPrec prec) := by
  obtain ⟨a, ha, rfl⟩ := hx
  rcases withPrec_form hprec ha with ⟨-, hsame⟩ | hrounds
  · exact ⟨a, hsame, rfl⟩
  · exact hrounds.eq_of_fits a.toRat_pos hfits

/-- Repeated squaring is exact if all powers up to the last one fit. -/
theorem exists_squarings_exact
    (hwide : 1 ≤ wide) (hbase : base.form = .finite b)
    (hfits : ∀ j, j ≤ n → Fits wide (b.toRat ^ j)) :
    ∃ last, squarings wide n ⟨one wide, base.abs.withPrec wide⟩ = .ok last ∧
      Exactly (b.toRat ^ n) last.acc := by
  have hproduct : ∀ i m x y, i + m ≤ n → Exactly (b.toRat ^ i) x → Exactly (b.toRat ^ m) y →
      ∃ z, mul wide x y = .ok z ∧ Exactly (b.toRat ^ (i + m)) z := by
    intro i m x y hle hx hy
    rw [pow_add]
    exact hx.mul hwide hy (pow_add b.toRat i m ▸ hfits (i + m) hle)
  refine exists_squarings_powers (P := fun i x => Exactly (b.toRat ^ i) x)
    (Q := fun m y => Exactly (b.toRat ^ m) y) ?_ ?_ 0 1 (by omega) ?_ ?_
  · intro i m x y hle _ hx hy
    exact hproduct i m x y hle hx hy
  · intro m y hle _ hy
    rw [two_mul] at hle ⊢
    exact hproduct m m y y hle hy hy
  · exact ⟨.one, rfl, by simp⟩
  · intro hn
    have habs : Exactly (b.toRat ^ 1) base.abs := ⟨b, hbase, (pow_one _).symm⟩
    exact habs.withPrec hwide (hfits 1 (by omega))

/-- A power with no more significant bits than the working precision is rounded once, to the precision
asked for, if no power on the way lies outside the range.  So it is exact if it fits that precision. -/
theorem powInteger_rounds_once
    (hprec : 1 ≤ prec) (hbase : base.form = .finite b) {m : ℕ} {e : ℤ}
    (hvalue : b.toRat ^ n = m * 2 ^ e) (hm : m < 2 ^ clampPrec (prec + powGuardBits))
    (hrange : ∀ j, 1 ≤ j → j ≤ n →
      2 ^ (minExp - 1) ≤ b.toRat ^ j ∧ b.toRat ^ j < 2 ^ maxExp)
    (negative : Bool) :
    ∃ z, powInteger prec base false n negative = .ok z ∧ Rounds prec (b.toRat ^ n) z.form ∧
      (Fits prec (b.toRat ^ n) → z.form.toRat? = some (b.toRat ^ n)) := by
  have hwide := one_le_guarded prec
  have hfits : ∀ j, j ≤ n → Fits (clampPrec (prec + powGuardBits)) (b.toRat ^ j) := by
    intro j hle
    obtain ⟨m', e', hvalue', hm'⟩ := b.exists_pow_eq hvalue hm hle
    by_cases hzero : j = 0
    · subst hzero
      refine fits_of_mem_range hvalue' hm' ?_ ?_
      · rw [pow_zero]
        exact zpow_le_one_of_nonpos₀ (by norm_num) (by decide)
      · rw [pow_zero]
        exact one_lt_zpow₀ (by norm_num) (by decide)
    · obtain ⟨hlow, hhigh⟩ := hrange j (by omega) hle
      exact fits_of_mem_range hvalue' hm' hlow hhigh
  obtain ⟨last, hlast, a, ha, hexact⟩ := exists_squarings_exact hwide hbase hfits
  have hw : powWide (clampPrec (prec + powGuardBits)) base false n = .ok last.acc := by
    rw [powWide, hlast]
    rfl
  obtain ⟨z, hz, hform⟩ := exists_powInteger_of_powWide negative hw
  have hrounds : Rounds prec (b.toRat ^ n) z.form := by
    rw [hform, ← hexact]
    rcases withPrec_form hprec ha with ⟨hle, hsame⟩ | hrounds
    · -- The precision asked for is not below the working precision, which the power fits.
      rw [(hasPrecision_squarings hwide n (hasPrecision_one hwide) hlast).prec_eq] at hle
      rw [hsame]
      apply Fits.rounds
      rw [hexact]
      exact (hfits n le_rfl).mono hle
    · exact hrounds
  refine ⟨z, hz, hrounds, ?_⟩
  intro hfit
  obtain ⟨x, hx, hvalue⟩ := hrounds.eq_of_fits (pow_pos b.toRat_pos n) hfit
  rw [hx, Form.toRat?, hvalue]

/-- The fifth power of three has eight bits, and is rounded to five of them. -/
theorem powInteger_rounds_once_of_three :
    let three : Binary := ⟨5, true, .finite ⟨3, 0, rfl⟩⟩
    (3 : ℚ) ^ 5 = (243 : ℕ) * 2 ^ (0 : ℤ) ∧
      powInteger 5 three false 5 true = .ok ⟨5, true, .finite ⟨15, 4, rfl⟩⟩ ∧
        Rounds 5 (3 ^ 5) (.finite ⟨15, 4, rfl⟩) := by
  intro three
  have hpower : (3 : ℚ) ^ 5 = (243 : ℕ) * 2 ^ (0 : ℤ) := by norm_num
  have hthree : Magnitude.toRat ⟨3, 0, rfl⟩ = 3 := by simp [Magnitude.toRat]
  have hrange : ∀ j, 1 ≤ j → j ≤ 5 → (2 : ℚ) ^ (minExp - 1) ≤ 3 ^ j ∧ (3 : ℚ) ^ j < 2 ^ maxExp := by
    intro j _ hle
    constructor
    · calc (2 : ℚ) ^ (minExp - 1) ≤ 1 := zpow_le_one_of_nonpos₀ (by norm_num) (by decide)
        _ ≤ 3 ^ j := one_le_pow₀ (by norm_num)
    · calc (3 : ℚ) ^ j ≤ 3 ^ 5 := pow_le_pow_right₀ (by norm_num) hle
        _ < 2 ^ (8 : ℤ) := by norm_num
        _ ≤ 2 ^ maxExp := zpow_le_zpow_right₀ (by norm_num) (by decide)
  have hrun : powInteger 5 three false 5 true = .ok ⟨5, true, .finite ⟨15, 4, rfl⟩⟩ := by
    decide +kernel
  obtain ⟨z, hz, hrounds, -⟩ := powInteger_rounds_once (show 1 ≤ 5 by decide)
    (show three.form = .finite _ from rfl) (by rw [hthree]; exact hpower) (by decide) (by rw [hthree]; exact hrange) true
  cases hrun.symm.trans hz
  rw [hthree] at hrounds
  exact ⟨hpower, hrun, hrounds⟩

end Binary
end Reckon
