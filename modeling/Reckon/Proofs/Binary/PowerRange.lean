import Mathlib.Algebra.Order.Ring.Pow
import Reckon.Proofs.Binary.RoundingError

/-!
# Integer powers inside the range of exponents

The range of exponents is not symmetric, and the inverse of a small number may be past it.  A negative
power is computed as the inverse of a positive one, so a small result is lost if that power overflows,
although the result itself could be represented.  What is estimated to be out of the range is lost too,
and for numbers just above one the estimate is a rough one.

Apart from that an integer power in the range is finite and not zero.  A base other than one that has
at most `prec` bits differs from one by at least `2 ^ -prec`, so that its powers leave the range before
the exponent reaches `2 ^ (prec + 32)`.  With that many roundings the guard bits keep the error of
repeated squaring below one eighth.
-/

namespace Reckon

open Form

/-! ## Few roundings -/

variable {prec : ℕ}

/-- Many small factors make up a factor that is bounded by the sum of what they differ from one. -/
theorem pow_bounds_of_mul_le
    {u c : ℚ} {n : ℕ} (hu : 0 ≤ u) (hone : u ≤ 1) (hc : c < 1) (h : n * u ≤ c) :
    1 - c ≤ (1 - u) ^ n ∧ (1 + u) ^ n ≤ (1 - c)⁻¹ := by
  have hlow : 1 - c ≤ (1 - u) ^ n := by
    have hbernoulli := one_add_mul_le_pow (a := -u) (by linarith) n
    rw [← sub_eq_add_neg] at hbernoulli
    linarith
  refine ⟨hlow, ?_⟩
  have hproduct : (1 + u) ^ n * (1 - u) ^ n ≤ 1 := by
    rw [← mul_pow]
    apply pow_le_one₀
    · nlinarith
    · nlinarith
  have hpos : 0 < 1 - c := by linarith
  rw [le_inv_comm₀ (by positivity) hpos, ← one_div, le_div_iff₀ (by positivity)]
  calc (1 - c) * (1 + u) ^ n ≤ (1 - u) ^ n * (1 + u) ^ n := by gcongr
    _ ≤ 1 := by rwa [mul_comm]

/-- The errors of all roundings together stay small if their sum does. -/
theorem pow_roundoff_bounds
    {n : ℕ} (hprec : 1 ≤ prec) (h : n * roundoff prec ≤ 1 / 8) :
    7 / 8 ≤ (1 - roundoff prec) ^ n ∧ (1 + roundoff prec) ^ n ≤ 8 / 7 := by
  have hhalf := roundoff_le_half hprec
  obtain ⟨hlow, hhigh⟩ :=
    pow_bounds_of_mul_le (roundoff_pos prec).le (by linarith) (by norm_num) h
  constructor
  · linarith
  · norm_num at hhigh ⊢
    exact hhigh

namespace Magnitude

variable {b : Magnitude}

/-- A number is an integer or has its mantissa behind the binary point. -/
theorem exists_toRat_eq (b : Magnitude) :
    (∃ n : ℕ, b.toRat = n) ∨ ∃ d : ℕ, b.toRat = b.mant / 2 ^ d := by
  rcases le_or_gt 0 b.exp with hexp | hexp
  · exact Or.inl (b.isInteger_iff.mp (by simpa [isInteger] using hexp))
  · obtain ⟨d, hd⟩ : ∃ d : ℕ, b.exp = -(d : ℤ) := ⟨(-b.exp).toNat, by omega⟩
    refine Or.inr ⟨d, ?_⟩
    rw [toRat, hd, zpow_neg, zpow_natCast, div_eq_mul_inv]

theorem one_add_le (hbits : b.bits ≤ prec) (h : 1 < b.toRat) : 1 + (2 ^ prec : ℚ)⁻¹ ≤ b.toRat := by
  have hinv : (2 ^ prec : ℚ)⁻¹ ≤ 1 := inv_le_one_of_one_le₀ (one_le_pow₀ (by norm_num))
  have hmant : b.mant < 2 ^ prec := bits_le_iff.mp hbits
  rcases b.exists_toRat_eq with ⟨n, hn⟩ | ⟨d, hd⟩
  · -- An integer above one is at least two.
    rw [hn] at h ⊢
    have htwo : (2 : ℚ) ≤ n := by exact_mod_cast (show 1 < n by exact_mod_cast h)
    linarith
  · have hpow : (0 : ℚ) < 2 ^ d := by positivity
    rw [hd, one_lt_div hpow] at h
    have hlt : 2 ^ d < b.mant := by exact_mod_cast h
    have hle : (2 : ℚ) ^ d + 1 ≤ b.mant := by exact_mod_cast hlt
    have hdigits : d ≤ prec := ((Nat.pow_lt_pow_iff_right (by norm_num)).mp (hlt.trans hmant)).le
    have hstep : (2 ^ prec : ℚ)⁻¹ ≤ (2 ^ d)⁻¹ :=
      inv_anti₀ hpow (pow_le_pow_right₀ (by norm_num) hdigits)
    calc 1 + (2 ^ prec : ℚ)⁻¹ ≤ 1 + (2 ^ d)⁻¹ := by linarith
      _ = ((2 : ℚ) ^ d + 1) / 2 ^ d := by field_simp
      _ ≤ b.mant / 2 ^ d := by gcongr
      _ = b.toRat := hd.symm

theorem le_one_sub (hbits : b.bits ≤ prec) (h : b.toRat < 1) : b.toRat ≤ 1 - (2 ^ prec : ℚ)⁻¹ := by
  have hmant : b.mant < 2 ^ prec := bits_le_iff.mp hbits
  rcases b.exists_toRat_eq with ⟨n, hn⟩ | ⟨d, hd⟩
  · -- No integer lies between zero and one.
    have hpos := b.toRat_pos
    rw [hn] at h hpos
    have hn1 : n < 1 := by exact_mod_cast h
    have hn0 : 0 < n := by exact_mod_cast hpos
    omega
  have hpow : (0 : ℚ) < 2 ^ d := by positivity
  rcases le_or_gt d prec with hdigits | hdigits
  · rw [hd, div_lt_one hpow] at h
    have hlt : b.mant < 2 ^ d := by exact_mod_cast h
    have hle : (b.mant : ℚ) + 1 ≤ 2 ^ d := by exact_mod_cast hlt
    have hstep : (2 ^ prec : ℚ)⁻¹ ≤ (2 ^ d)⁻¹ :=
      inv_anti₀ hpow (pow_le_pow_right₀ (by norm_num) hdigits)
    calc b.toRat = b.mant / 2 ^ d := hd
      _ ≤ ((2 : ℚ) ^ d - 1) / 2 ^ d := by
        gcongr
        linarith
      _ = 1 - (2 ^ d)⁻¹ := by field_simp
      _ ≤ 1 - (2 ^ prec : ℚ)⁻¹ := by linarith
  · -- The mantissa has fewer bits than there are behind the point, so that a zero follows the point.
    have hprec : 1 ≤ prec := le_trans (Nat.succ_pos _) hbits
    have hhalf : b.toRat ≤ 1 / 2 := by
      rw [hd, div_le_iff₀ hpow]
      calc (b.mant : ℚ) ≤ 2 ^ prec := by exact_mod_cast hmant.le
        _ ≤ 2 ^ (d - 1) := pow_le_pow_right₀ (by norm_num) (by omega)
        _ = 1 / 2 * 2 ^ d := by
          obtain ⟨k, rfl⟩ : ∃ k, d = k + 1 := ⟨d - 1, by omega⟩
          rw [Nat.add_sub_cancel, pow_succ]
          ring
    have hinv : (2 ^ prec : ℚ)⁻¹ ≤ 2⁻¹ :=
      inv_anti₀ (by norm_num) (le_self_pow₀ (by norm_num) (by omega))
    linarith

/-- A base other than one leaves the range of exponents after few multiplications. -/
theorem lt_of_pow_mem_range
    (hbits : b.bits ≤ prec) (hone : b ≠ .one) {n : ℕ} (limit : ℕ) (hlimit : maxExp + 1 < limit)
    (hlow : 2 ^ minExp ≤ b.toRat ^ n) (hhigh : b.toRat ^ n ≤ 2 ^ maxExp) :
    n < 2 ^ prec * limit := by
  by_contra! hle
  have hpos : (0 : ℚ) < (2 ^ prec)⁻¹ := by positivity
  have hdouble : 2 ≤ (1 + (2 ^ prec : ℚ)⁻¹) ^ 2 ^ prec := by
    have hbernoulli := one_add_mul_le_pow (a := (2 ^ prec : ℚ)⁻¹) (by linarith) (2 ^ prec)
    have hcancel : ((2 ^ prec : ℕ) : ℚ) * (2 ^ prec : ℚ)⁻¹ = 1 := by
      push_cast
      exact mul_inv_cancel₀ (by positivity)
    linarith
  rcases lt_trichotomy b.toRat 1 with hlt | heq | hgt
  · have hside := le_one_sub hbits hlt
    have hhalf : b.toRat ^ 2 ^ prec ≤ 2⁻¹ := by
      have hproduct : b.toRat * (1 + (2 ^ prec : ℚ)⁻¹) ≤ 1 := by nlinarith
      have hpower : b.toRat ^ 2 ^ prec * (1 + (2 ^ prec : ℚ)⁻¹) ^ 2 ^ prec ≤ 1 := by
        rw [← mul_pow]
        apply pow_le_one₀ _ hproduct
        have := b.toRat_pos
        positivity
      have hnonneg : 0 ≤ b.toRat ^ 2 ^ prec := pow_nonneg b.toRat_pos.le _
      nlinarith
    have hsmall : b.toRat ^ n ≤ 2 ^ (-(limit : ℤ)) := by
      calc b.toRat ^ n ≤ b.toRat ^ (2 ^ prec * limit) :=
            pow_le_pow_of_le_one b.toRat_pos.le hlt.le hle
        _ = (b.toRat ^ 2 ^ prec) ^ limit := pow_mul _ _ _
        _ ≤ 2⁻¹ ^ limit := pow_le_pow_left₀ (pow_nonneg b.toRat_pos.le _) hhalf _
        _ = 2 ^ (-(limit : ℤ)) := by rw [zpow_neg, zpow_natCast, inv_pow]
    have hexp : minExp ≤ -(limit : ℤ) :=
      (zpow_le_zpow_iff_right₀ (by norm_num)).mp (hlow.trans hsmall)
    have hmin : minExp = -(maxExp + 1) := by decide
    omega
  · exact hone (eq_one_iff.mpr heq)
  · have hside := one_add_le hbits hgt
    have hlarge : (2 : ℚ) ^ (limit : ℤ) ≤ b.toRat ^ n := by
      calc (2 : ℚ) ^ (limit : ℤ) = 2 ^ limit := zpow_natCast _ _
        _ ≤ ((1 + (2 ^ prec : ℚ)⁻¹) ^ 2 ^ prec) ^ limit := pow_le_pow_left₀ (by norm_num) hdouble _
        _ ≤ (b.toRat ^ 2 ^ prec) ^ limit := by gcongr
        _ = b.toRat ^ (2 ^ prec * limit) := (pow_mul _ _ _).symm
        _ ≤ b.toRat ^ n := pow_le_pow_right₀ hgt.le hle
    have hexp : (limit : ℤ) ≤ maxExp :=
      (zpow_le_zpow_iff_right₀ (by norm_num)).mp (hlarge.trans hhigh)
    omega

end Magnitude

/-! ## Powers on the way -/

/-- A power with a smaller exponent lies between one and the power. -/
theorem pow_bounds_of_le
    {b low high : ℚ} (hb : 0 < b) (hlow : low ≤ 1) (hhigh : 1 ≤ high) {j n : ℕ} (hle : j ≤ n)
    (hleft : low ≤ b ^ n) (hright : b ^ n ≤ high) : low ≤ b ^ j ∧ b ^ j ≤ high := by
  rcases le_total 1 b with hside | hside
  · constructor
    · exact hlow.trans (one_le_pow₀ hside)
    · exact (pow_le_pow_right₀ hside hle).trans hright
  · constructor
    · exact hleft.trans (pow_le_pow_of_le_one hb.le hside hle)
    · exact (pow_le_one₀ hb.le hside).trans hhigh

theorem two_mul_zpow_sub_one (t : ℤ) : 2 * (2 : ℚ) ^ (t - 1) = 2 ^ t := by
  rw [← zpow_one_add₀ (by norm_num), add_sub_cancel]

theorem Form.stays_pow
    (hprec : 1 ≤ prec) {b : ℚ} (hb : 0 < b) {n : ℕ} (herror : n * roundoff prec ≤ 1 / 8)
    (hlow : 2 ^ minExp ≤ b ^ n) (hhigh : b ^ n ≤ 2 ^ (maxExp - 1)) {j : ℕ} (hle : j ≤ n) :
    Stays prec j (b ^ j) := by
  have hone : (2 : ℚ) ^ minExp ≤ 1 := zpow_le_one_of_nonpos₀ (by norm_num) (by decide)
  have hone' : (1 : ℚ) ≤ 2 ^ (maxExp - 1) := one_le_zpow₀ (by norm_num) (by decide)
  obtain ⟨hleft, hright⟩ := pow_bounds_of_le hb hone hone' hle hlow hhigh
  have herror' : j * roundoff prec ≤ 1 / 8 := by
    have := roundoff_pos prec
    calc j * roundoff prec ≤ n * roundoff prec := by gcongr
      _ ≤ 1 / 8 := herror
  obtain ⟨hdown, hup⟩ := pow_roundoff_bounds hprec herror'
  have hpos : 0 < b ^ j := pow_pos hb j
  have hsmall : (0 : ℚ) < 2 ^ minExp := by positivity
  constructor
  · calc (2 : ℚ) ^ (minExp - 1) ≤ 7 / 8 * 2 ^ minExp := by
          rw [← two_mul_zpow_sub_one minExp] at hsmall ⊢
          linarith
      _ ≤ (1 - roundoff prec) ^ j * b ^ j := mul_le_mul hdown hleft hsmall.le (by linarith)
  · calc (1 + roundoff prec) ^ j * b ^ j ≤ 8 / 7 * 2 ^ (maxExp - 1) :=
          mul_le_mul hup hright hpos.le (by norm_num)
      _ < 2 ^ maxExp := by
          rw [← two_mul_zpow_sub_one maxExp]
          linarith

namespace Binary

variable {wide n : ℕ} {base x : Binary} {b m : Magnitude}

/-- Repeated squaring of a base of fewer bits, up to a power in the range. -/
theorem exists_squarings_near
    (hwide : 1 ≤ wide) (hbits : base.prec ≤ wide) (hbase : base.form = .finite b)
    (herror : n * roundoff wide ≤ 1 / 8) (hlow : 2 ^ minExp ≤ b.toRat ^ n)
    (hhigh : b.toRat ^ n ≤ 2 ^ (maxExp - 1)) :
    ∃ s, squarings wide n ⟨one wide, base.abs.withPrec wide⟩ = .ok s ∧
      Near wide n (b.toRat ^ n) s.acc.form := by
  have hform : (base.abs.withPrec wide).form = .finite b := by
    have hkept : ¬ wide < base.prec := by omega
    simp only [withPrec, abs, if_neg hkept, hbase]
  refine near_squarings hwide b.toRat_pos (fun j _ _ _ hle _ => Or.inr ?_) 0 1 le_rfl (by omega) ?_ ?_
  · exact stays_pow hwide b.toRat_pos herror hlow hhigh hle
  · exact ⟨.one, rfl, by simp⟩
  · exact fun _ => ⟨b, hform, by simp⟩

/-- The inverse of a number whose inverse is in the range. -/
theorem exists_one_div_bounds
    (hwide : 3 ≤ wide) (hx : x.form = .finite m) {r : ℚ} (hr : 2 ^ minExp ≤ r)
    (hr' : r ≤ 2 ^ (maxExp - 1)) (hlow : 7 / 8 * r ≤ m.toRat⁻¹) (hhigh : m.toRat⁻¹ ≤ 8 / 7 * r) :
    ∃ z y, div wide (one wide) x = .ok z ∧ z.form = .finite y ∧
      3 / 4 * r ≤ y.toRat ∧ y.toRat ≤ 9 / 7 * r := by
  have hpos := roundoff_pos wide
  have hsmall : roundoff wide ≤ 1 / 8 := by
    calc roundoff wide ≤ 2 ^ (-3 : ℤ) := by
          unfold roundoff
          exact zpow_le_zpow_right₀ (by norm_num) (by omega)
      _ = 1 / 8 := by norm_num
  have hr0 : 0 < r := lt_of_lt_of_le (by positivity) hr
  have hdown : 3 / 4 * r ≤ (1 - roundoff wide) * m.toRat⁻¹ := by
    calc 3 / 4 * r ≤ 7 / 8 * (7 / 8 * r) := by linarith
      _ ≤ (1 - roundoff wide) * m.toRat⁻¹ :=
        mul_le_mul (by linarith) hlow (by positivity) (by linarith)
  have hup : (1 + roundoff wide) * m.toRat⁻¹ ≤ 9 / 7 * r := by
    calc (1 + roundoff wide) * m.toRat⁻¹ ≤ 9 / 8 * (8 / 7 * r) :=
          mul_le_mul (by linarith) hhigh (inv_nonneg.mpr m.toRat_pos.le) (by norm_num)
      _ = 9 / 7 * r := by ring
  have hone : (one wide).form = .finite .one := rfl
  have hwide' : 1 ≤ wide := by omega
  obtain ⟨f, hdiv, hrounds⟩ := exists_rounds_div hwide' hone hx
  rw [Magnitude.toRat_one, one_div] at hrounds
  have hmin : (2 : ℚ) ^ (minExp - 1) ≤ m.toRat⁻¹ := by
    rw [← two_mul_zpow_sub_one minExp] at hr
    linarith
  have hmax : (1 + roundoff wide) * m.toRat⁻¹ < 2 ^ maxExp := by
    rw [← two_mul_zpow_sub_one maxExp]
    linarith
  obtain ⟨y, rfl⟩ := hrounds.exists_finite hmin hmax
  obtain ⟨hylow, hyhigh⟩ := hrounds.bounds
  exact ⟨_, y, hdiv, rfl, hdown.trans hylow, hyhigh.trans hup⟩

/-- The positive power of which a power in the range is the inverse.  The range has more room at its
lower end, so that the inverse bounds the power from both sides only if it keeps off that end. -/
theorem pow_mem_range
    {c r : ℚ} (hc : 0 < c) {inverse : Bool} (hr : r = if inverse then c⁻¹ else c)
    (hlow : 2 ^ (if inverse then 1 - maxExp else minExp) ≤ r) (hhigh : r ≤ 2 ^ (maxExp - 1)) :
    2 ^ minExp ≤ c ∧ c ≤ 2 ^ (maxExp - 1) := by
  cases inverse with
  | false =>
    simp only [Bool.false_eq_true, if_false] at hr hlow
    rw [← hr]
    exact ⟨hlow, hhigh⟩
  | true =>
    simp only [if_true] at hr hlow
    have hinverse : (2 ^ (maxExp - 1) : ℚ)⁻¹ = 2 ^ (1 - maxExp) := by
      rw [← zpow_neg, neg_sub]
    rw [hr] at hlow hhigh
    constructor
    · calc (2 : ℚ) ^ minExp ≤ 2 ^ (1 - maxExp) := zpow_le_zpow_right₀ (by norm_num) (by decide)
        _ = (2 ^ (maxExp - 1))⁻¹ := hinverse.symm
        _ ≤ c := (inv_le_comm₀ hc (by positivity)).mp hhigh
    · rw [← hinverse] at hlow
      exact (inv_le_inv₀ (by positivity) hc).mp hlow

/-- A power in the range, before it is rounded to the precision asked for. -/
theorem exists_powWide_bounds
    (hwide : 3 ≤ wide) (hbits : base.prec ≤ wide) (hbase : base.form = .finite b)
    (herror : n * roundoff wide ≤ 1 / 8) (inverse : Bool) {r : ℚ}
    (hr : r = if inverse then (b.toRat ^ n)⁻¹ else b.toRat ^ n)
    (hlow : 2 ^ (if inverse then 1 - maxExp else minExp) ≤ r) (hhigh : r ≤ 2 ^ (maxExp - 1)) :
    ∃ z y, powWide wide base inverse n = .ok z ∧ z.form = .finite y ∧
      3 / 4 * r ≤ y.toRat ∧ y.toRat ≤ 9 / 7 * r := by
  have hwide' : 1 ≤ wide := by omega
  have hpower : 0 < b.toRat ^ n := pow_pos b.toRat_pos n
  obtain ⟨hmin, hmax⟩ := pow_mem_range hpower hr hlow hhigh
  obtain ⟨hdown, hup⟩ := pow_roundoff_bounds hwide' herror
  obtain ⟨s, hs, y, hy, hylow, hyhigh⟩ := exists_squarings_near hwide' hbits hbase herror hmin hmax
  have hyleft : 7 / 8 * b.toRat ^ n ≤ y.toRat := le_trans (by gcongr) hylow
  have hyright : y.toRat ≤ 8 / 7 * b.toRat ^ n := hyhigh.trans (by gcongr)
  cases inverse with
  | false =>
    simp only [Bool.false_eq_true, if_false] at hr
    refine ⟨s.acc, y, ?_, hy, ?_, ?_⟩
    · rw [powWide, hs]
      rfl
    · linarith
    · linarith
  | true =>
    simp only [if_true] at hr hlow
    have hinvleft : 7 / 8 * r ≤ y.toRat⁻¹ := by
      calc 7 / 8 * r = (8 / 7 * b.toRat ^ n)⁻¹ := by rw [hr, mul_inv, inv_div]
        _ ≤ y.toRat⁻¹ := inv_anti₀ y.toRat_pos hyright
    have hinvright : y.toRat⁻¹ ≤ 8 / 7 * r := by
      calc y.toRat⁻¹ ≤ (7 / 8 * b.toRat ^ n)⁻¹ := inv_anti₀ (by positivity) hyleft
        _ = 8 / 7 * r := by rw [hr, mul_inv, inv_div]
    have hrmin : 2 ^ minExp ≤ r :=
      le_trans (zpow_le_zpow_right₀ (by norm_num) (by decide)) hlow
    obtain ⟨z, q, hz, hq⟩ := exists_one_div_bounds hwide hy hrmin hhigh hinvleft hinvright
    refine ⟨z, q, ?_, hq⟩
    rw [powWide, hs]
    exact hz

/-- A number well inside the range is finite at every precision. -/
theorem exists_withPrec
    (hprec : 1 ≤ prec) (hx : x.form = .finite m) (hlow : 2 ^ (minExp - 1) ≤ m.toRat)
    (hhigh : 3 / 2 * m.toRat < 2 ^ maxExp) : ∃ y, (x.withPrec prec).form = .finite y := by
  rcases withPrec_form hprec hx with ⟨-, hsame⟩ | hrounds
  · exact ⟨m, hsame⟩
  · have hhalf := roundoff_le_half hprec
    have hpos := m.toRat_pos
    exact hrounds.exists_finite hlow (by nlinarith)

theorem integerPart_eq_toRat {e : Magnitude} (h : e.isInteger = true) :
    (integerPart e : ℚ) = e.toRat := by
  have hexp : 0 ≤ e.exp := by simpa [Magnitude.isInteger] using h
  rw [integerPart, Nat.shiftLeft_eq, Magnitude.toRat, ← Int.toNat_of_nonneg hexp, zpow_natCast]
  push_cast
  rfl

/-- An integer exponent is the integer of its magnitude with its sign. -/
theorem exists_integerPart {exp : Binary} {k : ℤ} (hk : k ≠ 0) (hexp : exp.toRat? = some (k : ℚ)) :
    ∃ e, exp.form = .finite e ∧ e.isInteger = true ∧
      k = if exp.negative then -(integerPart e : ℤ) else integerPart e := by
  obtain ⟨-, hzero⟩ | ⟨e, he, hvalue⟩ := toRat?_eq_some_iff.mp hexp
  · exact absurd (by exact_mod_cast hzero) hk
  have hinteger : e.isInteger = true := by
    have := isInteger_iff.mpr ⟨k, hexp⟩
    rwa [isInteger, he] at this
  refine ⟨e, he, hinteger, ?_⟩
  rw [← integerPart_eq_toRat hinteger, withSign] at hvalue
  split at hvalue
  · rw [if_pos ‹_›]
    exact_mod_cast hvalue
  · rw [if_neg ‹_›]
    exact_mod_cast hvalue

/-- The guard bits make up for all roundings of a power in the range. -/
theorem mul_roundoff_guarded_le (hn : n < 2 ^ prec * 2 ^ 32) :
    n * roundoff (prec + powGuardBits) ≤ 1 / 8 := by
  have hn' : (n : ℚ) ≤ 2 ^ (prec : ℤ) * 2 ^ (32 : ℤ) := by exact_mod_cast hn.le
  calc n * roundoff (prec + powGuardBits)
      ≤ 2 ^ (prec : ℤ) * 2 ^ (32 : ℤ) * roundoff (prec + powGuardBits) := by
        have := roundoff_pos (prec + powGuardBits)
        gcongr
    _ = 2 ^ (-32 : ℤ) := by
        rw [roundoff, ← zpow_add₀ (by norm_num), ← zpow_add₀ (by norm_num), powGuardBits]
        congr 1
        push_cast
        ring
    _ ≤ 1 / 8 := by norm_num

/-- An integer power in the range is finite, if the range is taken to end where the inverse of a
negative power would overflow. -/
theorem exists_powInteger_finite
    (hprec : 1 ≤ prec) (hguard : prec + powGuardBits ≤ maxPrec) (hprecision : base.HasPrecision prec)
    (hbase : base.form = .finite b) (hone : b ≠ .one) (inverse : Bool) {r : ℚ}
    (hr : r = if inverse then (b.toRat ^ n)⁻¹ else b.toRat ^ n)
    (hlow : 2 ^ (if inverse then 1 - maxExp else minExp) ≤ r) (hhigh : r ≤ 2 ^ (maxExp - 1))
    (negative : Bool) :
    ∃ z y, powInteger prec base inverse n negative = .ok z ∧ z.form = .finite y := by
  have hclamp : clampPrec (prec + powGuardBits) = prec + powGuardBits := min_eq_left hguard
  have hwide : 3 ≤ prec + powGuardBits := by
    rw [powGuardBits]
    omega
  have hbits : base.prec ≤ prec + powGuardBits := by
    rw [hprecision.prec_eq]
    omega
  obtain ⟨hmin, hmax⟩ := pow_mem_range (pow_pos b.toRat_pos n) hr hlow hhigh
  have hmax' : b.toRat ^ n ≤ 2 ^ maxExp :=
    hmax.trans (zpow_le_zpow_right₀ (by norm_num) (by omega))
  have hn := Magnitude.lt_of_pow_mem_range (hprecision.bitsLe b hbase) hone (2 ^ 32) (by decide)
    hmin hmax'
  obtain ⟨w, y, hw, hy, hylow, hyhigh⟩ := exists_powWide_bounds hwide hbits hbase
    (mul_roundoff_guarded_le hn) inverse hr hlow hhigh
  have hrmin : 2 ^ minExp ≤ r := by
    refine le_trans (zpow_le_zpow_right₀ (by norm_num) ?_) hlow
    cases inverse with
    | false => exact le_rfl
    | true => decide
  have hdouble := two_mul_zpow_sub_one minExp
  have hdouble' := two_mul_zpow_sub_one maxExp
  have hsmall : (0 : ℚ) < 2 ^ minExp := by positivity
  obtain ⟨y', hy'⟩ := exists_withPrec hprec hy (by linarith) (by linarith)
  rw [← hclamp] at hw
  obtain ⟨z, hz, hform⟩ := exists_powInteger_of_powWide negative hw
  exact ⟨z, y', hz, hform.trans hy'⟩

/-- The power of a base of the precision asked for to an integer exponent is finite and not zero if
it lies in the range of exponents and its estimated size does too.  The lower end of that range is
`2 ^ minExp`, and for a negative exponent it is where the power to be inverted would overflow. -/
theorem pow_finite_of_mem_range
    (hprec : 1 ≤ prec) (hguard : prec + powGuardBits ≤ maxPrec) {base exp : Binary} {b : Magnitude}
    (hprecision : base.HasPrecision prec) (hbase : base.form = .finite b) {k : ℤ} (hk : k ≠ 0)
    (hexp : exp.toRat? = some (k : ℚ))
    (habove : estimateAbove (powEstimate b exp) maxExp = false)
    (hbelow : estimateBelow (powEstimate b exp) minExp = false)
    (hlow : 2 ^ (if k < 0 then 1 - maxExp else minExp) ≤ b.toRat ^ k)
    (hhigh : b.toRat ^ k ≤ 2 ^ (maxExp - 1)) (fraction : FractionalPower) :
    ∃ z y, pow prec base exp fraction = .ok z ∧ z.form = .finite y := by
  obtain ⟨e, he, hinteger, hsign⟩ := exists_integerPart hk hexp
  by_cases hone : b = .one
  · refine ⟨{ one prec with negative := base.negative && e.isOddInteger }, .one, ?_, rfl⟩
    simp only [pow, hbase, he, hinteger, hone, Bool.not_true, Bool.and_false, Bool.false_eq_true,
      if_false, if_true]
  have hpow : pow prec base exp fraction =
      powInteger prec base exp.negative (integerPart e) (base.negative && e.isOddInteger) := by
    simp only [pow, powFinite, hbase, he, hinteger, hone, habove, hbelow, Bool.not_true,
      Bool.and_false, Bool.false_eq_true, if_false, if_true]
  have hinverse : k < 0 ↔ exp.negative = true := by
    have hle : (0 : ℤ) ≤ integerPart e := Int.natCast_nonneg _
    rw [hsign]
    split
    · exact iff_of_true (by omega) ‹_›
    · exact iff_of_false (by omega) ‹_›
  have hpower : b.toRat ^ k =
      if exp.negative then (b.toRat ^ integerPart e)⁻¹ else b.toRat ^ integerPart e := by
    rw [hsign]
    split
    · rw [zpow_neg, zpow_natCast]
    · rw [zpow_natCast]
  rw [hpow]
  simp only [hinverse] at hlow
  exact exists_powInteger_finite hprec hguard hprecision hbase hone exp.negative hpower hlow hhigh _

/-- One half to the power of `2 ^ 31` lies at the lower end of the range. -/
theorem pow_finite_of_half :
    let half : Binary := ⟨64, false, .finite ⟨1, -1, rfl⟩⟩
    let exp : Binary := ⟨64, false, .finite ⟨1, 31, rfl⟩⟩
    half.HasPrecision 64 ∧ exp.toRat? = some ((2147483648 : ℤ) : ℚ) ∧
      (2⁻¹ : ℚ) ^ (2147483648 : ℤ) = 2 ^ minExp ∧
        ∃ z y, pow 64 half exp = .ok z ∧ z.form = .finite y := by
  intro half exp
  have hprecision : half.HasPrecision 64 := ⟨rfl, by rintro m ⟨⟩; decide⟩
  have hexp : exp.toRat? = some ((2147483648 : ℤ) : ℚ) := by
    simp [exp, toRat?, Form.toRat?, withSign, Magnitude.toRat]
    norm_num
  have hhalf : Magnitude.toRat ⟨1, -1, rfl⟩ = 2⁻¹ := by simp [Magnitude.toRat]
  have hpower : (2⁻¹ : ℚ) ^ (2147483648 : ℤ) = 2 ^ minExp := by
    rw [inv_zpow, ← zpow_neg]
    rfl
  refine ⟨hprecision, hexp, hpower, ?_⟩
  apply pow_finite_of_mem_range (by decide) (by decide) hprecision rfl (by decide) hexp
    (by decide +kernel) (by decide +kernel)
  · rw [hhalf, hpower]
    exact le_rfl
  · rw [hhalf, hpower]
    exact zpow_le_zpow_right₀ (by norm_num) (by decide)

/-- The powers of a number just above one double slowly. -/
theorem one_add_pow_le {u : ℚ} {m : ℕ} (hu : 0 ≤ u) (hone : u ≤ 1) (h : m * u ≤ 3 / 16) (n : ℕ) :
    (1 + u) ^ (m * (48 * n)) ≤ 2 ^ (15 * n) := by
  have hfactor : (1 + u) ^ m ≤ 16 / 13 := by
    have := (pow_bounds_of_mul_le hu hone (by norm_num) h).2
    norm_num at this ⊢
    exact this
  calc (1 + u) ^ (m * (48 * n)) = (((1 + u) ^ m) ^ 48) ^ n := by rw [pow_mul, pow_mul]
    _ ≤ ((16 / 13) ^ 48) ^ n := by gcongr
    _ ≤ (2 ^ 15) ^ n := by
      gcongr
      norm_num
    _ = 2 ^ (15 * n) := (pow_mul 2 15 n).symm

/-- Powers inside the range that are lost.  The number from above is lost as a power of two with a
negative exponent, because the power to be inverted is past the range.  A power of a number just above
one becomes infinite, because the logarithm of that number is overestimated by a third. -/
theorem pow_saturates_inside_range :
    let two : Binary := ⟨64, false, .finite ⟨1, 1, rfl⟩⟩
    let exp : Binary := ⟨64, true, .finite ⟨1, 31, rfl⟩⟩
    let base : Binary := ⟨64, false, .finite ⟨18014398509481987, -54, rfl⟩⟩
    let large : Binary := ⟨64, false, .finite ⟨3, 81, rfl⟩⟩
    (two.HasPrecision 64 ∧ two.toRat? = some 2 ∧ exp.toRat? = some ((-2147483648 : ℤ) : ℚ) ∧
        2 ^ (minExp - 1) ≤ (2 : ℚ) ^ (-2147483648 : ℤ) ∧
          (2 : ℚ) ^ (-2147483648 : ℤ) ≤ 2 ^ (maxExp - 1) ∧
            pow 64 two exp = .ok (zero 64 false)) ∧
      base.HasPrecision 64 ∧ base.toRat? = some (1 + 3 / 2 ^ 54) ∧
        large.toRat? = some ((2 ^ 50 * (48 * 2 ^ 27) : ℕ) : ℚ) ∧
          2 ^ (minExp - 1) ≤ (1 + 3 / 2 ^ 54 : ℚ) ^ (2 ^ 50 * (48 * 2 ^ 27)) ∧
            (1 + 3 / 2 ^ 54 : ℚ) ^ (2 ^ 50 * (48 * 2 ^ 27)) ≤ 2 ^ (maxExp - 1) ∧
              pow 64 base large = .ok (infinity 64 false) := by
  intro two exp base large
  refine ⟨⟨⟨rfl, by rintro m ⟨⟩; decide⟩, ?_, ?_, ?_, ?_, by decide +kernel⟩,
    ⟨rfl, by rintro m ⟨⟩; decide⟩, ?_, ?_, ?_, ?_, by decide +kernel⟩
  · simp [two, toRat?, Form.toRat?, withSign, Magnitude.toRat]
  · simp [exp, toRat?, Form.toRat?, withSign, Magnitude.toRat]
    norm_num
  · exact zpow_le_zpow_right₀ (by norm_num) (by decide)
  · exact zpow_le_zpow_right₀ (by norm_num) (by decide)
  · simp [base, toRat?, Form.toRat?, withSign, Magnitude.toRat]
    norm_num
  · simp [large, toRat?, Form.toRat?, withSign, Magnitude.toRat]
    norm_num
  · calc (2 : ℚ) ^ (minExp - 1) ≤ 1 := zpow_le_one_of_nonpos₀ (by norm_num) (by decide)
      _ ≤ (1 + 3 / 2 ^ 54 : ℚ) ^ (2 ^ 50 * (48 * 2 ^ 27)) := one_le_pow₀ (by norm_num)
  · calc (1 + 3 / 2 ^ 54 : ℚ) ^ (2 ^ 50 * (48 * 2 ^ 27)) ≤ 2 ^ (15 * 2 ^ 27) :=
          one_add_pow_le (by norm_num) (by norm_num) (by norm_num) (2 ^ 27)
      _ = 2 ^ ((15 * 2 ^ 27 : ℕ) : ℤ) := (zpow_natCast 2 (15 * 2 ^ 27)).symm
      _ ≤ 2 ^ (maxExp - 1) := zpow_le_zpow_right₀ (by norm_num) (by decide)

end Binary
end Reckon
