import Reckon.Proofs.Binary.Multiplications

/-!
# Errors of repeated squaring

One rounding changes a number in the range of exponents by a factor between `1 - u` and `1 + u`, where
`u` is half a unit in the last place of one.  A product of two numbers collects the errors of both and
adds its own, so that errors are counted by the number of roundings behind them.

Repeated squaring reaches the powers of its base with as many roundings as the exponent says, one less
for a square.  So as long as every product on the way is finite, or is that of a power that cannot leave
the range after so many roundings, the power itself is known up to that many factors.
-/

namespace Reckon

open Form

/-- The largest relative error of one rounding to a precision. -/
def roundoff (prec : ℕ) : ℚ :=
  2 ^ (-(prec : ℤ))

theorem roundoff_pos (prec : ℕ) : 0 < roundoff prec := by
  unfold roundoff
  positivity

theorem roundoff_le_half {prec : ℕ} (hprec : 1 ≤ prec) : roundoff prec ≤ 1 / 2 := by
  calc roundoff prec ≤ 2 ^ (-1 : ℤ) := by
        unfold roundoff
        exact zpow_le_zpow_right₀ (by norm_num) (by omega)
    _ = 1 / 2 := by norm_num

variable {prec : ℕ} {q : ℚ}

/-- Half a unit in the last place is a small part of the number. -/
theorem Form.half_lastUnit_le (prec : ℕ) (hq : 0 < q) :
    lastUnit prec q / 2 ≤ roundoff prec * q := by
  have hle : (2 : ℚ) ^ Int.log 2 q ≤ q := (Rounding.zpow_log_le_and_lt hq).1
  have hunit : lastUnit prec q / 2 = roundoff prec * 2 ^ Int.log 2 q := by
    have hsum : Int.log 2 q + 1 - (prec : ℤ) = -prec + Int.log 2 q + 1 := by ring
    rw [lastUnit, exponent, roundoff, hsum, zpow_add_one₀ (by norm_num), mul_div_cancel_right₀ _
      (by norm_num), zpow_add₀ (by norm_num)]
  rw [hunit]
  exact mul_le_mul_of_nonneg_left hle (roundoff_pos prec).le

namespace Form

/-- A finite number that `k` roundings to a precision can have made of `q`. -/
def Near (prec k : ℕ) (q : ℚ) (f : Form) : Prop :=
  ∃ x, f = .finite x ∧ (1 - roundoff prec) ^ k * q ≤ x.toRat ∧
    x.toRat ≤ (1 + roundoff prec) ^ k * q

/-- A number that `k` roundings to a precision cannot carry out of the range of exponents. -/
structure Stays (prec k : ℕ) (q : ℚ) : Prop where
  low : 2 ^ (minExp - 1) ≤ (1 - roundoff prec) ^ k * q
  high : (1 + roundoff prec) ^ k * q < 2 ^ maxExp

theorem mul_lastUnit_bounds
    {n : ℕ} (hq : 0 < q) (h : Rounding.IsNearest (q / lastUnit prec q) n) :
    (1 - roundoff prec) * q ≤ n * lastUnit prec q ∧
      n * lastUnit prec q ≤ (1 + roundoff prec) * q := by
  have hunit := lastUnit_pos prec q
  have hhalf := half_lastUnit_le prec hq
  have hdistance : |q - n * lastUnit prec q| ≤ lastUnit prec q / 2 := by
    have hsplit : q - n * lastUnit prec q = (q / lastUnit prec q - n) * lastUnit prec q := by
      field_simp
    rw [hsplit, abs_mul, abs_of_pos hunit]
    calc |q / lastUnit prec q - n| * lastUnit prec q ≤ 1 / 2 * lastUnit prec q := by
          gcongr
          exact h.near
      _ = lastUnit prec q / 2 := by ring
  obtain ⟨hlow, hhigh⟩ := abs_le.mp hdistance
  constructor
  · linarith
  · linarith

/-- A rounding with a finite result changes a number by a small factor. -/
theorem Rounds.bounds
    {x : Magnitude} (h : Rounds prec q (.finite x)) :
    (1 - roundoff prec) * q ≤ x.toRat ∧ x.toRat ≤ (1 + roundoff prec) * q := by
  cases h with
  | inside hpos _ _ hnear hvalue _ =>
    rw [hvalue]
    exact mul_lastUnit_bounds hpos hnear

/-- A number that stays in the range is rounded to a finite number. -/
theorem Rounds.exists_finite
    {f : Form} (h : Rounds prec q f) (hmin : 2 ^ (minExp - 1) ≤ q)
    (hmax : (1 + roundoff prec) * q < 2 ^ maxExp) : ∃ x, f = .finite x := by
  have hq : 0 < q := lt_of_lt_of_le (by positivity) hmin
  have hexponent : minExp ≤ exponent q := by
    have := (Rounding.zpow_le_iff hq _).mp hmin
    rw [exponent]
    omega
  have hlt : q < 2 ^ maxExp := by
    have hroundoff := roundoff_pos prec
    calc q ≤ (1 + roundoff prec) * q := by nlinarith
      _ < 2 ^ maxExp := hmax
  cases h with
  | zero hzero => exact absurd hzero hq.ne'
  | below _ hbelow => omega
  | above _ habove =>
    have := (Rounding.lt_zpow_iff hq _).mp hlt
    rw [exponent] at habove
    omega
  | inside => exact ⟨_, rfl⟩
  | @carried n x _ _ _ hnear hvalue htop =>
    have hle : x.toRat < 2 ^ maxExp := by
      rw [hvalue]
      exact lt_of_le_of_lt (mul_lastUnit_bounds hq hnear).2 hmax
    have := (Rounding.lt_zpow_iff x.toRat_pos _).mp hle
    rw [x.top_eq_log] at htop
    omega

theorem one_sub_roundoff_nonneg (hprec : 1 ≤ prec) : 0 ≤ 1 - roundoff prec := by
  have := roundoff_le_half hprec
  linarith

theorem Stays.mono
    {i k : ℕ} (hprec : 1 ≤ prec) (hq : 0 ≤ q) (h : Stays prec k q) (hle : i ≤ k) :
    Stays prec i q := by
  have hroundoff := roundoff_pos prec
  constructor
  · calc (2 : ℚ) ^ (minExp - 1) ≤ (1 - roundoff prec) ^ k * q := h.low
      _ ≤ (1 - roundoff prec) ^ i * q := by
        apply mul_le_mul_of_nonneg_right _ hq
        exact pow_le_pow_of_le_one (one_sub_roundoff_nonneg hprec) (by linarith) hle
  · calc (1 + roundoff prec) ^ i * q ≤ (1 + roundoff prec) ^ k * q := by
          apply mul_le_mul_of_nonneg_right _ hq
          exact pow_le_pow_right₀ (by linarith) hle
      _ < 2 ^ maxExp := h.high

/-- Another rounding of a number with errors, if its result is finite. -/
theorem Near.of_rounds
    {k : ℕ} {r : ℚ} {x : Magnitude} (hprec : 1 ≤ prec)
    (hlow : (1 - roundoff prec) ^ k * q ≤ r) (hhigh : r ≤ (1 + roundoff prec) ^ k * q)
    (h : Rounds prec r (.finite x)) : Near prec (k + 1) q (.finite x) := by
  have hroundoff := roundoff_pos prec
  refine ⟨x, rfl, ?_, ?_⟩
  · calc (1 - roundoff prec) ^ (k + 1) * q = (1 - roundoff prec) * ((1 - roundoff prec) ^ k * q) := by
          rw [pow_succ', mul_assoc]
      _ ≤ (1 - roundoff prec) * r :=
        mul_le_mul_of_nonneg_left hlow (one_sub_roundoff_nonneg hprec)
      _ ≤ x.toRat := h.bounds.1
  · calc x.toRat ≤ (1 + roundoff prec) * r := h.bounds.2
      _ ≤ (1 + roundoff prec) * ((1 + roundoff prec) ^ k * q) :=
        mul_le_mul_of_nonneg_left hhigh (by linarith)
      _ = (1 + roundoff prec) ^ (k + 1) * q := by rw [pow_succ', mul_assoc]

/-- The result of another rounding is finite if the number stays in the range. -/
theorem Stays.exists_finite
    {k : ℕ} {r : ℚ} {f : Form} (hprec : 1 ≤ prec) (hstays : Stays prec (k + 1) q)
    (hlow : (1 - roundoff prec) ^ k * q ≤ r) (hhigh : r ≤ (1 + roundoff prec) ^ k * q)
    (h : Rounds prec r f) : ∃ x, f = .finite x := by
  have hroundoff := roundoff_pos prec
  have hside := one_sub_roundoff_nonneg hprec
  have hmin : (2 : ℚ) ^ (minExp - 1) ≤ (1 - roundoff prec) * r := by
    calc (2 : ℚ) ^ (minExp - 1) ≤ (1 - roundoff prec) ^ (k + 1) * q := hstays.low
      _ = (1 - roundoff prec) * ((1 - roundoff prec) ^ k * q) := by rw [pow_succ', mul_assoc]
      _ ≤ (1 - roundoff prec) * r := mul_le_mul_of_nonneg_left hlow hside
  have hr : 0 < r := by
    by_contra! hr
    have hnonpos := mul_nonpos_of_nonneg_of_nonpos hside hr
    exact absurd (hmin.trans hnonpos) (not_le.mpr (by positivity))
  apply h.exists_finite (hmin.trans (by nlinarith))
  calc (1 + roundoff prec) * r ≤ (1 + roundoff prec) * ((1 + roundoff prec) ^ k * q) :=
        mul_le_mul_of_nonneg_left hhigh (by linarith)
    _ = (1 + roundoff prec) ^ (k + 1) * q := by rw [pow_succ', mul_assoc]
    _ < 2 ^ maxExp := hstays.high

end Form

namespace Binary

variable {x y : Binary}

/-- A product is the rounding of a number with the errors of both factors. -/
theorem exists_rounds_mul_of_near
    (hprec : 1 ≤ prec) {i j : ℕ} {a b : ℚ} (ha : 0 ≤ a) (hb : 0 ≤ b)
    (hx : Near prec i a x.form) (hy : Near prec j b y.form) :
    ∃ z r, mul prec x y = .ok z ∧ Rounds prec r z.form ∧
      (1 - roundoff prec) ^ (i + j) * (a * b) ≤ r ∧ r ≤ (1 + roundoff prec) ^ (i + j) * (a * b) := by
  obtain ⟨m, hm, hmlow, hmhigh⟩ := hx
  obtain ⟨n, hn, hnlow, hnhigh⟩ := hy
  obtain ⟨f, hmul, hrounds⟩ := exists_rounds_mul hprec hm hn
  refine ⟨_, _, hmul, hrounds, ?_, ?_⟩
  · have hside := one_sub_roundoff_nonneg hprec
    calc (1 - roundoff prec) ^ (i + j) * (a * b)
        = (1 - roundoff prec) ^ i * a * ((1 - roundoff prec) ^ j * b) := by ring
      _ ≤ m.toRat * n.toRat := by
        gcongr
        exact m.toRat_pos.le
  · have hroundoff := roundoff_pos prec
    calc m.toRat * n.toRat
        ≤ (1 + roundoff prec) ^ i * a * ((1 + roundoff prec) ^ j * b) := by
          gcongr
          exact n.toRat_pos.le
      _ = (1 + roundoff prec) ^ (i + j) * (a * b) := by ring

/-- A product that is neither zero nor infinite. -/
def FiniteProduct (prec : ℕ) (x y : Binary) : Prop :=
  ∃ z m, mul prec x y = .ok z ∧ z.form = .finite m

/-- A product that does not leave the range has the errors of both factors and one more. -/
theorem near_mul
    (hprec : 1 ≤ prec) {i j : ℕ} {a b : ℚ} (ha : 0 ≤ a) (hb : 0 ≤ b)
    (hx : Near prec i a x.form) (hy : Near prec j b y.form)
    (hinside : FiniteProduct prec x y ∨ Stays prec (i + j + 1) (a * b)) :
    ∃ z, mul prec x y = .ok z ∧ Near prec (i + j + 1) (a * b) z.form := by
  obtain ⟨z, r, hmul, hrounds, hlow, hhigh⟩ := exists_rounds_mul_of_near hprec ha hb hx hy
  have hfinite : ∃ m, z.form = .finite m := by
    rcases hinside with ⟨z', m, hmul', hm⟩ | hstays
    · cases hmul.symm.trans hmul'
      exact ⟨m, hm⟩
    · exact hstays.exists_finite hprec hlow hhigh hrounds
  obtain ⟨m, hm⟩ := hfinite
  rw [hm] at hrounds
  exact ⟨z, hmul, hm ▸ Near.of_rounds hprec hlow hhigh hrounds⟩

/-- Repeated squaring from the power `b ^ i` with the square `b ^ m`, each with as many errors as its
exponent says and the square with one less. -/
theorem near_squarings
    (hprec : 1 ≤ prec) {b : ℚ} (hb : 0 < b) {n total : ℕ} {s : Squaring}
    (hinside : ∀ j x y, 1 ≤ j → j ≤ total → Multiplies prec n s x y →
      FiniteProduct prec x y ∨ Stays prec j (b ^ j))
    (i m : ℕ) (hm : 1 ≤ m) (htotal : i + m * n = total) (hacc : Near prec i (b ^ i) s.acc.form)
    (hsquare : n ≠ 0 → Near prec (m - 1) (b ^ m) s.square.form) :
    ∃ s', squarings prec n s = .ok s' ∧ Near prec total (b ^ total) s'.acc.form := by
  refine exists_squarings_powers (P := fun i x => Near prec i (b ^ i) x.form)
    (Q := fun m y => 1 ≤ m ∧ Near prec (m - 1) (b ^ m) y.form) ?_ ?_ i m htotal hacc
    fun hn => ⟨hm, hsquare hn⟩
  · rintro i m x y hle hon hx ⟨hm, hy⟩
    have hcount : i + (m - 1) + 1 = i + m := by omega
    have hstep := near_mul hprec (pow_pos hb i).le (pow_pos hb m).le hx hy
    rw [hcount, ← pow_add] at hstep
    exact hstep (hinside (i + m) x y (by omega) hle hon)
  · rintro m y hle hon ⟨hm, hy⟩
    have hcount : m - 1 + (m - 1) + 1 = 2 * m - 1 := by omega
    have hstep := near_mul hprec (pow_pos hb m).le (pow_pos hb m).le hy hy
    rw [hcount, ← pow_add, ← two_mul] at hstep
    obtain ⟨z, hmul, hz⟩ := hstep ((hinside (2 * m) y y (by omega) hle hon).imp_right fun hstays =>
      hstays.mono hprec (pow_pos hb _).le (by omega))
    exact ⟨z, hmul, by omega, hz⟩

end Binary
end Reckon
