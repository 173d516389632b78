import Reckon.Proofs.Binary.RoundingError

/-!
# The error of an integer power

An integer power is computed with guard bits and rounded once more to the precision asked for.  A base
of no more bits than that precision is taken as it is, so that every error of the power comes from a
product: as long as no product leaves the range of exponents, there are at most as many errors as the
exponent says.  The inverse of a negative power adds one, and so does the last rounding.

The last rounding has fewer bits than the products.  It may carry a number that was just inside the
range past the largest exponent, and then the power is infinite although no product was.
-/

namespace Reckon

open Form

variable {prec : ℕ} {q : ℚ}

namespace Form

/-- A form whose exponent, if it has one, is in the range. -/
def InRange (f : Form) : Prop :=
  ∀ m, f = .finite m → minExp ≤ m.top ∧ m.top ≤ maxExp

/-- What is left of a number `x` between two bounds when it has been rounded to a precision: a number
between the bounds up to one more error, or infinity if `x` was half a unit or less below the end of the
range. -/
def Narrowed (prec : ℕ) (low high : ℚ) (x : Magnitude) (f : Form) : Prop :=
  (∃ y, f = .finite y ∧ (1 - roundoff prec) * low ≤ y.toRat ∧
      y.toRat ≤ (1 + roundoff prec) * high) ∨
    f = .infinite ∧ (1 - roundoff (prec + 1)) * 2 ^ maxExp ≤ x.toRat

/-- A number becomes infinite only if it is at most half a unit below the end of the range. -/
theorem Rounds.le_of_infinite
    (h : Rounds prec q .infinite) : (1 - roundoff (prec + 1)) * 2 ^ maxExp ≤ q := by
  have hroundoff := roundoff_pos (prec + 1)
  have hlimit : (0 : ℚ) < 2 ^ maxExp := by positivity
  cases h with
  | above hpos habove =>
    have hle : (2 : ℚ) ^ maxExp ≤ q := by
      rw [Rounding.zpow_le_iff hpos]
      rw [exponent] at habove
      omega
    nlinarith
  | @carried n x hpos _ hmax hnear hvalue htop =>
    have hcarried : (2 : ℚ) ^ maxExp ≤ n * lastUnit prec q := by
      rw [← hvalue, Rounding.zpow_le_iff x.toRat_pos]
      rw [x.top_eq_log] at htop
      omega
    have hunit : lastUnit prec q / 2 ≤ roundoff (prec + 1) * 2 ^ maxExp := by
      calc lastUnit prec q / 2 = 2 ^ (exponent q - prec - 1) := by
            rw [lastUnit, zpow_sub_one₀ (by norm_num), div_eq_mul_inv]
        _ ≤ 2 ^ (-((prec + 1 : ℕ) : ℤ) + maxExp) :=
            zpow_le_zpow_right₀ (by norm_num) (by push_cast; omega)
        _ = roundoff (prec + 1) * 2 ^ maxExp := by rw [roundoff, zpow_add₀ (by norm_num)]
    have hdistance : n * lastUnit prec q - q ≤ lastUnit prec q / 2 := by
      have hhalf := (abs_le.mp hnear.near).1
      have hpos := lastUnit_pos prec q
      have hscaled : (n - 1 / 2) * lastUnit prec q ≤ q := by
        rw [← le_div_iff₀ hpos]
        linarith
      linarith
    linarith

theorem Rounds.narrowed
    {x : Magnitude} {f : Form} {low high : ℚ} (hprec : 1 ≤ prec) (h : Rounds prec x.toRat f)
    (hmin : minExp ≤ x.top) (hlow : low ≤ x.toRat) (hhigh : x.toRat ≤ high) :
    Narrowed prec low high x f := by
  have hroundoff := roundoff_pos prec
  cases f with
  | zero =>
    cases h with
    | zero hzero => exact absurd hzero x.toRat_pos.ne'
    | below _ hbelow =>
      rw [x.top_eq_log] at hmin
      rw [exponent] at hbelow
      omega
  | infinite => exact Or.inr ⟨rfl, h.le_of_infinite⟩
  | finite y =>
    refine Or.inl ⟨y, rfl, ?_, ?_⟩
    · exact (mul_le_mul_of_nonneg_left hlow (one_sub_roundoff_nonneg hprec)).trans h.bounds.1
    · exact h.bounds.2.trans (mul_le_mul_of_nonneg_left hhigh (by linarith))

end Form

namespace Binary

variable {wide n : ℕ} {x y z base : Binary} {a b : Magnitude} {s : Squaring}

theorem narrowed_withPrec
    (hprec : 1 ≤ prec) (hx : x.form = .finite a) (hmin : minExp ≤ a.top) {low high : ℚ}
    (hpos : 0 ≤ low) (hlow : low ≤ a.toRat) (hhigh : a.toRat ≤ high) :
    Narrowed prec low high a (x.withPrec prec).form := by
  rcases withPrec_form hprec hx with ⟨-, hsame⟩ | hrounds
  · have hroundoff := roundoff_pos prec
    rw [hsame]
    refine Or.inl ⟨a, rfl, ?_, ?_⟩
    · nlinarith
    · nlinarith
  · exact hrounds.narrowed hprec hmin hlow hhigh

/-! ## Products and quotients in the range -/

theorem FiniteProduct.factors
    (h : FiniteProduct prec x y) : (∃ a, x.form = .finite a) ∧ ∃ b, y.form = .finite b := by
  obtain ⟨z, m, hmul, hz⟩ := h
  unfold mul at hmul
  dsimp only at hmul
  split at hmul <;> cases hmul
  · cases hz
  · cases hz
  · cases hz
  · cases hz
  · exact ⟨⟨_, ‹_›⟩, _, ‹_›⟩

theorem inRange_mul (hprec : 1 ≤ prec) (h : mul prec x y = .ok z) : z.form.InRange := by
  intro m hm
  obtain ⟨⟨a, ha⟩, b, hb⟩ := FiniteProduct.factors ⟨z, m, h, hm⟩
  obtain ⟨f, hmul, hrounds⟩ := exists_rounds_mul hprec ha hb
  cases h.symm.trans hmul
  cases hm
  exact hrounds.top_bounds hprec

theorem inRange_one (prec : ℕ) : (one prec).form.InRange := by
  rintro m ⟨⟩
  decide

/-- The inverse of a number between two bounds. -/
theorem one_div_bounds
    (hprec : 1 ≤ prec) (hx : x.form = .finite a) (h : div prec (one prec) x = .ok z)
    (hz : z.form = .finite b) {low high : ℚ} (hpos : 0 < low) (hlow : low ≤ a.toRat)
    (hhigh : a.toRat ≤ high) :
    minExp ≤ b.top ∧ (1 - roundoff prec) * high⁻¹ ≤ b.toRat ∧
      b.toRat ≤ (1 + roundoff prec) * low⁻¹ := by
  have hroundoff := roundoff_pos prec
  have hone : (one prec).form = .finite .one := rfl
  obtain ⟨f, hdiv, hrounds⟩ := exists_rounds_div hprec hone hx
  cases h.symm.trans hdiv
  cases hz
  rw [Magnitude.toRat_one, one_div] at hrounds
  refine ⟨(hrounds.top_bounds hprec).1, ?_, ?_⟩
  · calc (1 - roundoff prec) * high⁻¹ ≤ (1 - roundoff prec) * a.toRat⁻¹ := by
          apply mul_le_mul_of_nonneg_left _ (one_sub_roundoff_nonneg hprec)
          exact inv_anti₀ a.toRat_pos hhigh
      _ ≤ b.toRat := hrounds.bounds.1
  · calc b.toRat ≤ (1 + roundoff prec) * a.toRat⁻¹ := hrounds.bounds.2
      _ ≤ (1 + roundoff prec) * low⁻¹ := by
        apply mul_le_mul_of_nonneg_left _ (by linarith)
        exact inv_anti₀ hpos hlow

/-! ## Repeated squaring without overflow -/

/-- The current square is a factor of some product. -/
theorem exists_multiplies_square (hn : n ≠ 0) : ∃ x, Multiplies prec n s x s.square := by
  by_cases hbit : n % 2 = 1
  · exact ⟨s.acc, .product hbit⟩
  · exact ⟨s.square, .square (by omega)⟩

/-- A base is kept at a precision that has room for its bits, unless its exponent is out of range. -/
theorem toRat_eq_of_withPrec
    (hprec : 1 ≤ prec) (hx : x.form = .finite a) (hbits : a.bits ≤ prec)
    (hfinite : (x.withPrec prec).form = .finite b) : b.toRat = a.toRat := by
  rcases withPrec_form hprec hx with ⟨-, hsame⟩ | hrounds
  · cases hsame.symm.trans hfinite
    rfl
  · rw [hfinite] at hrounds
    cases hrounds with
    | inside hpos _ _ hnear hvalue _ =>
      exact toRat_eq_of_isNearest hpos rfl (Magnitude.bits_le_iff.mp hbits) hnear hvalue

/-- If no product leaves the range, the power has no more errors than the exponent says. -/
theorem exists_squarings_bounds
    (hwide : 1 ≤ wide) (hbase : base.form = .finite b) (hbits : b.bits ≤ wide) (hn : n ≠ 0)
    (hproducts : ∀ x y, Multiplies wide n ⟨one wide, base.abs.withPrec wide⟩ x y →
      FiniteProduct wide x y) :
    ∃ last a, squarings wide n ⟨one wide, base.abs.withPrec wide⟩ = .ok last ∧
      last.acc.form = .finite a ∧ minExp ≤ a.top ∧
        (1 - roundoff wide) ^ n * b.toRat ^ n ≤ a.toRat ∧
          a.toRat ≤ (1 + roundoff wide) ^ n * b.toRat ^ n := by
  have hstart : Near wide 0 (b.toRat ^ 1) (base.abs.withPrec wide).form := by
    obtain ⟨x, hx⟩ := exists_multiplies_square hn
    obtain ⟨-, m, hm⟩ := (hproducts _ _ hx).factors
    have habs : base.abs.form = .finite b := hbase
    exact ⟨m, hm, by simp [toRat_eq_of_withPrec hwide habs hbits hm]⟩
  obtain ⟨last, hlast, a, ha, hlow, hhigh⟩ := near_squarings hwide b.toRat_pos
    (fun _ x y _ _ hon => Or.inl (hproducts x y hon)) 0 1 le_rfl (show 0 + 1 * n = n by omega)
    ⟨.one, rfl, by simp⟩ fun _ => hstart
  have hrange := acc_of_squarings (P := fun x => x.form.InRange) (Q := fun _ => True)
    (fun _ _ _ _ _ => inRange_mul hwide) (fun _ _ _ _ => trivial) n (inRange_one wide) trivial hlast
  exact ⟨last, a, hlast, ha, (hrange a ha).1, hlow, hhigh⟩

theorem le_guarded (hmax : prec ≤ maxPrec) : prec ≤ clampPrec (prec + powGuardBits) :=
  le_min (Nat.le_add_right _ _) hmax

/-- The error of an integer power of a base of at most `prec` bits.  If no product on the way leaves the
range, the power before the last rounding is known up to as many factors as the exponent says; if the
quotient does not leave it either, so is the inverse.  The last rounding adds one factor, and makes the
power infinite only at the very end of the range. -/
theorem powInteger_error_bounds
    (hmax : prec ≤ maxPrec) (hbase : base.form = .finite b) (hbits : b.bits ≤ prec) (hn : n ≠ 0)
    (negative : Bool) :
    let wide := clampPrec (prec + powGuardBits)
    let u := roundoff wide
    let start : Squaring := ⟨one wide, base.abs.withPrec wide⟩
    (∀ x y, Multiplies wide n start x y → FiniteProduct wide x y) →
      ∃ last a, squarings wide n start = .ok last ∧ last.acc.form = .finite a ∧
        (1 - u) ^ n * b.toRat ^ n ≤ a.toRat ∧ a.toRat ≤ (1 + u) ^ n * b.toRat ^ n ∧
        (∃ z, powInteger prec base false n negative = .ok z ∧
          Narrowed prec ((1 - u) ^ n * b.toRat ^ n) ((1 + u) ^ n * b.toRat ^ n) a z.form) ∧
        ∀ c d, div wide (one wide) last.acc = .ok c → c.form = .finite d →
          ∃ z, powInteger prec base true n negative = .ok z ∧
            Narrowed prec ((1 - u) / (1 + u) ^ n * (b.toRat ^ n)⁻¹)
              ((1 + u) / (1 - u) ^ n * (b.toRat ^ n)⁻¹) d z.form := by
  intro wide u start hproducts
  have hprec : 1 ≤ prec := le_trans (Nat.succ_pos _) hbits
  have hwide : 1 ≤ wide := one_le_guarded prec
  have hu : 0 < u := roundoff_pos wide
  have hhalf : u ≤ 1 / 2 := roundoff_le_half hwide
  have hside : 0 < 1 - u := by linarith
  have hpower : 0 < b.toRat ^ n := pow_pos b.toRat_pos n
  obtain ⟨last, a, hlast, ha, hmin, hlow, hhigh⟩ :=
    exists_squarings_bounds hwide hbase (hbits.trans (le_guarded hmax)) hn hproducts
  refine ⟨last, a, hlast, ha, hlow, hhigh, ?_, ?_⟩
  · have hw : powWide wide base false n = .ok last.acc := by
      rw [powWide, hlast]
      rfl
    obtain ⟨z, hz, hform⟩ := exists_powInteger_of_powWide negative hw
    refine ⟨z, hz, ?_⟩
    rw [hform]
    exact narrowed_withPrec hprec ha hmin (by positivity) hlow hhigh
  · intro c d hdiv hd
    have hw : powWide wide base true n = .ok c := by
      rw [powWide, hlast]
      exact hdiv
    obtain ⟨z, hz, hform⟩ := exists_powInteger_of_powWide negative hw
    refine ⟨z, hz, ?_⟩
    obtain ⟨hdmin, hdlow, hdhigh⟩ := one_div_bounds hwide ha hdiv hd (by positivity) hlow hhigh
    rw [mul_inv, ← mul_assoc, ← div_eq_mul_inv] at hdlow hdhigh
    rw [hform]
    exact narrowed_withPrec hprec hd hdmin (by positivity) hdlow hdhigh

/-- A square takes two products: the base by itself, and one by the square. -/
theorem Multiplies.of_two
    (h : Multiplies prec 2 s x y) :
    x = s.square ∧ y = s.square ∨ x = s.acc ∧ mul prec s.square s.square = .ok y := by
  cases h with
  | square => exact Or.inl ⟨rfl, rfl⟩
  | product hbit => omega
  | later _ hacc hsquare h =>
    cases hacc
    cases h with
    | product => exact Or.inr ⟨rfl, hsquare⟩
    | square hmore => exact absurd rfl hmore
    | later _ _ _ h =>
      cases h with
      | product hbit => omega
      | square hmore => exact absurd rfl hmore
      | later hn => exact absurd rfl hn

/-- The square of three at two bits, and its inverse. -/
theorem powInteger_error_bounds_of_three :
    let three : Binary := ⟨2, false, .finite ⟨3, 0, rfl⟩⟩
    let start : Squaring := ⟨one 66, three.abs.withPrec 66⟩
    (∀ x y, Multiplies 66 2 start x y → FiniteProduct 66 x y) ∧
      (∃ z a, powInteger 2 three false 2 false = .ok z ∧
        Narrowed 2 ((1 - roundoff 66) ^ 2 * 3 ^ 2) ((1 + roundoff 66) ^ 2 * 3 ^ 2) a z.form) ∧
      ∃ z d, powInteger 2 three true 2 false = .ok z ∧
        Narrowed 2 ((1 - roundoff 66) / (1 + roundoff 66) ^ 2 * (3 ^ 2)⁻¹)
          ((1 + roundoff 66) / (1 - roundoff 66) ^ 2 * (3 ^ 2)⁻¹) d z.form := by
  intro three start
  let nine : Binary := ⟨66, false, .finite ⟨9, 0, rfl⟩⟩
  let ninth : Binary := ⟨66, false, .finite ⟨65588423373189516857, -69, rfl⟩⟩
  have hsquare : mul 66 start.square start.square = .ok nine := by decide +kernel
  have hproduct : mul 66 start.acc nine = .ok nine := by decide +kernel
  have hdiv : div 66 (one 66) nine = .ok ninth := by decide +kernel
  have hrun : squarings 66 2 start = .ok ⟨nine, nine⟩ := by
    rw [squarings_step 66 (by decide), if_neg (by decide), if_neg (by decide), hsquare]
    show squarings 66 1 ⟨start.acc, nine⟩ = _
    rw [squarings_step 66 (by decide), if_pos (by decide), if_pos (by decide), hproduct]
    show squarings 66 0 ⟨nine, nine⟩ = _
    rw [squarings, dif_pos rfl]
  have hproducts : ∀ x y, Multiplies 66 2 start x y → FiniteProduct 66 x y := by
    intro x y h
    rcases h.of_two with ⟨rfl, rfl⟩ | ⟨rfl, hy⟩
    · exact ⟨nine, _, hsquare, rfl⟩
    · cases hsquare.symm.trans hy
      exact ⟨nine, _, hproduct, rfl⟩
  have hthree : Magnitude.toRat ⟨3, 0, rfl⟩ = 3 := by simp [Magnitude.toRat]
  obtain ⟨last, a, hlast, -, -, -, ⟨z, hz, hpower⟩, hinverse⟩ :=
    powInteger_error_bounds (show 2 ≤ maxPrec by decide) (show three.form = .finite _ from rfl)
      (by decide) (two_ne_zero : 2 ≠ 0) false hproducts
  cases hrun.symm.trans hlast
  obtain ⟨z', hz', hinverse⟩ := hinverse ninth _ hdiv rfl
  rw [hthree] at hpower hinverse
  exact ⟨hproducts, ⟨z, a, hz, hpower⟩, z', _, hz', hinverse⟩

/-- Rounding to eight bits carries a square that is just inside the range past its end. -/
theorem powInteger_infinite_of_finite_products :
    let b : Magnitude := ⟨181, 1073741816, rfl⟩
    let base : Binary := ⟨8, false, .finite b⟩
    let start : Squaring := ⟨one 72, base.abs.withPrec 72⟩
    clampPrec (8 + powGuardBits) = 72 ∧ b.bits ≤ 8 ∧
      (∀ x y, Multiplies 72 2 start x y → FiniteProduct 72 x y) ∧
        ¬ ∃ z y, powInteger 8 base false 2 false = .ok z ∧ z.form = .finite y ∧
          (1 - roundoff 8) * ((1 - roundoff 72) ^ 2 * b.toRat ^ 2) ≤ y.toRat ∧
            y.toRat ≤ (1 + roundoff 8) * ((1 + roundoff 72) ^ 2 * b.toRat ^ 2) := by
  intro b base start
  let square : Binary := ⟨72, false, .finite ⟨32761, 2147483632, rfl⟩⟩
  have hsquare : mul 72 start.square start.square = .ok square := by decide +kernel
  have hinfinite : powInteger 8 base false 2 false = .ok (infinity 8 false) := by decide +kernel
  refine ⟨rfl, by decide, ?_, ?_⟩
  · intro x y h
    rcases h.of_two with ⟨rfl, rfl⟩ | ⟨rfl, hy⟩
    · exact ⟨square, _, hsquare, rfl⟩
    · cases hsquare.symm.trans hy
      exact ⟨square, _, by decide +kernel, rfl⟩
  · rintro ⟨z, y, hz, hy, -, -⟩
    cases hinfinite.symm.trans hz
    cases hy

end Binary
end Reckon
