import Reckon.Binary.Basic
import Reckon.Proofs.Rounding.Nearest

/-!
# Correct rounding

A number without its sign stands for a rational number unless it is infinite.  `Rounds prec q f` says
that `f` is what the rational number `q` is rounded to: the nearest number of `prec` bits, zero if the
binary exponent of `q` is below the range, and infinity if it is above or if rounding carries past it.

`rounds_ofRatio` is the one place where the computation is opened.  What else is said of rounded
numbers (they fit their precision, and a number that fits is not changed) follows from the relation.
-/

namespace Reckon

open Rounding

/-! ## The numbers that are stood for -/

theorem Rounding.pow_trailingZeros_dvd (m : ℕ) (hm : 0 < m) : 2 ^ trailingZeros m ∣ m := by
  induction m using Nat.strongRecOn with
  | ind m ih =>
    rcases Nat.even_or_odd' m with ⟨a, rfl | rfl⟩
    · have ha : 0 < a := by omega
      rw [trailingZeros_double a ha, pow_succ']
      exact Nat.mul_dvd_mul_left 2 (ih a (by omega) ha)
    · rw [trailingZeros_odd, pow_zero]
      exact one_dvd _

namespace Magnitude

/-- The number that a magnitude stands for. -/
def toRat (x : Magnitude) : ℚ :=
  x.mant * 2 ^ x.exp

theorem mant_pos (x : Magnitude) : 0 < x.mant := by
  have := x.odd
  omega

theorem toRat_pos (x : Magnitude) : 0 < x.toRat := by
  have hmant : (0 : ℚ) < x.mant := by exact_mod_cast x.mant_pos
  unfold toRat
  positivity

@[simp] theorem toRat_one : one.toRat = 1 := by
  simp [toRat, one]

theorem top_eq_log (x : Magnitude) : x.top = Int.log 2 x.toRat + 1 := by
  have hmant : (0 : ℚ) < x.mant := by exact_mod_cast x.mant_pos
  rw [toRat, log_mul_zpow hmant, log_natCast x.mant_pos, top, bits]
  push_cast
  ring

theorem toRat_ofScaled {m : ℕ} (hm : 0 < m) (e : ℤ) : (ofScaled m e hm).toRat = m * 2 ^ e := by
  have hmant : ((m >>> trailingZeros m : ℕ) : ℚ) * 2 ^ trailingZeros m = m := by
    rw [Nat.shiftRight_eq_div_pow]
    exact_mod_cast Nat.div_mul_cancel (pow_trailingZeros_dvd m hm)
  calc ((m >>> trailingZeros m : ℕ) : ℚ) * 2 ^ (e + trailingZeros m)
      = (m >>> trailingZeros m : ℕ) * 2 ^ trailingZeros m * 2 ^ e := by
        rw [zpow_add₀ (by norm_num), zpow_natCast]
        ring
    _ = m * 2 ^ e := by rw [hmant]

/-- No scaled integer that is equal to a magnitude has a smaller mantissa. -/
theorem mant_le_of_toRat_eq
    {x : Magnitude} {m : ℕ} {e : ℤ} (h : x.toRat = m * 2 ^ e) : x.mant ≤ m := by
  rcases le_or_gt e x.exp with hle | hlt
  · rw [← mul_pow_eq_of_zpow h hle]
    exact Nat.le_mul_of_pos_right _ (by positivity)
  · -- The odd mantissa would be a multiple of two.
    have hmant := mul_pow_eq_of_zpow h.symm hlt.le
    obtain ⟨k, hk⟩ : ∃ k, (e - x.exp).toNat = k + 1 := ⟨(e - x.exp).toNat - 1, by omega⟩
    rw [hk, pow_succ, ← mul_assoc] at hmant
    have := x.odd
    omega

theorem bits_le_iff {x : Magnitude} {prec : ℕ} : x.bits ≤ prec ↔ x.mant < 2 ^ prec := by
  rw [← Nat.log2_lt x.mant_pos.ne', bits, Nat.succ_le_iff]

end Magnitude

/-- The number that a form stands for; infinity stands for none. -/
def Form.toRat? : Form → Option ℚ
  | .zero => some 0
  | .finite x => some x.toRat
  | .infinite => none

/-- A rational number with a sign put in front of it. -/
def withSign (negative : Bool) (q : ℚ) : ℚ :=
  if negative then -q else q

/-- The number that a number with a sign stands for. -/
def Binary.toRat? (x : Binary) : Option ℚ :=
  x.form.toRat?.map (withSign x.negative)

/-! ## Rounding -/

namespace Form

/-- The binary exponent of a positive number: the exponent `t` with `2 ^ (t - 1) ≤ q < 2 ^ t`. -/
def exponent (q : ℚ) : ℤ :=
  Int.log 2 q + 1

/-- The unit in the last of `prec` bits of a positive number. -/
def lastUnit (prec : ℕ) (q : ℚ) : ℚ :=
  2 ^ (exponent q - prec)

/-- `f` is the number that `q` is rounded to. -/
inductive Rounds (prec : ℕ) (q : ℚ) : Form → Prop
  | zero (hzero : q = 0) : Rounds prec q .zero
  | below (hpos : 0 < q) (hmin : exponent q < minExp) : Rounds prec q .zero
  | above (hpos : 0 < q) (hmax : maxExp < exponent q) : Rounds prec q .infinite
  | inside {n : ℕ} {x : Magnitude} (hpos : 0 < q) (hmin : minExp ≤ exponent q)
      (hmax : exponent q ≤ maxExp) (hnear : IsNearest (q / lastUnit prec q) n)
      (hvalue : x.toRat = n * lastUnit prec q) (htop : x.top ≤ maxExp) : Rounds prec q (.finite x)
  | carried {n : ℕ} {x : Magnitude} (hpos : 0 < q) (hmin : minExp ≤ exponent q)
      (hmax : exponent q ≤ maxExp) (hnear : IsNearest (q / lastUnit prec q) n)
      (hvalue : x.toRat = n * lastUnit prec q) (htop : maxExp < x.top) : Rounds prec q .infinite

variable {prec n : ℕ} {q : ℚ}

theorem lastUnit_pos (prec : ℕ) (q : ℚ) : 0 < lastUnit prec q := by
  unfold lastUnit
  positivity

theorem pow_mul_lastUnit (prec : ℕ) (q : ℚ) :
    ((2 ^ prec : ℕ) : ℚ) * lastUnit prec q = 2 ^ (Int.log 2 q + 1) := by
  push_cast
  rw [← zpow_natCast, lastUnit, ← zpow_add₀ (by norm_num), add_sub_cancel, exponent]

theorem pow_pred_mul_lastUnit (hprec : 1 ≤ prec) (q : ℚ) :
    ((2 ^ (prec - 1) : ℕ) : ℚ) * lastUnit prec q = 2 ^ Int.log 2 q := by
  push_cast
  rw [← zpow_natCast, lastUnit, ← zpow_add₀ (by norm_num), exponent]
  congr 1
  omega

/-- A rounded mantissa has all its bits, and may carry to the next power of two. -/
theorem bounds_of_isNearest
    (hprec : 1 ≤ prec) (hq : 0 < q) (h : IsNearest (q / lastUnit prec q) n) :
    2 ^ (prec - 1) ≤ n ∧ n ≤ 2 ^ prec := by
  obtain ⟨hle, hlt⟩ := zpow_log_le_and_lt hq
  have hunit := lastUnit_pos prec q
  constructor
  · apply h.le_of_le
    rwa [le_div_iff₀ hunit, pow_pred_mul_lastUnit hprec]
  · apply h.ge_of_ge
    rw [div_le_iff₀ hunit, pow_mul_lastUnit]
    exact hlt.le

theorem rounds_saturate
    (hpos : 0 < q) (hmin : minExp ≤ exponent q) (hmax : exponent q ≤ maxExp)
    (hnear : IsNearest (q / lastUnit prec q) n) {x : Magnitude}
    (hvalue : x.toRat = n * lastUnit prec q) : Rounds prec q (saturate (.finite x)) := by
  by_cases htop : x.top > maxExp
  · simp only [saturate, if_pos htop]
    exact .carried hpos hmin hmax hnear hvalue htop
  · simp only [saturate, if_neg htop]
    exact .inside hpos hmin hmax hnear hvalue (not_lt.mp htop)

/-- A scaled integer is a multiple of the last unit if its own unit is not smaller. -/
theorem exists_eq_mul_lastUnit
    {m : ℕ} {e : ℤ} (hvalue : q = m * 2 ^ e) (hunit : exponent q - prec ≤ e) :
    ∃ k : ℕ, q = k * lastUnit prec q := by
  refine ⟨m * 2 ^ (e - (exponent q - prec)).toNat, ?_⟩
  rw [lastUnit]
  push_cast
  rw [← zpow_natCast, Int.toNat_of_nonneg (sub_nonneg.mpr hunit), mul_assoc,
    ← zpow_add₀ (by norm_num), sub_add_cancel, ← hvalue]

/-- A number in range that is a multiple of its last unit is rounded to itself. -/
theorem rounds_self
    {x : Magnitude} (hmin : minExp ≤ x.top) (hmax : x.top ≤ maxExp)
    {k : ℕ} (hk : x.toRat = k * lastUnit prec x.toRat) : Rounds prec x.toRat (.finite x) := by
  have hexponent : exponent x.toRat = x.top := x.top_eq_log.symm
  refine .inside x.toRat_pos (hexponent ▸ hmin) (hexponent ▸ hmax) ?_ hk hmax
  rw [(div_eq_iff (lastUnit_pos prec x.toRat).ne').mpr hk]
  exact IsNearest.natCast _

theorem ofScaled_of_pos {m : ℕ} (hm : 0 < m) (e : ℤ) :
    ofScaled m e = .finite (Magnitude.ofScaled m e hm) :=
  dif_pos hm

/-- The computed rounding of a scaled quotient is correct. -/
theorem rounds_ofRatio
    (hprec : 1 ≤ prec) (num : ℕ) {den : ℕ} (hden : 0 < den) (e : ℤ)
    (hq : q = num / den * 2 ^ e) : Rounds prec q (ofRatio prec num den e) := by
  unfold ofRatio
  by_cases hnum : num = 0
  · rw [if_pos hnum]
    apply Rounds.zero
    simp [hq, hnum]
  rw [if_neg hnum]
  have hnum' : (0 : ℚ) < num := by exact_mod_cast Nat.pos_of_ne_zero hnum
  have hden' : (0 : ℚ) < den := by exact_mod_cast hden
  have hratio : (0 : ℚ) < num / den := by positivity
  have hpos : 0 < q := by
    rw [hq]
    positivity
  have hexponent : floorLog num den + e + 1 = exponent q := by
    rw [exponent, hq, log_mul_zpow hratio, floorLog_eq_log (Nat.pos_of_ne_zero hnum) hden]
  simp only [hexponent]
  by_cases hmin : exponent q < minExp
  · rw [if_pos hmin]
    exact .below hpos hmin
  rw [if_neg hmin]
  by_cases hmax : exponent q > maxExp
  · rw [if_pos hmax]
    exact .above hpos hmax
  rw [if_neg hmax]
  rw [not_lt] at hmin hmax
  by_cases hexact : den = 1 ∧ exponent q - prec ≤ e
  · rw [if_pos (by simpa using hexact), ofScaled_of_pos (Nat.pos_of_ne_zero hnum)]
    have hvalue := Magnitude.toRat_ofScaled (Nat.pos_of_ne_zero hnum) e
    have hself : (Magnitude.ofScaled num e (Nat.pos_of_ne_zero hnum)).toRat = q := by
      rw [hvalue, hq, hexact.1, Nat.cast_one, div_one]
    have htop : (Magnitude.ofScaled num e (Nat.pos_of_ne_zero hnum)).top = exponent q := by
      rw [Magnitude.top_eq_log, hself, exponent]
    rw [← hself] at hexact
    obtain ⟨k, hk⟩ := exists_eq_mul_lastUnit hvalue hexact.2
    rw [← hself]
    exact rounds_self (htop ▸ hmin) (htop ▸ hmax) hk
  · rw [if_neg (by simpa using hexact)]
    have hnear : IsNearest (q / lastUnit prec q) (inUnits num den (exponent q - prec - e)) := by
      have h := isNearest_inUnits num hden (exponent q - prec - e)
      rwa [zpow_sub₀ (by norm_num), ← div_mul, div_mul_eq_mul_div, ← hq] at h
    have hn : 0 < inUnits num den (exponent q - prec - e) :=
      lt_of_lt_of_le (by positivity) (bounds_of_isNearest hprec hpos hnear).1
    rw [ofScaled_of_pos hn]
    exact rounds_saturate hpos hmin hmax hnear (Magnitude.toRat_ofScaled hn _)

/-! ## What rounding keeps -/

/-- A rounded number lies between the powers of two around the exact one, both included. -/
theorem zpow_le_mul_lastUnit
    (hprec : 1 ≤ prec) (hq : 0 < q) (h : IsNearest (q / lastUnit prec q) n) :
    (2 : ℚ) ^ Int.log 2 q ≤ n * lastUnit prec q ∧
      n * lastUnit prec q ≤ 2 ^ (Int.log 2 q + 1) := by
  obtain ⟨hlow, hhigh⟩ := bounds_of_isNearest hprec hq h
  have hunit := lastUnit_pos prec q
  rw [← pow_pred_mul_lastUnit hprec, ← pow_mul_lastUnit prec]
  constructor
  · gcongr
  · gcongr

namespace Rounds

variable {f : Form} {x : Magnitude}

theorem bits_le (hprec : 1 ≤ prec) (h : Rounds prec q (.finite x)) : x.bits ≤ prec := by
  cases h with
  | @inside n _ hpos _ _ hnear hvalue _ =>
    rw [Magnitude.bits_le_iff]
    rcases (bounds_of_isNearest hprec hpos hnear).2.lt_or_eq with hlt | rfl
    · exact lt_of_le_of_lt (Magnitude.mant_le_of_toRat_eq hvalue) hlt
    · -- A carry leaves a power of two, which has one significant bit.
      have hpower : x.toRat = (1 : ℕ) * 2 ^ (Int.log 2 q + 1) := by
        rw [hvalue, pow_mul_lastUnit, Nat.cast_one, one_mul]
      exact lt_of_le_of_lt (Magnitude.mant_le_of_toRat_eq hpower) (Nat.one_lt_two_pow (by omega))

/-- A rounded number has its exponent in the range. -/
theorem top_bounds
    (hprec : 1 ≤ prec) (h : Rounds prec q (.finite x)) : minExp ≤ x.top ∧ x.top ≤ maxExp := by
  cases h with
  | inside hpos hmin _ hnear hvalue htop =>
    refine ⟨hmin.trans ?_, htop⟩
    have hle := (zpow_le_mul_lastUnit hprec hpos hnear).1
    rw [← hvalue, zpow_le_iff x.toRat_pos] at hle
    rw [x.top_eq_log, exponent]
    omega

/-- Rounding does not go below a power of two in the range. -/
theorem zpow_le
    (hprec : 1 ≤ prec) (h : Rounds prec q f) {k : ℤ} (hk : 2 ^ k ≤ q) (hmin : minExp ≤ k + 1) :
    f = .infinite ∨ ∃ x, f = .finite x ∧ 2 ^ k ≤ x.toRat := by
  have hq : 0 < q := lt_of_lt_of_le (by positivity) hk
  have hlog := (zpow_le_iff hq k).mp hk
  cases h with
  | zero hzero => exact absurd hzero hq.ne'
  | below _ hbelow =>
    rw [exponent] at hbelow
    omega
  | above => exact Or.inl rfl
  | carried => exact Or.inl rfl
  | @inside n x _ _ _ hnear hvalue _ =>
    refine Or.inr ⟨x, rfl, ?_⟩
    rw [hvalue]
    exact (zpow_le_zpow_right₀ (by norm_num) hlog).trans (zpow_le_mul_lastUnit hprec hq hnear).1

theorem le_zpow
    (hprec : 1 ≤ prec) (h : Rounds prec q f) {k : ℤ} (hk : q ≤ 2 ^ k) (hmax : k < maxExp) :
    f = .zero ∨ ∃ x, f = .finite x ∧ x.toRat ≤ 2 ^ k := by
  have hrounded {n : ℕ} (hq : 0 < q) (hnear : IsNearest (q / lastUnit prec q) n) :
      n * lastUnit prec q ≤ 2 ^ k := by
    have hunit := lastUnit_pos prec q
    rcases hk.lt_or_eq with hlt | rfl
    · have hlog := (lt_zpow_iff hq k).mp hlt
      exact (zpow_le_mul_lastUnit hprec hq hnear).2.trans (zpow_le_zpow_right₀ (by norm_num) hlog)
    · -- The power itself is a multiple of its last unit, and the nearest integer stays below it.
      have hlog := log_le_of_le_zpow hq le_rfl
      have hn : n ≤ 2 ^ (prec - 1) := by
        apply hnear.ge_of_ge
        rw [div_le_iff₀ hunit, pow_pred_mul_lastUnit hprec]
        exact zpow_le_zpow_right₀ (by norm_num) ((zpow_le_iff hq k).mp le_rfl)
      calc (n : ℚ) * lastUnit prec (2 ^ k) ≤ (2 ^ (prec - 1) : ℕ) * lastUnit prec (2 ^ k) := by
            gcongr
        _ = 2 ^ Int.log 2 ((2 : ℚ) ^ k) := pow_pred_mul_lastUnit hprec _
        _ ≤ 2 ^ k := zpow_le_zpow_right₀ (by norm_num) hlog
  cases h with
  | zero => exact Or.inl rfl
  | below => exact Or.inl rfl
  | above hq habove =>
    have := log_le_of_le_zpow hq hk
    rw [exponent] at habove
    omega
  | @inside n x hq _ _ hnear hvalue _ =>
    exact Or.inr ⟨x, rfl, hvalue ▸ hrounded hq hnear⟩
  | @carried n x hq _ _ hnear hvalue htop =>
    have hle : x.toRat ≤ 2 ^ k := hvalue ▸ hrounded hq hnear
    have := log_le_of_le_zpow x.toRat_pos hle
    rw [x.top_eq_log] at htop
    omega

end Rounds

/-! ## Numbers that need no rounding -/

/-- Zero, or a number with at most `prec` significant bits whose binary exponent is in the range. -/
def Fits (prec : ℕ) (q : ℚ) : Prop :=
  q = 0 ∨ (∃ (m : ℕ) (e : ℤ), |q| = m * 2 ^ e ∧ m < 2 ^ prec) ∧
    ∃ t : ℤ, minExp ≤ t ∧ t ≤ maxExp ∧ 2 ^ (t - 1) ≤ |q| ∧ |q| < 2 ^ t

theorem exponent_sub_le
    {m : ℕ} {e : ℤ} (hq : 0 < q) (hvalue : q = m * 2 ^ e) (hm : m < 2 ^ prec) :
    exponent q - prec ≤ e := by
  have hlt : q < 2 ^ ((prec : ℤ) + e) := by
    rw [zpow_add₀ (by norm_num), zpow_natCast, hvalue]
    have : (m : ℚ) < 2 ^ prec := by exact_mod_cast hm
    gcongr
  have := (lt_zpow_iff hq _).mp hlt
  rw [exponent]
  omega

/-- The nearest number of `prec` bits to a number with at most that many is the number itself. -/
theorem toRat_eq_of_isNearest
    {m : ℕ} {e : ℤ} {x : Magnitude} (hq : 0 < q) (hvalue : q = m * 2 ^ e) (hm : m < 2 ^ prec)
    (hnear : IsNearest (q / lastUnit prec q) n) (hx : x.toRat = n * lastUnit prec q) :
    x.toRat = q := by
  obtain ⟨k, hk⟩ := exists_eq_mul_lastUnit hvalue (exponent_sub_le hq hvalue hm)
  rw [(div_eq_iff (lastUnit_pos prec q).ne').mpr hk] at hnear
  rw [hx, hnear.eq_of_natCast, ← hk]

/-- A number that fits is rounded to itself. -/
theorem Rounds.toRat?_eq
    {f : Form} (h : Rounds prec |q| f) (hfits : Fits prec q) : f.toRat? = some |q| := by
  rcases hfits with rfl | ⟨⟨m, e, hvalue, hm⟩, t, hmin, hmax, hle, hlt⟩
  · cases h with
    | zero => simp [toRat?]
    | below hpos | above hpos | inside hpos | carried hpos => simp at hpos
  have hpos : 0 < |q| := lt_of_lt_of_le (by positivity) hle
  have hexponent : exponent |q| = t := by
    rw [exponent, log_eq_of_zpow_le_of_lt hle (by rwa [sub_add_cancel]), sub_add_cancel]
  cases h with
  | zero hzero => exact absurd hzero hpos.ne'
  | below _ hbelow => omega
  | above _ habove => omega
  | inside _ _ _ hnear hx _ => rw [toRat?, toRat_eq_of_isNearest hpos hvalue hm hnear hx]
  | @carried n x _ _ _ hnear hx htop =>
    rw [x.top_eq_log, toRat_eq_of_isNearest hpos hvalue hm hnear hx] at htop
    rw [exponent] at hexponent
    omega

theorem Fits.mono {wide : ℕ} (h : Fits prec q) (hle : prec ≤ wide) : Fits wide q := by
  refine h.imp_right fun ⟨⟨m, e, hvalue, hm⟩, hrange⟩ => ⟨⟨m, e, hvalue, ?_⟩, hrange⟩
  exact lt_of_lt_of_le hm (Nat.pow_le_pow_right two_pos hle)

/-- A positive number fits if it has few significant bits and lies in the range of exponents. -/
theorem fits_of_mem_range
    {m : ℕ} {e : ℤ} (hvalue : q = m * 2 ^ e) (hm : m < 2 ^ prec) (hlow : 2 ^ (minExp - 1) ≤ q)
    (hhigh : q < 2 ^ maxExp) : Fits prec q := by
  have hpos : 0 < q := lt_of_lt_of_le (by positivity) hlow
  have hmin := (zpow_le_iff hpos _).mp hlow
  have hmax := (lt_zpow_iff hpos _).mp hhigh
  obtain ⟨hle, hlt⟩ := zpow_log_le_and_lt hpos
  refine Or.inr ⟨⟨m, e, ?_, hm⟩, Int.log 2 q + 1, by omega, by omega, ?_⟩
  · rw [abs_of_pos hpos, hvalue]
  · rw [abs_of_pos hpos, add_sub_cancel_right]
    exact ⟨hle, hlt⟩

theorem Fits.rounds {x : Magnitude} (h : Fits prec x.toRat) : Rounds prec x.toRat (.finite x) := by
  rcases h with hzero | ⟨⟨m, e, hvalue, hm⟩, t, hmin, hmax, hle, hlt⟩
  · exact absurd hzero x.toRat_pos.ne'
  rw [abs_of_pos x.toRat_pos] at hvalue hle hlt
  have htop : x.top = t := by
    rw [x.top_eq_log, log_eq_of_zpow_le_of_lt hle (by rwa [sub_add_cancel]), sub_add_cancel]
  obtain ⟨k, hk⟩ := exists_eq_mul_lastUnit hvalue (exponent_sub_le x.toRat_pos hvalue hm)
  exact rounds_self (htop ▸ hmin) (htop ▸ hmax) hk

/-- A positive number that fits is rounded to a finite number. -/
theorem Rounds.eq_of_fits
    {f : Form} (h : Rounds prec q f) (hq : 0 < q) (hfits : Fits prec q) :
    ∃ x, f = .finite x ∧ x.toRat = q := by
  rw [← abs_of_pos hq] at h
  have hvalue := h.toRat?_eq hfits
  rw [abs_of_pos hq] at hvalue
  cases f with
  | zero => exact absurd (Option.some.inj hvalue) hq.ne
  | finite x => exact ⟨x, rfl, Option.some.inj hvalue⟩
  | infinite => cases hvalue

end Form
end Reckon
