import Mathlib.Algebra.Order.Field.Power
import Mathlib.Data.Int.Log
import Mathlib.Data.Rat.Floor
import Mathlib.Tactic.FieldSimp
import Mathlib.Tactic.Linarith
import Mathlib.Tactic.Positivity
import Mathlib.Tactic.Ring
import Reckon.Rounding

/-!
# The rule of rounding over the rational numbers

The three functions of the rule work on quotients of natural numbers.  Here each is tied to the
rational number that the quotient stands for: `floorLog` is the integer logarithm to base two, and
`nearest` and `inUnits` give the nearest integer, the even one where two are equally near.

A nearest integer does not pass an integer bound.  This is all that the bounds on rounded numbers
rest on.
-/

namespace Reckon
namespace Rounding

variable {q : ℚ} {n k : ℕ}

/-! ## Powers of two -/

theorem zpow_le_iff (hq : 0 < q) (e : ℤ) : (2 : ℚ) ^ e ≤ q ↔ e ≤ Int.log 2 q := by
  simpa using Int.zpow_le_iff_le_log (b := 2) (by norm_num) hq (x := e)

theorem lt_zpow_iff (hq : 0 < q) (e : ℤ) : q < (2 : ℚ) ^ e ↔ Int.log 2 q < e := by
  simpa using Int.lt_zpow_iff_log_lt (b := 2) (by norm_num) hq (x := e)

theorem zpow_log_le_and_lt (hq : 0 < q) :
    (2 : ℚ) ^ Int.log 2 q ≤ q ∧ q < 2 ^ (Int.log 2 q + 1) :=
  ⟨(zpow_le_iff hq _).mpr le_rfl, (lt_zpow_iff hq _).mpr (lt_add_one _)⟩

theorem log_le_of_le_zpow (hq : 0 < q) {e : ℤ} (h : q ≤ 2 ^ e) : Int.log 2 q ≤ e := by
  have hlt : q < (2 : ℚ) ^ (e + 1) := lt_of_le_of_lt h (zpow_lt_zpow_right₀ (by norm_num) (by omega))
  have := (lt_zpow_iff hq (e + 1)).mp hlt
  omega

theorem log_eq_of_zpow_le_of_lt
    {e : ℤ} (hle : (2 : ℚ) ^ e ≤ q) (hlt : q < 2 ^ (e + 1)) : Int.log 2 q = e := by
  have hq : 0 < q := lt_of_lt_of_le (by positivity) hle
  have hge := (zpow_le_iff hq e).mp hle
  have hle := (lt_zpow_iff hq (e + 1)).mp hlt
  omega

/-- The power of two that bounds a natural number from below is that of its logarithm. -/
theorem log_natCast {m : ℕ} (hm : 0 < m) : Int.log 2 (m : ℚ) = m.log2 := by
  apply log_eq_of_zpow_le_of_lt
  · exact_mod_cast Nat.log2_self_le hm.ne'
  · exact_mod_cast Nat.lt_log2_self (n := m)

theorem log_mul_zpow (hq : 0 < q) (e : ℤ) : Int.log 2 (q * 2 ^ e) = Int.log 2 q + e := by
  obtain ⟨hle, hlt⟩ := zpow_log_le_and_lt hq
  have hpow : (0 : ℚ) < 2 ^ e := by positivity
  apply log_eq_of_zpow_le_of_lt
  · rw [zpow_add₀ (by norm_num)]
    exact mul_le_mul_of_nonneg_right hle hpow.le
  · rw [add_right_comm, zpow_add₀ (by norm_num)]
    exact mul_lt_mul_of_pos_right hlt hpow

/-- Of two equal scaled integers, the one with the smaller unit is a multiple of the other. -/
theorem mul_pow_eq_of_zpow
    {a b : ℕ} {i j : ℤ} (h : (a : ℚ) * 2 ^ i = b * 2 ^ j) (hle : j ≤ i) :
    a * 2 ^ (i - j).toNat = b := by
  have hsplit : (2 : ℚ) ^ i = 2 ^ (i - j).toNat * 2 ^ j := by
    rw [← zpow_natCast, Int.toNat_of_nonneg (sub_nonneg.mpr hle), ← zpow_add₀ (by norm_num),
      sub_add_cancel]
  rw [hsplit, ← mul_assoc] at h
  exact_mod_cast mul_right_cancel₀ (by positivity) h

/-! ## The leading bit of a quotient -/

theorem reached_iff (num : ℕ) {den : ℕ} (hden : 0 < den) (e : ℤ) :
    (match e with
      | .ofNat n => decide (den <<< n ≤ num)
      | .negSucc n => decide (den ≤ num <<< (n + 1))) = true ↔ (2 : ℚ) ^ e ≤ num / den := by
  have hden' : (0 : ℚ) < den := by exact_mod_cast hden
  rw [le_div_iff₀ hden']
  cases e with
  | ofNat n =>
    have hcast : (2 : ℚ) ^ (Int.ofNat n) * den = ((den * 2 ^ n : ℕ) : ℚ) := by
      push_cast
      rw [Int.ofNat_eq_natCast, zpow_natCast]
      ring
    simp only [decide_eq_true_eq, Nat.shiftLeft_eq, hcast, Nat.cast_le]
  | negSucc n =>
    have hpow : (0 : ℚ) < 2 ^ (n + 1) := by positivity
    have hcast : ((num * 2 ^ (n + 1) : ℕ) : ℚ) = num * 2 ^ (n + 1) := by push_cast; rfl
    simp only [decide_eq_true_eq, Nat.shiftLeft_eq, zpow_negSucc]
    rw [inv_mul_le_iff₀ hpow, mul_comm (2 ^ (n + 1) : ℚ), ← hcast, Nat.cast_le]

theorem floorLog_eq_log
    {num den : ℕ} (hnum : 0 < num) (hden : 0 < den) :
    floorLog num den = Int.log 2 (num / den : ℚ) := by
  have hnum' : (0 : ℚ) < num := by exact_mod_cast hnum
  have hden' : (0 : ℚ) < den := by exact_mod_cast hden
  have hq : (0 : ℚ) < num / den := by positivity
  obtain ⟨hnumle, hnumlt⟩ := zpow_log_le_and_lt hnum'
  obtain ⟨hdenle, hdenlt⟩ := zpow_log_le_and_lt hden'
  rw [log_natCast hnum] at hnumle hnumlt
  rw [log_natCast hden] at hdenle hdenlt
  -- The difference of the two lengths is the logarithm or one more.
  have hupper : (num / den : ℚ) < 2 ^ ((num.log2 : ℤ) - den.log2 + 1) := by
    rw [div_lt_iff₀ hden']
    calc (num : ℚ) < 2 ^ ((num.log2 : ℤ) + 1) := hnumlt
      _ = 2 ^ ((num.log2 : ℤ) - den.log2 + 1) * 2 ^ (den.log2 : ℤ) := by
        rw [← zpow_add₀ (by norm_num)]
        congr 1
        ring
      _ ≤ 2 ^ ((num.log2 : ℤ) - den.log2 + 1) * den := by gcongr
  have hlower : (2 : ℚ) ^ ((num.log2 : ℤ) - den.log2 - 1) ≤ num / den := by
    rw [le_div_iff₀ hden']
    calc (2 : ℚ) ^ ((num.log2 : ℤ) - den.log2 - 1) * den
        ≤ 2 ^ ((num.log2 : ℤ) - den.log2 - 1) * 2 ^ ((den.log2 : ℤ) + 1) := by gcongr
      _ = 2 ^ (num.log2 : ℤ) := by
        rw [← zpow_add₀ (by norm_num)]
        congr 1
        ring
      _ ≤ num := hnumle
  have hreached := reached_iff num hden ((num.log2 : ℤ) - den.log2)
  unfold floorLog
  by_cases h : (2 : ℚ) ^ ((num.log2 : ℤ) - den.log2) ≤ num / den
  · rw [log_eq_of_zpow_le_of_lt h hupper]
    exact if_pos (hreached.mpr h)
  · rw [not_le] at h
    rw [log_eq_of_zpow_le_of_lt hlower (by rwa [sub_add_cancel])]
    exact if_neg (mt hreached.mp (not_le.mpr h))

/-! ## The nearest integer -/

/-- `n` is an integer nearest to `q`, and an even one if there is another. -/
structure IsNearest (q : ℚ) (n : ℕ) : Prop where
  near : |q - n| ≤ 1 / 2
  even_of_tie : |q - n| = 1 / 2 → n % 2 = 0

theorem abs_div_sub_eq (num n : ℕ) {den : ℕ} (hden : 0 < den) :
    |(num / den : ℚ) - n| = ((2 * num - 2 * (den * n) : ℤ).natAbs : ℚ) / (2 * den) := by
  have hden' : (0 : ℚ) < den := by exact_mod_cast hden
  have hdiff : (num / den : ℚ) - n = ((2 * num - 2 * (den * n) : ℤ) : ℚ) / (2 * den) := by
    push_cast
    field_simp
  rw [hdiff, abs_div, abs_of_pos (by positivity : (0 : ℚ) < 2 * den), Nat.cast_natAbs, Int.cast_abs]

theorem isNearest_nearest (num : ℕ) {den : ℕ} (hden : 0 < den) :
    IsNearest (num / den) (nearest num den) := by
  have hden' : (0 : ℚ) < den := by exact_mod_cast hden
  have hhalf : (1 / 2 : ℚ) = den / (2 * den) := by field_simp
  have hsplit := Nat.div_add_mod num den
  have hrest := Nat.mod_lt num hden
  -- In these units the distance is twice the remainder, or what that lacks of twice the denominator.
  have hcases : (2 * num - 2 * (den * nearest num den) : ℤ).natAbs ≤ den ∧
      ((2 * num - 2 * (den * nearest num den) : ℤ).natAbs = den → nearest num den % 2 = 0) := by
    unfold nearest
    dsimp only
    split
    next h =>
      simp only [Bool.or_eq_true, Bool.and_eq_true, decide_eq_true_eq] at h
      have hcast : (den * (num / den : ℕ) : ℤ) = (den * (num / den) : ℕ) := by push_cast; rfl
      rw [hcast]
      omega
    next h =>
      simp only [Bool.or_eq_true, Bool.and_eq_true, decide_eq_true_eq] at h
      have hcast : (den * (num / den + 1 : ℕ) : ℤ) = (den * (num / den) : ℕ) + den := by
        push_cast
        ring
      rw [hcast]
      omega
  have hpos : (0 : ℚ) < 2 * den := by positivity
  constructor
  · rw [abs_div_sub_eq num _ hden, hhalf, div_le_div_iff_of_pos_right hpos]
    exact_mod_cast hcases.1
  · rw [abs_div_sub_eq num _ hden, hhalf, div_left_inj' hpos.ne']
    intro htie
    exact hcases.2 (by exact_mod_cast htie)

/-- Counting in units of a power of two is division by that power. -/
theorem isNearest_inUnits (num : ℕ) {den : ℕ} (hden : 0 < den) (unit : ℤ) :
    IsNearest (num / den / 2 ^ unit) (inUnits num den unit) := by
  cases unit with
  | ofNat n =>
    have hpos : 0 < den <<< n := by
      rw [Nat.shiftLeft_eq]
      positivity
    have h := isNearest_nearest num hpos
    have hcast : ((den <<< n : ℕ) : ℚ) = den * 2 ^ (Int.ofNat n) := by
      rw [Nat.shiftLeft_eq, Int.ofNat_eq_natCast, zpow_natCast]
      push_cast
      rfl
    rwa [hcast, ← div_div] at h
  | negSucc n =>
    have h := isNearest_nearest (num <<< (n + 1)) hden
    have hcast : ((num <<< (n + 1) : ℕ) : ℚ) = num * 2 ^ (n + 1) := by
      rw [Nat.shiftLeft_eq]
      push_cast
      rfl
    rwa [hcast, mul_div_right_comm, ← div_inv_eq_mul, ← zpow_negSucc] at h

namespace IsNearest

theorem natCast (k : ℕ) : IsNearest (k : ℚ) k := by
  constructor
  · norm_num
  · norm_num

theorem le_of_le (h : IsNearest q n) (hk : (k : ℚ) ≤ q) : k ≤ n := by
  have hnear := (abs_le.mp h.near).2
  have hlt : (k : ℚ) < n + 1 := by linarith
  exact Nat.lt_succ_iff.mp (by exact_mod_cast hlt)

theorem ge_of_ge (h : IsNearest q n) (hk : q ≤ k) : n ≤ k := by
  have hnear := (abs_le.mp h.near).1
  have hlt : (n : ℚ) < k + 1 := by linarith
  exact Nat.lt_succ_iff.mp (by exact_mod_cast hlt)

/-- An integer is nearest to itself only. -/
theorem eq_of_natCast (h : IsNearest (k : ℚ) n) : n = k :=
  le_antisymm (h.ge_of_ge le_rfl) (h.le_of_le le_rfl)

end IsNearest

end Rounding
end Reckon
