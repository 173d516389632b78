import Mathlib.Algebra.Ring.Int.Parity
import Reckon.Proofs.Binary.Precision
import Reckon.Proofs.Binary.Undefined

/-!
# The sign of a power

A power is negative exactly if its base is negative and its exponent is an odd integer.  Whether an
integer is odd is told from its representation: the mantissa is odd, so that the number is an odd
integer exactly if its binary exponent is the length of the mantissa.

Repeated squaring works on numbers without a sign.  The sign is put in front of its result, which by
then may have become zero or infinity.
-/

namespace Reckon

/-! ## Odd integers -/

theorem Magnitude.isOddInteger_iff (m : Magnitude) :
    m.isOddInteger = true ↔ ∃ n : ℕ, Odd n ∧ m.toRat = n := by
  have hrepresentation : m.isOddInteger = true ↔ m.exp = 0 := by simp [isOddInteger, top]
  rw [hrepresentation]
  constructor
  · intro hexp
    refine ⟨m.mant, Nat.odd_iff.mpr m.odd, ?_⟩
    simp [toRat, hexp]
  · rintro ⟨n, hodd, hn⟩
    have hexp : 0 ≤ m.exp := by simpa [isInteger] using m.isInteger_iff.mpr ⟨n, hn⟩
    have hmant : m.mant * 2 ^ m.exp.toNat = n := by
      have hscaled : (m.mant : ℚ) * 2 ^ m.exp = n * 2 ^ (0 : ℤ) := by simpa [toRat] using hn
      simpa using Rounding.mul_pow_eq_of_zpow hscaled hexp
    -- A factor of two would make the integer even.
    by_contra hne
    have heven : Even (m.mant * 2 ^ m.exp.toNat) :=
      (Nat.even_pow.mpr ⟨even_two, by omega⟩).mul_left _
    rw [hmant] at heven
    exact Nat.not_even_iff_odd.mpr hodd heven

namespace Binary

variable {prec : ℕ} {x y z : Binary}

theorem isOddInteger_iff (hx : x.form ≠ .infinite) :
    x.isOddInteger = true ↔ ∃ n : ℤ, Odd n ∧ x.toRat? = some (n : ℚ) := by
  cases hform : x.form with
  | infinite => exact absurd hform hx
  | zero =>
    have hvalue : x.toRat? = some 0 := toRat?_of_zero hform
    have hodd : x.isOddInteger = false := by rw [isOddInteger, hform]
    rw [hodd, hvalue]
    constructor
    · intro h
      cases h
    · rintro ⟨n, hn, hzero⟩
      have hn0 : n = 0 := by exact_mod_cast (Option.some.inj hzero).symm
      exact absurd (hn0 ▸ hn) (by decide)
  | finite m =>
    have hvalue : x.toRat? = some (withSign x.negative m.toRat) := by
      rw [toRat?, hform, Form.toRat?, Option.map_some]
    have hodd : x.isOddInteger = m.isOddInteger := by rw [isOddInteger, hform]
    simp only [hodd, hvalue, Option.some.injEq]
    rw [m.isOddInteger_iff,
      exists_withSign_eq_intCast x.negative m.toRat_pos.le (P := Odd) fun _ => Odd.neg]
    simp only [Int.odd_coe_nat]

/-! ## Integer powers -/

/-- Fractional powers, whose bases are positive, are not negative. -/
def FractionalPower.KeepsSign (fraction : FractionalPower) : Prop :=
  ∀ prec b inverse e, (fraction prec b inverse e).negative = false

theorem negative_mul (h : mul prec x y = .ok z) : z.negative = (x.negative != y.negative) := by
  unfold mul at h
  dsimp only at h
  split at h <;> cases h <;> rfl

theorem negative_div (h : div prec x y = .ok z) : z.negative = (x.negative != y.negative) := by
  unfold div at h
  dsimp only at h
  split at h <;> cases h <;> rfl

theorem negative_squarings
    (n : ℕ) {s s' : Squaring} (hacc : s.acc.negative = false) (hsquare : s.square.negative = false)
    (h : squarings prec n s = .ok s') : s'.acc.negative = false := by
  have hproduct : ∀ x y z : Binary, x.negative = false → y.negative = false →
      mul prec x y = .ok z → z.negative = false := by
    intro x y z hx hy hmul
    rw [negative_mul hmul, hx, hy]
    rfl
  exact acc_of_squarings hproduct (fun y z hy => hproduct y y z hy hy) n hacc hsquare h

theorem negative_powWide
    {base : Binary} {inverse : Bool} {n : ℕ} (h : powWide prec base inverse n = .ok z) :
    z.negative = false := by
  obtain ⟨s, hs, h⟩ := exists_of_bind_eq_ok h
  have hacc : s.acc.negative = false := negative_squarings n rfl rfl hs
  cases inverse with
  | false =>
    cases h
    exact hacc
  | true =>
    rw [negative_div h, hacc]
    rfl

theorem negative_powInteger
    {base : Binary} {inverse negative : Bool} {n : ℕ}
    (h : powInteger prec base inverse n negative = .ok z) : z.negative = negative := by
  obtain ⟨w, hw, h⟩ := exists_of_bind_eq_ok h
  have hwide : w.negative = false := negative_powWide hw
  cases negative with
  | false =>
    cases h
    exact hwide
  | true =>
    cases h
    exact congrArg not hwide

theorem negative_powFinite
    {fraction : FractionalPower} (hfraction : fraction.KeepsSign) {b e : Magnitude} {negative : Bool}
    (hinteger : e.isInteger = false → negative = false)
    (h : powFinite prec x y b e negative fraction = .ok z) : z.negative = negative := by
  unfold powFinite at h
  dsimp only at h
  split at h
  · cases h
    rfl
  split at h
  · cases h
    rfl
  split at h
  · exact negative_powInteger h
  · next hfractional =>
    rw [hinteger (by simpa using hfractional)]
    split at h
    · cases h
    · cases h
      exact hfraction _ _ _ _

/-! ## Every power -/

/-- Where a power of a finite non-zero base has a value, the sign of the value is set exactly if the
base is negative and the exponent is an odd integer; whether a finite number is an odd integer is told
correctly, whatever its precision and size. -/
theorem pow_negative_iff
    {prec : ℕ} {base exp z : Binary} {b : Magnitude} (hbase : base.form = .finite b)
    {fraction : FractionalPower} (hfraction : fraction.KeepsSign)
    (h : pow prec base exp fraction = .ok z) :
    (z.negative = true ↔
        base.negative = true ∧ ∃ n : ℤ, Odd n ∧ exp.toRat? = some (n : ℚ)) ∧
      ∀ x : Binary, x.form ≠ .infinite →
        (x.isOddInteger = true ↔ ∃ n : ℤ, Odd n ∧ x.toRat? = some (n : ℚ)) := by
  refine ⟨?_, fun x hx => isOddInteger_iff hx⟩
  have hfinite : exp.form ≠ .infinite := by
    intro hinfinite
    simp [pow, hbase, hinfinite] at h
  rw [← isOddInteger_iff hfinite, ← Bool.and_eq_true, ← Bool.eq_iff_iff]
  cases hexp : exp.form with
  | infinite => exact absurd hexp hfinite
  | zero =>
    simp only [pow, hbase, hexp] at h
    cases h
    simp [one, isOddInteger, hexp]
  | finite e =>
    have hodd : exp.isOddInteger = e.isOddInteger := by rw [isOddInteger, hexp]
    rw [hodd]
    simp only [pow, hbase, hexp] at h
    split at h
    · cases h
    next hdefined =>
    split at h
    · cases h
      rfl
    · refine negative_powFinite hfraction ?_ h
      intro hfractional
      simp_all

/-- The cube of minus two is negative. -/
theorem pow_negative_of_cube :
    pow 4 ⟨4, true, .finite ⟨1, 1, rfl⟩⟩ ⟨4, false, .finite ⟨3, 0, rfl⟩⟩ =
        .ok ⟨4, true, .finite ⟨1, 3, rfl⟩⟩ ∧
      ∃ n : ℤ, Odd n ∧ (⟨4, false, .finite ⟨3, 0, rfl⟩⟩ : Binary).toRat? = some (n : ℚ) := by
  have hvalue : pow 4 ⟨4, true, .finite ⟨1, 1, rfl⟩⟩ ⟨4, false, .finite ⟨3, 0, rfl⟩⟩ =
      .ok ⟨4, true, .finite ⟨1, 3, rfl⟩⟩ := by
    decide +kernel
  have hrounded : FractionalPower.rounded.KeepsSign := fun _ _ _ _ => rfl
  exact ⟨hvalue, ((pow_negative_iff rfl hrounded hvalue).1.mp rfl).2⟩

end Binary
end Reckon
