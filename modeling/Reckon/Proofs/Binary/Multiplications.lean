import Reckon.Proofs.Binary.Precision
import Reckon.Proofs.Binary.Undefined

/-!
# The products on the way to an integer power

An integer power of a finite base has a value whatever its size is estimated to be.  Behind this stands
a fact about the way there: repeated squaring never multiplies zero by infinity, even where a square
overflows or vanishes, and the quotient that inverts a power is neither one of zeros nor one of
infinities.

The products that are taken are told by a relation of their own, and repeated squaring has a result
exactly if each of them has one.
-/

namespace Reckon
namespace Binary

/-- Repeated squaring with the bits of `n` multiplies `x` by `y`, now or at a later bit. -/
inductive Multiplies (prec : ℕ) : ℕ → Squaring → Binary → Binary → Prop
  | product {n s} (hbit : n % 2 = 1) : Multiplies prec n s s.acc s.square
  | square {n s} (hmore : n / 2 ≠ 0) : Multiplies prec n s s.square s.square
  | later {n s acc square x y} (hn : n ≠ 0)
      (hacc : (if n % 2 = 1 then mul prec s.acc s.square else .ok s.acc) = .ok acc)
      (hsquare : (if n / 2 = 0 then .ok s.square else mul prec s.square s.square) = .ok square)
      (h : Multiplies prec (n / 2) ⟨acc, square⟩ x y) : Multiplies prec n s x y

variable {prec n : ℕ} {s : Squaring} {x y : Binary}

theorem exists_ok_iff {ε α : Type} (r : Except ε α) : (∃ z, r = .ok z) ↔ ∀ e, r ≠ .error e := by
  cases r <;> simp

theorem exists_mul_iff :
    (∃ z, mul prec x y = .ok z) ↔ ∀ reason, ¬ Operation.NoResult .multiply x y reason :=
  (exists_ok_iff _).trans (forall_congr' fun _ => not_congr mul_eq_error_iff)

theorem exists_div_iff :
    (∃ z, div prec x y = .ok z) ↔ ∀ reason, ¬ Operation.NoResult .divide x y reason :=
  (exists_ok_iff _).trans (forall_congr' fun _ => not_congr div_eq_error_iff)

/-- Of a run that has a result, every product has one. -/
theorem Multiplies.exists_mul
    (h : Multiplies prec n s x y) {s' : Squaring} (hrun : squarings prec n s = .ok s') :
    ∃ z, mul prec x y = .ok z := by
  induction h generalizing s' with
  | product hbit =>
    rw [squarings_step prec (by omega), if_pos hbit] at hrun
    obtain ⟨acc, hacc, -⟩ := exists_of_bind_eq_ok hrun
    exact ⟨acc, hacc⟩
  | square hmore =>
    rw [squarings_step prec (by omega), if_neg hmore] at hrun
    obtain ⟨acc, -, hrun⟩ := exists_of_bind_eq_ok hrun
    obtain ⟨square, hsquare, -⟩ := exists_of_bind_eq_ok hrun
    exact ⟨square, hsquare⟩
  | later hn hacc hsquare _ ih =>
    rw [squarings_step prec hn, hacc, hsquare] at hrun
    exact ih hrun

theorem exists_squarings_of_forall
    (n : ℕ) (s : Squaring) (h : ∀ x y, Multiplies prec n s x y → ∃ z, mul prec x y = .ok z) :
    ∃ s', squarings prec n s = .ok s' := by
  have hkeeps : StepKeeps prec fun n s =>
      ∀ x y, Multiplies prec n s x y → ∃ z, mul prec x y = .ok z := by
    intro n s hn h
    have hacc : ∃ acc, (if n % 2 = 1 then mul prec s.acc s.square else .ok s.acc) = .ok acc := by
      split
      · exact h _ _ (.product ‹_›)
      · exact ⟨_, rfl⟩
    have hsquare : ∃ square, (if n / 2 = 0 then .ok s.square else mul prec s.square s.square) =
        .ok square := by
      split
      · exact ⟨_, rfl⟩
      · exact h _ _ (.square ‹_›)
    obtain ⟨acc, hacc⟩ := hacc
    obtain ⟨square, hsquare⟩ := hsquare
    refine ⟨acc, square, hacc, hsquare, ?_⟩
    intro x y hlater
    exact h x y (.later hn hacc hsquare hlater)
  obtain ⟨s', hs', -⟩ := hkeeps.run n s h
  exact ⟨s', hs'⟩

/-- Repeated squaring has a result exactly if no product on its way is undefined. -/
theorem exists_squarings_iff :
    (∃ s', squarings prec n s = .ok s') ↔
      ∀ x y, Multiplies prec n s x y → ∀ reason, ¬ Operation.NoResult .multiply x y reason := by
  constructor
  · rintro ⟨s', hs'⟩ x y h
    exact exists_mul_iff.mp (h.exists_mul hs')
  · intro h
    apply exists_squarings_of_forall
    intro x y hmultiplies
    exact exists_mul_iff.mpr (h x y hmultiplies)

/-! ## The powers on the way

The product so far is a power of the base and so is the square.  With `i` and `m` as their exponents and
`n` for the bits that are left, `i + m * n` is the exponent that is reached in the end.
-/

/-- A step of repeated squaring with the exponents of the product and of the square: each product adds
the exponents of its factors. -/
theorem stepKeeps_powers
    {P Q : ℕ → Binary → Prop} {total : ℕ}
    (hproduct : ∀ i m x y, i + m ≤ total → Multiplies prec n s x y → P i x → Q m y →
      ∃ z, mul prec x y = .ok z ∧ P (i + m) z)
    (hsquare : ∀ m y, 2 * m ≤ total → Multiplies prec n s y y → Q m y →
      ∃ z, mul prec y y = .ok z ∧ Q (2 * m) z) :
    StepKeeps prec fun k t => (∀ x y, Multiplies prec k t x y → Multiplies prec n s x y) ∧
      ∃ i m, i + m * k = total ∧ P i t.acc ∧ (k ≠ 0 → Q m t.square) := by
  rintro k t hk ⟨hon, i, m, htotal, hacc, hcurrent⟩
  -- The bit of `k` that is looked at decides how far the exponent of the product moves.
  have hacc' : ∃ acc, (if k % 2 = 1 then mul prec t.acc t.square else .ok t.acc) = .ok acc ∧
      P (i + m * (k % 2)) acc := by
    rcases Nat.mod_two_eq_zero_or_one k with hbit | hbit
    · refine ⟨t.acc, ?_, ?_⟩
      · rw [if_neg (by omega)]
      · simpa [hbit] using hacc
    · have hle : i + m ≤ total := by
        rw [← htotal]
        exact Nat.add_le_add_left (Nat.le_mul_of_pos_right m (by omega)) i
      rw [if_pos hbit, hbit, mul_one]
      exact hproduct i m _ _ hle (hon _ _ (.product hbit)) hacc (hcurrent hk)
  have hsquare' : ∃ square, (if k / 2 = 0 then .ok t.square else mul prec t.square t.square) =
      .ok square ∧ (k / 2 ≠ 0 → Q (2 * m) square) := by
    by_cases hlast : k / 2 = 0
    · refine ⟨t.square, ?_, ?_⟩
      · rw [if_pos hlast]
      · intro h
        exact absurd hlast h
    · have hle : 2 * m ≤ total := by
        have : m * 2 ≤ m * k := Nat.mul_le_mul_left m (by omega)
        omega
      obtain ⟨square, hmul, hnext⟩ := hsquare m _ hle (hon _ _ (.square hlast)) (hcurrent hk)
      exact ⟨square, by rw [if_neg hlast, hmul], fun _ => hnext⟩
  obtain ⟨acc, hmul, hacc'⟩ := hacc'
  obtain ⟨square, hnext, hsquare'⟩ := hsquare'
  refine ⟨acc, square, hmul, hnext, ?_, i + m * (k % 2), 2 * m, ?_, hacc', hsquare'⟩
  · intro x y hlater
    exact hon x y (.later hk hmul hnext hlater)
  · calc i + m * (k % 2) + 2 * m * (k / 2) = i + m * (k % 2 + 2 * (k / 2)) := by ring
      _ = i + m * k := by rw [Nat.mod_add_div]
      _ = total := htotal

/-- Repeated squaring from the powers with the exponents `i` and `m`. -/
theorem exists_squarings_powers
    {P Q : ℕ → Binary → Prop} {total : ℕ}
    (hproduct : ∀ i m x y, i + m ≤ total → Multiplies prec n s x y → P i x → Q m y →
      ∃ z, mul prec x y = .ok z ∧ P (i + m) z)
    (hsquare : ∀ m y, 2 * m ≤ total → Multiplies prec n s y y → Q m y →
      ∃ z, mul prec y y = .ok z ∧ Q (2 * m) z)
    (i m : ℕ) (htotal : i + m * n = total) (hacc : P i s.acc) (hstart : n ≠ 0 → Q m s.square) :
    ∃ s', squarings prec n s = .ok s' ∧ P total s'.acc := by
  obtain ⟨s', hs', -, i', m', htotal', hlast, -⟩ :=
    (stepKeeps_powers hproduct hsquare).run n s ⟨fun _ _ => id, i, m, htotal, hacc, hstart⟩
  rw [mul_zero, add_zero] at htotal'
  exact ⟨s', hs', htotal' ▸ hlast⟩

/-! ## Any estimate of the size -/

/-- A power with its size estimated by a given number. -/
def powEstimated (estimate : Float) (prec : ℕ) (base exp : Binary) (b e : Magnitude)
    (negative : Bool) (fraction : FractionalPower) : Except Undefined Binary :=
  if estimateAbove estimate Form.maxExp then .ok (infinity prec negative)
  else if estimateBelow estimate Form.minExp then .ok (zero prec negative)
  else if e.isInteger then powInteger prec base exp.negative (integerPart e) negative
  else if Double.isNaN estimate || estimateAbove (Double.abs estimate) fractionalPowerBits then
    .error .fractionalMagnitude
  else .ok (fraction prec b exp.negative e)

theorem powFinite_eq_powEstimated
    (base exp : Binary) (b e : Magnitude) (negative : Bool) (fraction : FractionalPower) :
    powFinite prec base exp b e negative fraction =
      powEstimated (powEstimate b exp) prec base exp b e negative fraction :=
  rfl

theorem exists_powEstimated
    (estimate : Float) (prec : ℕ) {base exp : Binary} {b e : Magnitude}
    (hbase : base.form = .finite b) (hinteger : e.isInteger = true) (negative : Bool)
    (fraction : FractionalPower) :
    ∃ z, powEstimated estimate prec base exp b e negative fraction = .ok z := by
  unfold powEstimated
  split
  · exact ⟨_, rfl⟩
  split
  · exact ⟨_, rfl⟩
  exact exists_powInteger prec hbase exp.negative (integerPart e) negative

/-! ## Every integer power -/

theorem isInteger_iff : x.isInteger = true ↔ ∃ n : ℤ, x.toRat? = some (n : ℚ) := by
  cases hform : x.form with
  | zero =>
    have hvalue : x.toRat? = some 0 := toRat?_of_zero hform
    simp only [isInteger, hform, hvalue, true_iff]
    exact ⟨0, by simp⟩
  | infinite => simp [isInteger, hform, toRat?, Form.toRat?]
  | finite m =>
    have hvalue : x.toRat? = some (withSign x.negative m.toRat) := by
      rw [toRat?, hform, Form.toRat?, Option.map_some]
    have hinteger : x.isInteger = m.isInteger := by rw [isInteger, hform]
    have hsign := exists_withSign_eq_intCast x.negative m.toRat_pos.le (P := fun _ => True)
      fun _ => id
    simp only [true_and] at hsign
    simp only [hinteger, hvalue, Option.some.injEq]
    rw [m.isInteger_iff, hsign]

theorem exists_pow_of_isInteger
    (prec : ℕ) {base exp : Binary} (hbase : base.form ≠ .infinite) (hexp : exp.isInteger = true)
    (fraction : FractionalPower) : ∃ z, pow prec base exp fraction = .ok z := by
  unfold pow
  cases hb : base.form with
  | infinite => exact absurd hb hbase
  | zero =>
    cases he : exp.form with
    | infinite => simp [isInteger, he] at hexp
    | zero | finite => exact ⟨_, rfl⟩
  | finite b =>
    cases he : exp.form with
    | infinite => simp [isInteger, he] at hexp
    | zero => exact ⟨_, rfl⟩
    | finite e =>
      have hinteger : e.isInteger = true := by simpa [isInteger, he] using hexp
      simp only [hinteger, Bool.not_true, Bool.and_false, Bool.false_eq_true, if_false]
      split
      · exact ⟨_, rfl⟩
      · rw [powFinite_eq_powEstimated]
        exact exists_powEstimated _ prec hb hinteger _ fraction

/-- A finite base has every integer power, at every precision.  For a non-zero base and exponent the
power has a value whatever its size is estimated to be, no product on the way to it is one of zero and
infinity, and the quotient that inverts it is neither one of zeros nor one of infinities. -/
theorem pow_integer_defined
    (prec : ℕ) {base exp : Binary} (hbase : base.form ≠ .infinite)
    (hexp : ∃ n : ℤ, exp.toRat? = some (n : ℚ)) (fraction : FractionalPower) :
    (∃ z, pow prec base exp fraction = .ok z) ∧
      ∀ b e, base.form = .finite b → exp.form = .finite e →
        let wide := clampPrec (prec + powGuardBits)
        let start : Squaring := ⟨one wide, base.abs.withPrec wide⟩
        (∀ estimate negative,
            ∃ z, powEstimated estimate prec base exp b e negative fraction = .ok z) ∧
          (∀ x y, Multiplies wide (integerPart e) start x y →
            ∀ reason, ¬ Operation.NoResult .multiply x y reason) ∧
          ∃ last, squarings wide (integerPart e) start = .ok last ∧
            ∀ reason, ¬ Operation.NoResult .divide (one wide) last.acc reason := by
  rw [← isInteger_iff] at hexp
  refine ⟨exists_pow_of_isInteger prec hbase hexp fraction, ?_⟩
  intro b e hb he wide start
  have hinteger : e.isInteger = true := by simpa [isInteger, he] using hexp
  have hwide : 1 ≤ wide := one_le_guarded prec
  have hrun := exists_squarings_start hwide hb (integerPart e)
  refine ⟨fun estimate negative => exists_powEstimated estimate prec hb hinteger negative fraction,
    exists_squarings_iff.mp hrun, ?_⟩
  obtain ⟨last, hlast⟩ := hrun
  exact ⟨last, hlast, exists_div_iff.mp (exists_one_div wide last.acc)⟩

/-- The square of `2 ^ 2 ^ 30` is past the range, yet its inverse has a value. -/
theorem pow_integer_defined_of_overflow :
    let base : Binary := ⟨5, false, .finite ⟨1, 1073741824, rfl⟩⟩
    let exp : Binary := ⟨5, true, .finite ⟨1, 1, rfl⟩⟩
    exp.toRat? = some ((-2 : ℤ) : ℚ) ∧ mul 69 base base = .ok (infinity 69 false) ∧
      ∃ z, pow 5 base exp = .ok z := by
  intro base exp
  have hexp : exp.toRat? = some ((-2 : ℤ) : ℚ) := by
    simp [exp, toRat?, Form.toRat?, withSign, Magnitude.toRat]
  exact ⟨hexp, by decide +kernel, (pow_integer_defined 5 (by simp [base]) ⟨-2, hexp⟩ .rounded).1⟩

end Binary
end Reckon
