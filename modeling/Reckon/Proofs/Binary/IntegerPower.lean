import Reckon.Binary.Power
import Reckon.Proofs.Binary.Exact

/-!
# Integer powers always have a value

Repeated squaring multiplies the product so far by the current square, and the square by itself.  If
the base is at least one, no factor is ever zero; if it is at most one, none is ever infinite.  Either
way no product of zero and infinity is met, whatever overflows or underflows on the way.

Rounding cannot carry a number past one, because one is a power of two.
-/

namespace Reckon

open Form

namespace Form

/-- A number that is at least one, or infinite. -/
def AtLeastOne : Form → Prop
  | .zero => False
  | .finite x => 1 ≤ x.toRat
  | .infinite => True

/-- A number that is at most one, or zero. -/
def AtMostOne : Form → Prop
  | .zero => True
  | .finite x => x.toRat ≤ 1
  | .infinite => False

variable {prec : ℕ} {q : ℚ} {f : Form}

theorem Rounds.atLeastOne (hprec : 1 ≤ prec) (h : Rounds prec q f) (hq : 1 ≤ q) : f.AtLeastOne := by
  rcases h.zpow_le hprec (k := 0) (by simpa using hq) (by decide) with rfl | ⟨x, rfl, hx⟩
  · trivial
  · simpa [AtLeastOne] using hx

theorem Rounds.atMostOne (hprec : 1 ≤ prec) (h : Rounds prec q f) (hq : q ≤ 1) : f.AtMostOne := by
  rcases h.le_zpow hprec (k := 0) (by simpa using hq) (by decide) with rfl | ⟨x, rfl, hx⟩
  · trivial
  · simpa [AtMostOne] using hx

end Form

namespace Binary

/-- A class of numbers whose products are defined and remain in the class. -/
def ProductClosed (prec : ℕ) (S : Form → Prop) : Prop :=
  ∀ x y : Binary, S x.form → S y.form → ∃ z, mul prec x y = .ok z ∧ S z.form

variable {prec : ℕ} {S : Form → Prop}

theorem productClosed_atLeastOne (hprec : 1 ≤ prec) : ProductClosed prec AtLeastOne := by
  intro x y hx hy
  cases hxform : x.form with
  | zero => simp [hxform, AtLeastOne] at hx
  | infinite =>
    refine ⟨infinity prec (x.negative != y.negative), ?_, trivial⟩
    cases hyform : y.form with
    | zero => simp [hyform, AtLeastOne] at hy
    | finite | infinite => simp only [mul, hxform, hyform]
  | finite m =>
    cases hyform : y.form with
    | zero => simp [hyform, AtLeastOne] at hy
    | infinite =>
      refine ⟨infinity prec (x.negative != y.negative), ?_, trivial⟩
      simp only [mul, hxform, hyform]
    | finite n =>
      rw [hxform] at hx
      rw [hyform] at hy
      obtain ⟨f, hmul, hrounds⟩ := exists_rounds_mul hprec hxform hyform
      exact ⟨_, hmul, hrounds.atLeastOne hprec (one_le_mul_of_one_le_of_one_le hx hy)⟩

theorem productClosed_atMostOne (hprec : 1 ≤ prec) : ProductClosed prec AtMostOne := by
  intro x y hx hy
  cases hxform : x.form with
  | infinite => simp [hxform, AtMostOne] at hx
  | zero =>
    refine ⟨zero prec (x.negative != y.negative), ?_, trivial⟩
    cases hyform : y.form with
    | infinite => simp [hyform, AtMostOne] at hy
    | finite | zero => simp only [mul, hxform, hyform]
  | finite m =>
    cases hyform : y.form with
    | infinite => simp [hyform, AtMostOne] at hy
    | zero =>
      refine ⟨zero prec (x.negative != y.negative), ?_, trivial⟩
      simp only [mul, hxform, hyform]
    | finite n =>
      rw [hxform] at hx
      rw [hyform] at hy
      obtain ⟨f, hmul, hrounds⟩ := exists_rounds_mul hprec hxform hyform
      exact ⟨_, hmul, hrounds.atMostOne hprec (mul_le_one₀ hx n.toRat_pos.le hy)⟩

/-- One step of repeated squaring: the next product, the next square, and the bits that are left. -/
theorem squarings_step (prec : ℕ) {n : ℕ} (hn : n ≠ 0) (s : Squaring) :
    squarings prec n s =
      (if n % 2 = 1 then mul prec s.acc s.square else .ok s.acc).bind fun acc =>
        (if n / 2 = 0 then .ok s.square else mul prec s.square s.square).bind fun square =>
          squarings prec (n / 2) ⟨acc, square⟩ := by
  rw [squarings, dif_neg hn]
  by_cases hodd : n % 2 = 1 <;> by_cases hlast : n / 2 = 0 <;>
    simp only [hodd, hlast, if_true, if_false] <;> rfl

/-- Every step of repeated squaring has a result and keeps an invariant, which may depend on the bits
that are left. -/
def StepKeeps (prec : ℕ) (I : ℕ → Squaring → Prop) : Prop :=
  ∀ n s, n ≠ 0 → I n s → ∃ acc square,
    (if n % 2 = 1 then mul prec s.acc s.square else .ok s.acc) = .ok acc ∧
      (if n / 2 = 0 then .ok s.square else mul prec s.square s.square) = .ok square ∧
        I (n / 2) ⟨acc, square⟩

/-- Repeated squaring as a whole keeps the invariant until no bits are left. -/
theorem StepKeeps.run
    {I : ℕ → Squaring → Prop} (hkeeps : StepKeeps prec I) (n : ℕ) (s : Squaring) (h : I n s) :
    ∃ s', squarings prec n s = .ok s' ∧ I 0 s' := by
  induction n using Nat.strongRecOn generalizing s with
  | ind n ih =>
    by_cases hzero : n = 0
    · refine ⟨s, ?_, hzero ▸ h⟩
      rw [squarings, dif_pos hzero]
    obtain ⟨acc, square, hacc, hsquare, hnext⟩ := hkeeps n s hzero h
    rw [squarings_step prec hzero, hacc, hsquare]
    exact ih (n / 2) (by omega) ⟨acc, square⟩ hnext

/-- Repeated squaring stays in a class of numbers that is closed under products. -/
theorem exists_squarings
    (hS : ProductClosed prec S) (n : ℕ) (s : Squaring)
    (hacc : S s.acc.form) (hsquare : S s.square.form) :
    ∃ s', squarings prec n s = .ok s' ∧ S s'.acc.form := by
  have hkeeps : StepKeeps prec fun _ s => S s.acc.form ∧ S s.square.form := by
    rintro n s - ⟨hacc, hsquare⟩
    have hproduct : ∃ acc, (if n % 2 = 1 then mul prec s.acc s.square else .ok s.acc) = .ok acc ∧
        S acc.form := by
      split
      · exact hS _ _ hacc hsquare
      · exact ⟨_, rfl, hacc⟩
    have hnext : ∃ square, (if n / 2 = 0 then .ok s.square else mul prec s.square s.square) =
        .ok square ∧ S square.form := by
      split
      · exact ⟨_, rfl, hsquare⟩
      · exact hS _ _ hsquare hsquare
    obtain ⟨acc, hproduct, hacc'⟩ := hproduct
    obtain ⟨square, hnext, hsquare'⟩ := hnext
    exact ⟨acc, square, hproduct, hnext, hacc', hsquare'⟩
  obtain ⟨s', hs', hin, -⟩ := hkeeps.run n s ⟨hacc, hsquare⟩
  exact ⟨s', hs', hin⟩

/-- At another precision a finite number stays on its side of one. -/
theorem atLeastOne_or_atMostOne_withPrec
    (hprec : 1 ≤ prec) {x : Binary} {m : Magnitude} (hx : x.form = .finite m) :
    (x.withPrec prec).form.AtLeastOne ∧ 1 ≤ m.toRat ∨
      (x.withPrec prec).form.AtMostOne ∧ m.toRat ≤ 1 := by
  rcases withPrec_form hprec hx with ⟨-, hsame⟩ | hrounds
  · rw [hsame]
    exact (le_total 1 m.toRat).imp (fun hle => ⟨hle, hle⟩) fun hle => ⟨hle, hle⟩
  · exact (le_total 1 m.toRat).imp (fun hle => ⟨hrounds.atLeastOne hprec hle, hle⟩)
      fun hle => ⟨hrounds.atMostOne hprec hle, hle⟩

/-- Repeated squaring of a finite base has a result. -/
theorem exists_squarings_start
    (hprec : 1 ≤ prec) {base : Binary} {b : Magnitude} (hbase : base.form = .finite b) (n : ℕ) :
    ∃ s', squarings prec n ⟨one prec, base.abs.withPrec prec⟩ = .ok s' := by
  have habs : base.abs.form = .finite b := hbase
  rcases atLeastOne_or_atMostOne_withPrec hprec habs with ⟨hside, -⟩ | ⟨hside, -⟩
  · have hone : (one prec).form.AtLeastOne := by simp [one, AtLeastOne]
    exact (exists_squarings (productClosed_atLeastOne hprec) n _ hone hside).imp fun _ h => h.1
  · have hone : (one prec).form.AtMostOne := by simp [one, AtMostOne]
    exact (exists_squarings (productClosed_atMostOne hprec) n _ hone hside).imp fun _ h => h.1

/-- The dividend is one, so that no quotient of zeros or infinities is met. -/
theorem exists_one_div (prec : ℕ) (x : Binary) : ∃ z, div prec (one prec) x = .ok z := by
  unfold div
  cases x.form with
  | zero | infinite | finite => exact ⟨_, rfl⟩

theorem exists_powWide
    (hprec : 1 ≤ prec) {base : Binary} {b : Magnitude} (hbase : base.form = .finite b)
    (inverse : Bool) (n : ℕ) : ∃ z, powWide prec base inverse n = .ok z := by
  obtain ⟨s', hs'⟩ := exists_squarings_start hprec hbase n
  rw [powWide, hs']
  cases inverse with
  | false => exact ⟨_, rfl⟩
  | true => exact exists_one_div prec s'.acc

theorem one_le_guarded (prec : ℕ) : 1 ≤ clampPrec (prec + powGuardBits) := by
  unfold clampPrec powGuardBits maxPrec
  simp only [Nat.pow_eq]
  omega

theorem exists_powInteger_of_powWide
    {base w : Binary} {inverse : Bool} {n : ℕ} (negative : Bool)
    (hw : powWide (clampPrec (prec + powGuardBits)) base inverse n = .ok w) :
    ∃ z, powInteger prec base inverse n negative = .ok z ∧ z.form = (w.withPrec prec).form := by
  refine ⟨if negative then (w.withPrec prec).neg else w.withPrec prec, ?_, ?_⟩
  · rw [powInteger, hw]
    rfl
  · cases negative with
    | false => rfl
    | true => rfl

/-- An integer power of a finite number always has a value. -/
theorem exists_powInteger
    (prec : ℕ) {base : Binary} {b : Magnitude} (hbase : base.form = .finite b) (inverse : Bool)
    (n : ℕ) (negative : Bool) : ∃ z, powInteger prec base inverse n negative = .ok z := by
  obtain ⟨w, hw⟩ := exists_powWide (one_le_guarded prec) hbase inverse n
  obtain ⟨z, hz, -⟩ := exists_powInteger_of_powWide negative hw
  exact ⟨z, hz⟩

end Binary
end Reckon
