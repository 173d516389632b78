import Reckon.Binary.Read
import Reckon.Proofs.Binary.IntegerPower

/-!
# The precision of results

A number has a precision if it is recorded with it and its mantissa is no longer.  Every operation
gives a number of the precision asked for, whatever the precisions of the operands: what is carried
with extra bits on the way is rounded before it is returned.
-/

namespace Reckon

open Form

/-- A form whose mantissa, if it has one, is not longer than a number of bits. -/
def Form.BitsLe (prec : ℕ) (f : Form) : Prop :=
  ∀ m, f = .finite m → m.bits ≤ prec

/-- A number recorded with a precision, and whose mantissa is not longer. -/
structure Binary.HasPrecision (prec : ℕ) (x : Binary) : Prop where
  prec_eq : x.prec = prec
  bitsLe : x.form.BitsLe prec

/-- Fractional powers have the precision asked for. -/
def Binary.FractionalPower.KeepsPrecision (fraction : Binary.FractionalPower) : Prop :=
  ∀ prec b inverse e, 1 ≤ prec → (fraction prec b inverse e).HasPrecision prec

variable {prec : ℕ}

namespace Form

theorem bitsLe_zero : BitsLe prec .zero := nofun

theorem bitsLe_infinite : BitsLe prec .infinite := nofun

theorem bitsLe_one (hprec : 1 ≤ prec) : BitsLe prec (.finite .one) := by
  rintro m ⟨⟩
  exact hprec

theorem BitsLe.mono {f : Form} {wide : ℕ} (h : f.BitsLe prec) (hle : prec ≤ wide) :
    f.BitsLe wide :=
  fun m hm => (h m hm).trans hle

theorem Rounds.bitsLe {q : ℚ} {f : Form} (hprec : 1 ≤ prec) (h : Rounds prec q f) :
    f.BitsLe prec := by
  rintro m rfl
  exact h.bits_le hprec

theorem bitsLe_ofRatio (hprec : 1 ≤ prec) (num : ℕ) {den : ℕ} (hden : 0 < den) (e : ℤ) :
    (ofRatio prec num den e).BitsLe prec :=
  (rounds_ofRatio hprec num hden e rfl).bitsLe hprec

theorem bitsLe_round (hprec : 1 ≤ prec) (f : Form) : (f.round prec).BitsLe prec := by
  cases f with
  | zero => exact bitsLe_zero
  | finite m => exact bitsLe_ofRatio hprec m.mant one_pos m.exp
  | infinite => exact bitsLe_infinite

end Form

namespace Binary

variable {x y z : Binary} {p q : ℕ}

theorem hasPrecision_zero (negative : Bool) : (zero prec negative).HasPrecision prec :=
  ⟨rfl, bitsLe_zero⟩

theorem hasPrecision_infinity (negative : Bool) : (infinity prec negative).HasPrecision prec :=
  ⟨rfl, bitsLe_infinite⟩

theorem hasPrecision_one (hprec : 1 ≤ prec) : (one prec).HasPrecision prec :=
  ⟨rfl, bitsLe_one hprec⟩

theorem HasPrecision.neg (h : x.HasPrecision prec) : x.neg.HasPrecision prec :=
  ⟨h.prec_eq, h.bitsLe⟩

theorem HasPrecision.abs (h : x.HasPrecision prec) : x.abs.HasPrecision prec :=
  ⟨h.prec_eq, h.bitsLe⟩

/-- A number is brought to a precision: it is rounded unless it has no more bits anyway. -/
theorem HasPrecision.withPrec (hprec : 1 ≤ prec) (h : x.HasPrecision p) :
    (x.withPrec prec).HasPrecision prec := by
  refine ⟨rfl, ?_⟩
  unfold Binary.withPrec
  dsimp only
  by_cases hlt : prec < x.prec
  · rw [if_pos hlt]
    exact bitsLe_round hprec x.form
  · rw [if_neg hlt]
    exact h.bitsLe.mono (by rw [← h.prec_eq]; omega)

/-! ## Sums, products and quotients -/

theorem hasPrecision_addFinite (hprec : 1 ≤ prec) (s t : Bool) (a b : Magnitude) :
    (addFinite prec s a t b).HasPrecision prec :=
  ⟨rfl, bitsLe_ofRatio hprec _ one_pos _⟩

theorem hasPrecision_add
    (hprec : 1 ≤ prec) (hx : x.HasPrecision p) (hy : y.HasPrecision q) (h : add prec x y = .ok z) :
    z.HasPrecision prec := by
  unfold add at h
  split at h
  · split at h <;> cases h
    exact hx.withPrec hprec
  · cases h
    exact hasPrecision_zero _
  · cases h
    exact hx.withPrec hprec
  · cases h
    exact hx.withPrec hprec
  · cases h
    exact hy.withPrec hprec
  · cases h
    exact hy.withPrec hprec
  · cases h
    exact hasPrecision_addFinite hprec _ _ _ _

theorem hasPrecision_sub
    (hprec : 1 ≤ prec) (hx : x.HasPrecision p) (hy : y.HasPrecision q) (h : sub prec x y = .ok z) :
    z.HasPrecision prec := by
  by_cases hinfinite : x.form = .infinite
  · cases hyform : y.form with
    | infinite =>
      simp only [sub, hinfinite, hyform] at h
      split at h <;> cases h
      exact hx.withPrec hprec
    | zero | finite =>
      simp only [sub, hinfinite, hyform] at h
      cases h
      exact hx.withPrec hprec
  · rw [sub_eq_add_of_ne_infinite hinfinite] at h
    exact hasPrecision_add hprec hx hy.neg h

theorem hasPrecision_mul (hprec : 1 ≤ prec) (h : mul prec x y = .ok z) : z.HasPrecision prec := by
  unfold mul at h
  dsimp only at h
  split at h <;> cases h
  · exact hasPrecision_infinity _
  · exact hasPrecision_infinity _
  · exact hasPrecision_zero _
  · exact hasPrecision_zero _
  · exact ⟨rfl, bitsLe_ofRatio hprec _ one_pos _⟩

theorem hasPrecision_div (hprec : 1 ≤ prec) (h : div prec x y = .ok z) : z.HasPrecision prec := by
  unfold div at h
  dsimp only at h
  split at h <;> cases h
  · exact hasPrecision_zero _
  · exact hasPrecision_zero _
  · exact hasPrecision_infinity _
  · exact hasPrecision_infinity _
  · exact ⟨rfl, bitsLe_ofRatio hprec _ (Magnitude.mant_pos _) _⟩

/-! ## Powers -/

theorem exists_of_bind_eq_ok
    {α β ε : Type} {r : Except ε α} {f : α → Except ε β} {b : β} (h : r.bind f = .ok b) :
    ∃ a, r = .ok a ∧ f a = .ok b := by
  cases r with
  | error err => cases h
  | ok a => exact ⟨a, rfl, h⟩

/-- What each product keeps of its factors, repeated squaring keeps of the product so far. -/
theorem acc_of_squarings
    {P Q : Binary → Prop} (hproduct : ∀ x y z, P x → Q y → mul prec x y = .ok z → P z)
    (hsquares : ∀ y z, Q y → mul prec y y = .ok z → Q z) (n : ℕ) {s s' : Squaring}
    (hacc : P s.acc) (hsquare : Q s.square) (h : squarings prec n s = .ok s') : P s'.acc := by
  induction n using Nat.strongRecOn generalizing s with
  | ind n ih =>
    by_cases hzero : n = 0
    · rw [squarings, dif_pos hzero] at h
      cases h
      exact hacc
    rw [squarings_step prec hzero] at h
    obtain ⟨acc, hmul, h⟩ := exists_of_bind_eq_ok h
    obtain ⟨square, hnext, h⟩ := exists_of_bind_eq_ok h
    refine ih (n / 2) (by omega) ?_ ?_ h
    · split at hmul
      · exact hproduct _ _ _ hacc hsquare hmul
      · cases hmul
        exact hacc
    · split at hnext
      · cases hnext
        exact hsquare
      · exact hsquares _ _ hsquare hnext

/-- Repeated squaring keeps the precision of the product, because every product has it. -/
theorem hasPrecision_squarings
    (hprec : 1 ≤ prec) (n : ℕ) {s s' : Squaring} (hs : s.acc.HasPrecision prec)
    (h : squarings prec n s = .ok s') : s'.acc.HasPrecision prec :=
  acc_of_squarings (Q := fun _ => True) (fun _ _ _ _ _ => hasPrecision_mul hprec)
    (fun _ _ _ _ => trivial) n hs trivial h

theorem hasPrecision_powWide
    (hprec : 1 ≤ prec) {base : Binary} {inverse : Bool} {n : ℕ}
    (h : powWide prec base inverse n = .ok z) : z.HasPrecision prec := by
  obtain ⟨s, hs, h⟩ := exists_of_bind_eq_ok h
  cases inverse with
  | false =>
    cases h
    exact hasPrecision_squarings hprec n (hasPrecision_one hprec) hs
  | true => exact hasPrecision_div hprec h

/-- The extra bits of repeated squaring do not show in its result. -/
theorem hasPrecision_powInteger
    (hprec : 1 ≤ prec) {base : Binary} {inverse negative : Bool} {n : ℕ}
    (h : powInteger prec base inverse n negative = .ok z) : z.HasPrecision prec := by
  obtain ⟨w, hwide, h⟩ := exists_of_bind_eq_ok h
  have hw := (hasPrecision_powWide (one_le_guarded prec) hwide).withPrec hprec
  cases negative with
  | false =>
    cases h
    exact hw
  | true =>
    cases h
    exact hw.neg

theorem hasPrecision_powFinite
    (hprec : 1 ≤ prec) {fraction : FractionalPower} (hfraction : fraction.KeepsPrecision)
    {b e : Magnitude} {negative : Bool} (h : powFinite prec x y b e negative fraction = .ok z) :
    z.HasPrecision prec := by
  unfold powFinite at h
  dsimp only at h
  split at h
  · cases h
    exact hasPrecision_infinity _
  split at h
  · cases h
    exact hasPrecision_zero _
  split at h
  · exact hasPrecision_powInteger hprec h
  split at h
  · cases h
  · cases h
    exact hfraction _ _ _ _ hprec

theorem hasPrecision_pow
    (hprec : 1 ≤ prec) {fraction : FractionalPower} (hfraction : fraction.KeepsPrecision)
    (h : pow prec x y fraction = .ok z) : z.HasPrecision prec := by
  unfold pow at h
  split at h
  · cases h
  · cases h
  · cases h
    exact hasPrecision_one hprec
  · cases h
    split
    · exact hasPrecision_infinity _
    · exact hasPrecision_zero _
  · split at h
    · cases h
    dsimp only at h
    split at h
    · cases h
      exact ⟨rfl, bitsLe_one hprec⟩
    · exact hasPrecision_powFinite hprec hfraction h

/-! ## Fractional powers that are rounded once -/

theorem bitsLe_settle?
    (hprec : 1 ≤ prec) {m error : ℕ} {e : ℤ} {f : Form} (h : settle? prec m error e = some f) :
    f.BitsLe prec := by
  unfold settle? at h
  dsimp only at h
  split at h <;> cases h
  exact bitsLe_ofRatio hprec _ one_pos _

theorem bitsLe_enclose
    (hprec : 1 ≤ prec) (b : Magnitude) (inverse : Bool) (e : Magnitude) (fuel bits : ℕ) :
    (enclose prec b inverse e fuel bits).BitsLe prec := by
  induction fuel generalizing bits with
  | zero => exact bitsLe_ofRatio hprec _ one_pos _
  | succ fuel ih =>
    rw [enclose]
    dsimp only
    cases hsettled : settle? prec _ _ _ with
    | none => exact ih _
    | some f => exact bitsLe_settle? hprec hsettled

theorem keepsPrecision_rounded : FractionalPower.rounded.KeepsPrecision := by
  intro prec b inverse e hprec
  refine ⟨rfl, ?_⟩
  show (powFraction prec b inverse e).BitsLe prec
  unfold powFraction
  split
  · exact bitsLe_round hprec _
  · exact bitsLe_enclose hprec b inverse e _ _

/-! ## Reading numbers -/

theorem hasPrecision_ofDouble (hprec : 1 ≤ prec) (x : Float) :
    (ofDouble prec x).HasPrecision prec := by
  refine ⟨rfl, ?_⟩
  unfold ofDouble
  dsimp only
  split
  · exact bitsLe_ofRatio hprec _ one_pos _
  · exact bitsLe_infinite

theorem bitsLe_scaledForm (hprec : 1 ≤ prec) (digits : ℕ) (twos fives : ℤ) :
    (scaledForm prec digits twos fives).BitsLe prec := by
  unfold scaledForm
  split
  · exact bitsLe_ofRatio hprec _ one_pos _
  · split
    · exact bitsLe_ofRatio hprec _ one_pos _
    · exact bitsLe_infinite
  · split
    · exact bitsLe_ofRatio hprec _ (Magnitude.mant_pos _) _
    · exact bitsLe_zero

theorem hasPrecision_ofNumeral?
    (hprec : 1 ≤ prec) {n : Numeral} (h : ofNumeral? prec n = some z) : z.HasPrecision prec := by
  unfold ofNumeral? at h
  split at h
  · cases h
    exact hasPrecision_zero _
  dsimp only at h
  split at h
  · split at h <;> split at h <;> cases h
    all_goals exact ⟨rfl, bitsLe_scaledForm hprec _ _ _⟩
  · cases h
    exact ⟨rfl, bitsLe_ofRatio hprec _ (by simp) _⟩

theorem hasPrecision_read?
    (hprec : 1 ≤ prec) {s : Bytes} (h : read? prec s = some z) : z.HasPrecision prec := by
  unfold read? at h
  split at h
  · cases h
    rename_i hnamed
    unfold named? at hnamed
    dsimp only at hnamed
    split at hnamed <;> cases hnamed
    exact hasPrecision_infinity _
  · obtain ⟨n, -, h⟩ := Option.bind_eq_some_iff.mp h
    exact hasPrecision_ofNumeral? hprec h

end Binary
end Reckon
