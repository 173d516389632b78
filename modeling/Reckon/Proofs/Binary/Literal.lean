import Reckon.Binary.Read
import Reckon.Proofs.Binary.Rounds
import Reckon.Proofs.Lexer.Literal

/-!
# The number that a literal spells

A literal has digits and at most one point.  It spells the number that its digits give as an integer,
divided by ten once for each digit behind the point.  Reading a literal for arbitrary precision rounds
this number once.
-/

namespace Reckon
namespace Literal

/-- The number of digits behind the point. -/
def places (text : Bytes) : ℕ :=
  (text.dropWhile (· ≠ Numeral.point)).length - 1

/-- All digits of a literal read as one integer. -/
def digits (text : Bytes) : ℕ :=
  Bytes.natOfDigits (text.filter Bytes.isDigit)

/-- The number that a literal spells. -/
def toRat (text : Bytes) : ℚ :=
  digits text / 10 ^ places text

/-- Digits are read up to whatever follows them. -/
theorem takeMantissa_digits
    {ds : Bytes} (hds : ∀ b ∈ ds, Bytes.isDigit b = true) (m : Numeral.Mantissa) (rest : Bytes) :
    Numeral.takeMantissa 10 m (ds ++ rest) =
      Numeral.takeMantissa 10
        { m with
          digits := ds.foldl (fun n d => 10 * n + Bytes.digitValue d) m.digits
          count := m.count + ds.length } rest := by
  induction ds generalizing m with
  | nil => rfl
  | cons b ds ih =>
    have hb := hds b List.mem_cons_self
    have ih := fun m => ih (fun b hb => hds b (List.mem_cons_of_mem _ hb)) m
    rw [List.cons_append, takeMantissa_digit hb, ih]
    simp only [List.foldl_cons, List.length_cons, mul_comm 10 m.digits]
    congr 2
    omega

/-- A literal is a run of digits, or two of them with a point between. -/
theorem exists_digits
    {text : Bytes} (hnumeric : ∀ b ∈ text, isNumeric b = true) (hgood : WellFormed text) :
    (∀ b ∈ text, Bytes.isDigit b = true) ∨
      ∃ whole fraction, text = whole ++ Numeral.point :: fraction ∧
        (∀ b ∈ whole, Bytes.isDigit b = true) ∧ ∀ b ∈ fraction, Bytes.isDigit b = true := by
  have hdigit {b : UInt8} (hb : b ∈ text) (hpoint : b ≠ Numeral.point) :
      Bytes.isDigit b = true := by
    simpa [isNumeric, hpoint] using hnumeric b hb
  by_cases hpoint : Numeral.point ∈ text
  · right
    obtain ⟨whole, fraction, rfl, hwhole⟩ := List.eq_append_cons_of_mem hpoint
    refine ⟨whole, fraction, rfl, fun b hb => ?_, fun b hb => ?_⟩
    · exact hdigit (by simp [hb]) (by rintro rfl; exact hwhole hb)
    · apply hdigit (by simp [hb])
      rintro rfl
      have hcount := hgood.2
      have := List.count_pos_iff.mpr hb
      rw [List.count_append, List.count_cons_self] at hcount
      omega
  · left
    intro b hb
    exact hdigit hb (by rintro rfl; exact hpoint hb)

theorem dropWhile_digits
    {ds : Bytes} (hds : ∀ b ∈ ds, Bytes.isDigit b = true) (rest : Bytes) :
    (ds ++ rest).dropWhile (· ≠ Numeral.point) = rest.dropWhile (· ≠ Numeral.point) := by
  apply List.dropWhile_append_of_pos
  intro b hb
  rw [decide_eq_true_eq]
  rintro rfl
  exact absurd (hds _ hb) (by decide)

/-- The mantissa of a literal has all its digits, and as many places as stand behind the point. -/
theorem takeMantissa_eq
    {text : Bytes} (hnumeric : ∀ b ∈ text, isNumeric b = true) (hgood : WellFormed text) :
    (Numeral.takeMantissa 10 ⟨0, 0, none⟩ text).1.digits = digits text ∧
      (Numeral.takeMantissa 10 ⟨0, 0, none⟩ text).1.places = places text := by
  rcases exists_digits hnumeric hgood with hds | ⟨whole, fraction, rfl, hwhole, hfraction⟩
  · have hread : Numeral.takeMantissa 10 ⟨0, 0, none⟩ (text ++ []) =
        (⟨Bytes.natOfDigits text, text.length, none⟩, []) := by
      rw [takeMantissa_digits hds]
      simp [Numeral.takeMantissa, Bytes.natOfDigits]
    have hdrop := dropWhile_digits hds []
    rw [List.append_nil] at hread hdrop
    rw [hread, digits, List.filter_eq_self.mpr hds, places, hdrop]
    exact ⟨rfl, rfl⟩
  · have hread : Numeral.takeMantissa 10 ⟨0, 0, none⟩ (whole ++ Numeral.point :: (fraction ++ [])) =
        (⟨Bytes.natOfDigits (whole ++ fraction), whole.length + fraction.length,
          some whole.length⟩, []) := by
      rw [takeMantissa_digits hwhole, takeMantissa_point rfl, takeMantissa_digits hfraction]
      simp [Numeral.takeMantissa, Bytes.natOfDigits, List.foldl_append]
    have hfilter : (whole ++ Numeral.point :: fraction).filter Bytes.isDigit = whole ++ fraction := by
      rw [List.filter_append, List.filter_cons_of_neg (by decide), List.filter_eq_self.mpr hwhole,
        List.filter_eq_self.mpr hfraction]
    rw [List.append_nil] at hread
    rw [hread, digits, hfilter, places, dropWhile_digits hwhole,
      List.dropWhile_cons_of_neg (by decide)]
    exact ⟨rfl, Nat.add_sub_cancel_left _ _⟩

theorem readWide?_eq
    {text : Bytes} (hnumeric : ∀ b ∈ text, isNumeric b = true) (hgood : WellFormed text) :
    Numeral.readWide? text = some ⟨false, 10, digits text, places text, 10, 0, false⟩ := by
  obtain ⟨hrest, hcount⟩ := takeMantissa_of_wellFormed hnumeric hgood
  obtain ⟨hdigits, hplaces⟩ := takeMantissa_eq hnumeric hgood
  unfold Numeral.readWide?
  simp only [takeSign_eq hnumeric, takeMark_eq hnumeric, separatorsFit_of_isNumeric hnumeric, hrest,
    hdigits, hplaces]
  simp [hcount]

/-- The names of the infinities are spelled with letters. -/
theorem binary_named?_eq_none
    {text : Bytes} (hnumeric : ∀ b ∈ text, isNumeric b = true) (prec : ℕ) :
    Binary.named? prec text = none := by
  have hne (b : UInt8) (word : Bytes) (hb : isNumeric b = false) : text ≠ b :: word := by
    rintro rfl
    rw [hnumeric b List.mem_cons_self] at hb
    cases hb
  have hupper : text ≠ ("Inf" : Bytes) := hne 0x49 _ (by decide)
  have hlower : text ≠ ("inf" : Bytes) := hne 0x69 _ (by decide)
  simp [Binary.named?, takeSign_eq hnumeric, hupper, hlower]

/-- Reading a literal for arbitrary precision rounds the number that it spells. -/
theorem exists_read?
    {text : Bytes} (hnumeric : ∀ b ∈ text, isNumeric b = true) (hgood : WellFormed text)
    {prec : ℕ} (hprec : 1 ≤ prec) :
    ∃ f, Binary.read? prec text = some ⟨prec, false, f⟩ ∧ Form.Rounds prec (toRat text) f := by
  rw [Binary.read?, binary_named?_eq_none hnumeric, readWide?_eq hnumeric hgood]
  dsimp only
  rw [Option.bind_some, Binary.ofNumeral?]
  by_cases hzero : digits text = 0
  · refine ⟨.zero, by simp [hzero, Binary.zero], .zero ?_⟩
    simp [toRat, hzero]
  · refine ⟨Form.ofRatio prec (digits text) (5 ^ places text) (-places text), ?_, ?_⟩
    · simp [hzero]
    · apply Form.rounds_ofRatio hprec _ (Nat.pow_pos (by norm_num))
      have hten : (10 : ℚ) ^ places text = (5 ^ places text : ℕ) * 2 ^ places text := by
        push_cast
        rw [← mul_pow]
        norm_num
      rw [toRat, hten, zpow_neg, zpow_natCast, ← div_eq_mul_inv, div_div]

end Literal
end Reckon
