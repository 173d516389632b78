import Reckon.Numeral

/-!
# Which runs of digits and points are literals

A run of digits and points spells a number exactly when it has at least one digit and at most one
point.  Such a run has no sign, no base mark, no separator and no exponent, so that reading it comes
down to its mantissa; the mantissa ends early only at a second point.
-/

namespace Reckon
namespace Literal

/-- Whether a byte is a digit or a point. -/
def isNumeric (b : UInt8) : Bool :=
  Bytes.isDigit b || b = Numeral.point

/-- A run has at least one digit and at most one point. -/
def WellFormed (run : Bytes) : Prop :=
  (∃ b ∈ run, Bytes.isDigit b = true) ∧ run.count Numeral.point ≤ 1
  deriving Decidable

/-- A digit or a point is the code of one of the characters from `.` to `9`. -/
theorem bounds_of_isNumeric {b : UInt8} (h : isNumeric b = true) :
    0x2E ≤ b.toNat ∧ b.toNat ≤ 0x39 := by
  simp only [isNumeric, Bytes.isDigit, Numeral.point, Bool.or_eq_true, Bool.and_eq_true,
    decide_eq_true_eq, UInt8.le_iff_toNat_le, ← UInt8.toNat_inj] at h
  simp at h
  omega

theorem lowerByte_of_isNumeric {b : UInt8} (h : isNumeric b = true) : Bytes.lowerByte b = b := by
  have hbounds := bounds_of_isNumeric h
  have hupper : ¬ (0x41 ≤ b) := by
    simp [UInt8.le_iff_toNat_le]
    omega
  simp [Bytes.lowerByte, hupper]

theorem isDigit_point : Bytes.isDigit Numeral.point = false := by decide

/-- A digit counts as one in base ten, and a point does not. -/
theorem digitIn?_ten {b : UInt8} (h : isNumeric b = true) :
    Numeral.digitIn? 10 b = if Bytes.isDigit b then some (Bytes.digitValue b) else none := by
  have hbounds := bounds_of_isNumeric h
  by_cases hdigit : Bytes.isDigit b = true
  · have hvalue : Bytes.digitValue b < 10 := by
      simp only [Bytes.digitValue]
      omega
    simp [Numeral.digitIn?, Bytes.hexValue?, hdigit, hvalue, Option.filter]
  · have hlower : ¬ (0x61 ≤ b) := by
      simp [UInt8.le_iff_toNat_le]
      omega
    have hupper : ¬ (0x41 ≤ b) := by
      simp [UInt8.le_iff_toNat_le]
      omega
    simp [Numeral.digitIn?, Bytes.hexValue?, hdigit, hlower, hupper]

/-! ## The mantissa -/

theorem ne_separator_of_isNumeric {b : UInt8} (h : isNumeric b = true) : b ≠ Numeral.separator := by
  rintro rfl
  simp [isNumeric, Numeral.separator, Numeral.point, Bytes.isDigit] at h

theorem takeMantissa_digit {b : UInt8} (h : Bytes.isDigit b = true) (m : Numeral.Mantissa)
    (run : Bytes) :
    Numeral.takeMantissa 10 m (b :: run) =
      Numeral.takeMantissa 10
        { m with digits := m.digits * 10 + Bytes.digitValue b, count := m.count + 1 } run := by
  have hnumeric : isNumeric b = true := by simp [isNumeric, h]
  have hpoint : b ≠ Numeral.point := by
    rintro rfl
    simp [isDigit_point] at h
  simp [Numeral.takeMantissa, ne_separator_of_isNumeric hnumeric, hpoint, digitIn?_ten hnumeric, h]

theorem takeMantissa_point {m : Numeral.Mantissa} (h : m.pointAt = none) (run : Bytes) :
    Numeral.takeMantissa 10 m (Numeral.point :: run) =
      Numeral.takeMantissa 10 { m with pointAt := some m.count } run := by
  have hseparator : Numeral.point ≠ Numeral.separator := by decide
  simp [Numeral.takeMantissa, hseparator, h]

theorem takeMantissa_second_point {m : Numeral.Mantissa} {n : Nat} (h : m.pointAt = some n)
    (run : Bytes) :
    Numeral.takeMantissa 10 m (Numeral.point :: run) = (m, Numeral.point :: run) := by
  have hseparator : Numeral.point ≠ Numeral.separator := by decide
  have hnumeric : isNumeric Numeral.point = true := by decide
  simp [Numeral.takeMantissa, hseparator, h, digitIn?_ten hnumeric, isDigit_point]

/-- The number of points that a mantissa may still get. -/
def pointsLeft (m : Numeral.Mantissa) : Nat :=
  if m.pointAt.isNone then 1 else 0

/-- A run is either read to its end, with all its digits, or up to a point too many. -/
theorem takeMantissa_cases {run : Bytes} (hrun : ∀ b ∈ run, isNumeric b = true)
    (m : Numeral.Mantissa) :
    (run.count Numeral.point ≤ pointsLeft m ∧
      (Numeral.takeMantissa 10 m run).2 = [] ∧
      (Numeral.takeMantissa 10 m run).1.count = m.count + run.countP Bytes.isDigit) ∨
    (pointsLeft m < run.count Numeral.point ∧
      ∃ more, (Numeral.takeMantissa 10 m run).2 = Numeral.point :: more) := by
  induction run generalizing m with
  | nil => exact Or.inl ⟨Nat.zero_le _, rfl, rfl⟩
  | cons b run ih =>
    have hb := hrun b List.mem_cons_self
    have ih := ih fun b hb => hrun b (List.mem_cons_of_mem _ hb)
    by_cases hdigit : Bytes.isDigit b = true
    · have hpoint : b ≠ Numeral.point := by
        rintro rfl
        simp [isDigit_point] at hdigit
      rw [takeMantissa_digit hdigit, List.count_cons_of_ne hpoint, List.countP_cons_of_pos hdigit]
      rcases ih { m with
          digits := m.digits * 10 + Bytes.digitValue b, count := m.count + 1 } with
        ⟨hle, hrest, hcount⟩ | hmore
      · exact Or.inl ⟨hle, hrest, by rw [hcount]; dsimp only; omega⟩
      · exact Or.inr hmore
    · -- The byte is a point: the first one is noted, a second one is left over.
      obtain rfl : b = Numeral.point := by simpa [isNumeric, hdigit] using hb
      rw [List.count_cons_self, List.countP_cons_of_neg hdigit]
      cases hat : m.pointAt with
      | none =>
        have hleft : pointsLeft m = 1 := by simp [pointsLeft, hat]
        rw [takeMantissa_point hat, hleft]
        rcases ih { m with pointAt := some m.count } with ⟨hle, hread⟩ | ⟨hlt, hmore⟩
        · exact Or.inl ⟨Nat.succ_le_succ hle, hread⟩
        · exact Or.inr ⟨Nat.succ_lt_succ hlt, hmore⟩
      | some n =>
        have hleft : pointsLeft m = 0 := by simp [pointsLeft, hat]
        rw [takeMantissa_second_point hat, hleft]
        exact Or.inr ⟨Nat.succ_pos _, run, rfl⟩

/-! ## The whole run -/

theorem takeSign_eq {run : Bytes} (hrun : ∀ b ∈ run, isNumeric b = true) :
    Numeral.takeSign run = (false, run) := by
  unfold Numeral.takeSign
  split
  · exact absurd (hrun 0x2B List.mem_cons_self) (by decide)
  · exact absurd (hrun 0x2D List.mem_cons_self) (by decide)
  · rfl

/-- The names of numbers are spelled with letters, which a run has none of. -/
theorem named?_eq_none {run : Bytes} (hrun : ∀ b ∈ run, isNumeric b = true) :
    Double.named? run = none := by
  have hlower : Bytes.lower run = run :=
    (List.map_congr_left fun b hb => lowerByte_of_isNumeric (hrun b hb)).trans (List.map_id run)
  have hne : ∀ (b : UInt8) (word : Bytes), isNumeric b = false → run ≠ b :: word := by
    rintro b word hb rfl
    simp [hrun b List.mem_cons_self] at hb
  have hinf : run ≠ ("inf" : Bytes) := hne 0x69 _ (by decide)
  have hinfinity : run ≠ ("infinity" : Bytes) := hne 0x69 _ (by decide)
  have hnan : run ≠ ("nan" : Bytes) := hne 0x6E _ (by decide)
  simp [Double.named?, takeSign_eq hrun, hlower, hinf, hinfinity, hnan]

theorem separatorsFitFrom_of_isNumeric {run : Bytes} (hrun : ∀ b ∈ run, isNumeric b = true)
    {seen : Numeral.Seen} (hseen : seen ≠ .separator) :
    Numeral.separatorsFitFrom false seen run = true := by
  induction run generalizing seen with
  | nil => simpa [Numeral.separatorsFitFrom] using hseen
  | cons b run ih =>
    have hb := ne_separator_of_isNumeric (hrun b List.mem_cons_self)
    have ih := fun seen => @ih (fun b hb => hrun b (List.mem_cons_of_mem _ hb)) seen
    simp only [Numeral.separatorsFitFrom, if_neg hb]
    by_cases hdigit : (Numeral.digitIn? 10 b).isSome = true
    · simp [hdigit, ih .digit]
    · simp [hdigit, hseen, ih .other]

/-- No byte of a run announces a base. -/
theorem baseOfMark?_eq_none {b : UInt8} (h : isNumeric b = true) :
    Numeral.baseOfMark? b = none := by
  have hbounds := bounds_of_isNumeric h
  rw [Numeral.baseOfMark?, lowerByte_of_isNumeric h]
  split
  all_goals simp_all

theorem separatorsFit_of_isNumeric {run : Bytes} (hrun : ∀ b ∈ run, isNumeric b = true) :
    Numeral.separatorsFit run = true := by
  unfold Numeral.separatorsFit
  split
  next mark run =>
    have hmark : isNumeric mark = true := hrun mark (by simp)
    have hrest : ∀ b ∈ mark :: run, isNumeric b = true := fun b hb =>
      hrun b (List.mem_cons_of_mem _ hb)
    simp only [baseOfMark?_eq_none hmark]
    exact separatorsFitFrom_of_isNumeric hrest (by decide)
  · exact separatorsFitFrom_of_isNumeric hrun (by decide)

/-- A run is read in base ten, with no byte of it set aside. -/
theorem takeHexMark_eq {run : Bytes} (hrun : ∀ b ∈ run, isNumeric b = true) :
    Numeral.takeHexMark run = (10, run) := by
  unfold Numeral.takeHexMark
  split
  next mark rest =>
    have hmark : isNumeric mark = true := hrun mark (by simp)
    have hbounds := bounds_of_isNumeric hmark
    rw [lowerByte_of_isNumeric hmark, if_neg]
    rintro rfl
    simp at hbounds
  · rfl

/-- The number of a run is that of its mantissa, if this is the whole run and has a digit. -/
theorem readDouble?_eq {run : Bytes} (hrun : ∀ b ∈ run, isNumeric b = true) :
    (Numeral.readDouble? run).isSome =
      ((Numeral.takeMantissa 10 ⟨0, 0, none⟩ run).1.count != 0 &&
        (Numeral.takeMantissa 10 ⟨0, 0, none⟩ run).2.isEmpty) := by
  unfold Numeral.readDouble?
  simp only [takeSign_eq hrun, takeHexMark_eq hrun, separatorsFit_of_isNumeric hrun]
  rcases takeMantissa_cases hrun ⟨0, 0, none⟩ with ⟨-, hrest, -⟩ | ⟨-, more, hrest⟩
  · by_cases hcount : (Numeral.takeMantissa 10 ⟨0, 0, none⟩ run).1.count = 0
    · simp [hcount]
    · simp [hcount, hrest]
  · have hpoint : Bytes.lowerByte Numeral.point ≠ 0x65 := by decide
    by_cases hcount : (Numeral.takeMantissa 10 ⟨0, 0, none⟩ run).1.count = 0
    · simp [hcount]
    · simp [hcount, hrest, hpoint]

/-- A run of digits and points is read as a number exactly when it is well formed. -/
theorem isSome_read?_iff {run : Bytes} (hrun : ∀ b ∈ run, isNumeric b = true) :
    (Double.read? run).isSome = true ↔ WellFormed run := by
  have hdigits : 0 < run.countP Bytes.isDigit ↔ ∃ b ∈ run, Bytes.isDigit b = true :=
    List.countP_pos_iff
  have hpoints : pointsLeft ⟨0, 0, none⟩ = 1 := rfl
  rw [Double.read?, named?_eq_none hrun, Option.isSome_map, readDouble?_eq hrun, WellFormed,
    ← hdigits]
  rcases takeMantissa_cases hrun ⟨0, 0, none⟩ with ⟨hle, hrest, hcount⟩ | ⟨hlt, more, hrest⟩
  · rw [hpoints] at hle
    simp [hrest, hcount, hle, Nat.pos_iff_ne_zero]
  · rw [hpoints] at hlt
    simp only [hrest, List.isEmpty_cons, Bool.and_false, Bool.false_eq_true, false_iff]
    omega

/-- A well-formed run is read to its end and has digits. -/
theorem takeMantissa_of_wellFormed
    {run : Bytes} (hrun : ∀ b ∈ run, isNumeric b = true) (hgood : WellFormed run) :
    (Numeral.takeMantissa 10 ⟨0, 0, none⟩ run).2 = [] ∧
      (Numeral.takeMantissa 10 ⟨0, 0, none⟩ run).1.count ≠ 0 := by
  have hdigits : 0 < run.countP Bytes.isDigit := List.countP_pos_iff.mpr hgood.1
  rcases takeMantissa_cases hrun ⟨0, 0, none⟩ with ⟨-, hrest, hcount⟩ | ⟨hlt, -⟩
  · refine ⟨hrest, ?_⟩
    rw [hcount]
    omega
  · have hpoints := hgood.2
    have hleft : pointsLeft ⟨0, 0, none⟩ = 1 := rfl
    omega

theorem takeMark_eq {run : Bytes} (hrun : ∀ b ∈ run, isNumeric b = true) :
    Numeral.takeMark run = (10, run) := by
  unfold Numeral.takeMark
  split
  next mark rest =>
    have hmark : isNumeric mark = true := hrun mark (by simp)
    rw [baseOfMark?_eq_none hmark]
  · rfl

/-- A well-formed run is also a number for arbitrary precision, and one without an exponent. -/
theorem exists_readWide?
    {run : Bytes} (hrun : ∀ b ∈ run, isNumeric b = true) (hgood : WellFormed run) :
    ∃ n, Numeral.readWide? run = some n ∧ n.scaled = false := by
  obtain ⟨hrest, hcount⟩ := takeMantissa_of_wellFormed hrun hgood
  unfold Numeral.readWide?
  simp only [takeSign_eq hrun, takeMark_eq hrun, separatorsFit_of_isNumeric hrun, hrest]
  simp [hcount]

end Literal
end Reckon
