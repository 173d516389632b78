import Mathlib.Algebra.Ring.Nat
import Reckon.Binary.Power

/-!
# Comparisons with an undefined number

The bits of an undefined double precision number lie above those of infinity.  Its exponent field is
then full and its mantissa field is not zero, and such a number has no order to any other: no
comparison with it holds.
-/

namespace Reckon
namespace Double

open Float.Model

/-- The fields of an undefined number. -/
theorem fields_of_isNaN {x : Float} (h : isNaN x = true) :
    x.toBits.toNat / 2 ^ 52 % 2 ^ 11 = 2047 ∧ x.toBits.toNat % 2 ^ 52 ≠ 0 := by
  have hlt : 9218868437227405312 < x.toBits.toNat % 9223372036854775808 :=
    of_decide_eq_true h
  omega

theorem unpack_of_isNaN {x : Float} (h : isNaN x = true) : x.toModel.unpack = .notANumber := by
  obtain ⟨hfull, hnonzero⟩ := fields_of_isNaN h
  have hexponent : @UnpackedFloat.unpackExponent Format.binary64
      x.toModel.toBits.toBitVec = -1#_ := by
    apply BitVec.eq_of_toNat_eq
    show x.toBits.toNat >>> 52 % 2 ^ 11 = 2047
    rw [Nat.shiftRight_eq_div_pow, hfull]
  have hmantissa : @UnpackedFloat.unpackMantissa Format.binary64
      x.toModel.toBits.toBitVec ≠ 0#_ := by
    intro hzero
    have hzero' : x.toBits.toNat >>> 0 % 2 ^ 52 = 0 := congrArg BitVec.toNat hzero
    exact hnonzero hzero'
  exact (if_pos hexponent).trans (if_neg hmantissa)

theorem lt_iff_compare (x y : Float) :
    x < y ↔ x.toModel.unpack.compare y.toModel.unpack = some .lt := by
  have hlt : x < y ↔ (x.toModel.unpack.compare y.toModel.unpack == some .lt) = true := by
    simp [LT.lt, Float.lt, Float.Model.lt, UnpackedFloat.lt]
  rw [hlt, beq_iff_eq]

theorem not_lt_of_isNaN {x : Float} (h : isNaN x = true) (y : Float) : ¬ x < y := by
  rw [lt_iff_compare, unpack_of_isNaN h]
  cases y.toModel.unpack <;> exact nofun

theorem not_gt_of_isNaN {x : Float} (h : isNaN x = true) (y : Float) : ¬ y < x := by
  rw [lt_iff_compare, unpack_of_isNaN h]
  cases y.toModel.unpack <;> exact nofun

end Double
end Reckon
