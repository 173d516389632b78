/-!
# Rounding to nearest, ties to even

Every inexact result of the calculator is the exact rational result rounded once to the nearest
representable number, an exact tie going to the even neighbour.  The three functions below are the
whole of that rule: the nearest integer to a quotient, the position of a quotient's leading bit, and
the nearest multiple of a power of two.
-/

namespace Reckon
namespace Rounding

/-- The integer nearest to `num / den`; a tie goes to the even one. -/
def nearest (num den : Nat) : Nat :=
  let q := num / den
  let r := num % den
  if 2 * r < den || (2 * r = den && q % 2 = 0) then q else q + 1

/-- The exponent `k` with `2 ^ k ≤ num / den < 2 ^ (k + 1)`, for positive arguments. -/
def floorLog (num den : Nat) : Int :=
  let k : Int := (num.log2 : Int) - (den.log2 : Int)
  let reached : Bool := match k with
    | .ofNat n => den <<< n ≤ num
    | .negSucc n => den ≤ num <<< (n + 1)
  if reached then k else k - 1

/-- The integer nearest to `num / den` counted in units of `2 ^ unit`. -/
def inUnits (num den : Nat) (unit : Int) : Nat :=
  match unit with
  | .ofNat n => nearest num (den <<< n)
  | .negSucc n => nearest (num <<< (n + 1)) den

/-- The number of trailing zero bits of a positive number. -/
def trailingZeros (m : Nat) : Nat :=
  (m ^^^ (m - 1)).log2

/-- An odd number has no trailing zero. -/
theorem trailingZeros_odd (a : Nat) : trailingZeros (2 * a + 1) = 0 := by
  have h : (2 * a + 1) ^^^ (2 * a + 1 - 1) = 1 := by
    apply Nat.eq_of_testBit_eq
    intro i
    cases i with
    | zero => simp [Nat.testBit_zero]
    | succ i =>
      have h₁ : (2 * a + 1) / 2 = a := by omega
      have h₂ : (2 * a + 1 - 1) / 2 = a := by omega
      rw [Nat.testBit_xor, Nat.testBit_succ, Nat.testBit_succ, Nat.testBit_succ, h₁, h₂]
      simp
  unfold trailingZeros
  rw [h]
  decide

/-- Doubling a positive number adds one trailing zero. -/
theorem trailingZeros_double (a : Nat) (ha : 0 < a) :
    trailingZeros (2 * a) = trailingZeros a + 1 := by
  have h : (2 * a) ^^^ (2 * a - 1) = 2 * (a ^^^ (a - 1)) + 1 := by
    apply Nat.eq_of_testBit_eq
    intro i
    cases i with
    | zero =>
      have : (2 * a - 1) % 2 = 1 := by omega
      simp [Nat.testBit_zero, this]
    | succ i =>
      have h₁ : 2 * a / 2 = a := by omega
      have h₂ : (2 * a - 1) / 2 = a - 1 := by omega
      have h₃ : (2 * (a ^^^ (a - 1)) + 1) / 2 = a ^^^ (a - 1) := by omega
      rw [Nat.testBit_xor, Nat.testBit_succ, Nat.testBit_succ, Nat.testBit_succ, h₁, h₂, h₃,
        Nat.testBit_xor]
  have hne : a ^^^ (a - 1) ≠ 0 := by
    intro h0
    have hbits : ∀ i, a.testBit i = (a - 1).testBit i := by
      intro i
      have := congrArg (Nat.testBit · i) h0
      simpa [Nat.testBit_xor] using this
    have := Nat.eq_of_testBit_eq hbits
    omega
  unfold trailingZeros
  rw [h, Nat.log2_eq_iff (by omega)]
  have := (Nat.log2_eq_iff hne).mp rfl
  constructor
  · rw [Nat.pow_succ]
    omega
  · rw [Nat.pow_succ]
    omega

/-- Shifting out the trailing zeros of a positive number leaves an odd number. -/
theorem odd_shiftRight_trailingZeros :
    ∀ m : Nat, 0 < m → (m >>> trailingZeros m) % 2 = 1 := by
  intro m
  induction m using Nat.strongRecOn with
  | ind m ih =>
    intro hm
    rcases Nat.mod_two_eq_zero_or_one m with h | h
    · obtain ⟨a, ha⟩ : ∃ a, m = 2 * a := ⟨m / 2, by omega⟩
      have hpos : 0 < a := by omega
      have step := ih a (by omega) hpos
      rw [ha, trailingZeros_double a hpos, Nat.shiftRight_succ_inside,
        Nat.mul_div_cancel_left a (by decide)]
      exact step
    · obtain ⟨a, ha⟩ : ∃ a, m = 2 * a + 1 := ⟨m / 2, by omega⟩
      rw [ha, trailingZeros_odd]
      simp

end Rounding
end Reckon
