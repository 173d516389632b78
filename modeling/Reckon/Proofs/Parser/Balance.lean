import Reckon.Proofs.Parser.Grammar

/-!
# Counting parentheses

The parser counts parentheses before anything else.  Its count is the number of opening parentheses
minus the number of closing ones, whatever their order.
-/

namespace Reckon
namespace Parser

open Grammar

/-- One token adds to the count what it adds to the numbers of parentheses. -/
theorem excess_step (b : Balance) (t : Token) (ts : List Token) :
    (b.step t).excess + ts.countP (·.kind = .parenLeft) - ts.countP (·.kind = .parenRight) =
      b.excess + (t :: ts).countP (·.kind = .parenLeft)
        - (t :: ts).countP (·.kind = .parenRight) := by
  unfold Balance.step
  split
  next ht =>
    simp [ht]
    omega
  next ht =>
    split
    · simp [ht]
      omega
    · simp [ht]
      omega
  next hleft hright =>
    rw [List.countP_cons_of_neg (by simpa using hleft),
      List.countP_cons_of_neg (by simpa using hright)]

/-- A sequence adds to the count what it adds to the numbers of parentheses. -/
theorem excess_foldl (b : Balance) (ts : List Token) :
    (ts.foldl Balance.step b).excess = b.excess + ts.countP (·.kind = .parenLeft)
      - ts.countP (·.kind = .parenRight) := by
  induction ts generalizing b with
  | nil => simp
  | cons t ts ih => rw [List.foldl_cons, ih, excess_step]

theorem excess_balance (ts : List Token) :
    (balance ts).excess = ts.countP (·.kind = .parenLeft) - ts.countP (·.kind = .parenRight) := by
  simp [balance, excess_foldl]

/-- Parentheses are accepted when there are as many opening ones as closing ones. -/
theorem balanceError?_eq_none_iff (ts : List Token) :
    balanceError? ts = none ↔ ParensBalanced ts := by
  have hexcess := excess_balance ts
  unfold balanceError? ParensBalanced
  simp only [ite_eq_left_iff, reduceCtorEq, imp_false, Decidable.not_not, hexcess]
  omega

end Parser
end Reckon
