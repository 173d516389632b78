import Reckon.Parser

/-!
# Runs of the parser

The parser is five functions that call each other.  `Run` says once what a call can do: which token
it looks at, which calls it makes, and how it ends, with a rule for each way through the functions.
`run_all` shows that every call follows the rules and `Run.unique` that they leave no choice,
so that what is shown of runs by induction on the rules holds of the functions.

A call ends with a tree or an error, and in either case with a state.
-/

namespace Reckon
namespace Parser

/-- A call of one of the functions of the parser. -/
inductive Call where
  | expression (power : Nat)
  | group (opening : Token)
  | enclosed
  | operand (t : Token)
  | climb (power : Nat) (left : Expr)

/-- A call in a state, and how it ends. -/
inductive Run (f : Frame) : Call → State → Except ParseError Expr → State → Prop
  /-- An expression begins with a literal or a parenthesis. -/
  | missing {power : Nat} {s : State}
      (hnumber : (s.peek f).kind ≠ .number) (hparen : (s.peek f).kind ≠ .parenLeft) :
      Run f (.expression power) s (.error (unexpected (s.peek f))) s
  | number {power : Nat} {t : Token} {ts : List Token} {depth : Int}
      {r : Except ParseError Expr} {after : State} (ht : t.kind = .number)
      (hclimb : Run f (.climb power (.constant t.num t.value)) ⟨ts, depth⟩ r after) :
      Run f (.expression power) ⟨t :: ts, depth⟩ r after
  | grouped {power : Nat} {t : Token} {ts : List Token} {depth : Int} {inner : Expr}
      {r : Except ParseError Expr} {mid after : State} (ht : t.kind = .parenLeft)
      (hgroup : Run f (.group t) ⟨ts, depth⟩ (.ok inner) mid)
      (hclimb : Run f (.climb power inner) mid r after) :
      Run f (.expression power) ⟨t :: ts, depth⟩ r after
  | groupedFailed {power : Nat} {t : Token} {ts : List Token} {depth : Int} {e : ParseError}
      {after : State} (ht : t.kind = .parenLeft)
      (hgroup : Run f (.group t) ⟨ts, depth⟩ (.error e) after) :
      Run f (.expression power) ⟨t :: ts, depth⟩ (.error e) after
  | group {opening : Token} {s : State} {r : Except ParseError Expr} {after : State}
      (hroom : f.refuses s.depth = false) (hinner : Run f .enclosed s.nest r after) :
      Run f (.group opening) s r after.unnest
  | groupRefused {opening : Token} {s : State} (hfull : f.refuses s.depth = true) :
      Run f (.group opening) s (.error (tooDeep f opening)) s
  | empty {s : State} (hclose : (s.peek f).kind = .parenRight) :
      Run f .enclosed s (.error (malformed (s.peek f).pos .emptyParentheses)) s
  | closed {s : State} {tree : Expr} {after : State} (hopen : (s.peek f).kind ≠ .parenRight)
      (hinner : Run f (.expression 0) s (.ok tree) after)
      (hclose : (after.peek f).kind = .parenRight) :
      Run f .enclosed s (.ok tree) after.advance
  | unclosed {s : State} {tree : Expr} {after : State} (hopen : (s.peek f).kind ≠ .parenRight)
      (hinner : Run f (.expression 0) s (.ok tree) after)
      (hclose : (after.peek f).kind ≠ .parenRight) :
      Run f .enclosed s
        (.error (malformed (after.peek f).pos (.unclosed (after.peek f).kind))) after
  | enclosedFailed {s : State} {e : ParseError} {after : State}
      (hopen : (s.peek f).kind ≠ .parenRight)
      (hinner : Run f (.expression 0) s (.error e) after) :
      Run f .enclosed s (.error e) after
  | operand {t : Token} {s : State} {r : Except ParseError Expr} {after : State}
      (ht : t.kind ≠ .caret) (hright : Run f (.expression (bindingPower t.kind)) s r after) :
      Run f (.operand t) s r after
  | exponent {t : Token} {s : State} {r : Except ParseError Expr} {after : State}
      (ht : t.kind = .caret) (hroom : f.refuses s.depth = false)
      (hright : Run f (.expression (bindingPower t.kind - 1)) s.nest r after) :
      Run f (.operand t) s r after.unnest
  | exponentRefused {t : Token} {s : State} (ht : t.kind = .caret)
      (hfull : f.refuses s.depth = true) :
      Run f (.operand t) s (.error (tooDeep f t)) s
  /-- Climbing ends in front of a token that binds no more tightly than `power`. -/
  | done {power : Nat} {left : Expr} {s : State}
      (hpower : bindingPower (s.peek f).kind ≤ power) :
      Run f (.climb power left) s (.ok left) s
  | applied {power : Nat} {left right : Expr} {t : Token} {ts : List Token} {depth : Int}
      {op : Operation} {r : Except ParseError Expr} {mid after : State}
      (hpower : power < bindingPower t.kind) (hop : operation? t.kind = some op)
      (hright : Run f (.operand t) ⟨ts, depth⟩ (.ok right) mid)
      (hclimb : Run f (.climb power (.binary op left right)) mid r after) :
      Run f (.climb power left) ⟨t :: ts, depth⟩ r after
  | appliedFailed {power : Nat} {left : Expr} {t : Token} {ts : List Token} {depth : Int}
      {op : Operation} {e : ParseError} {after : State}
      (hpower : power < bindingPower t.kind) (hop : operation? t.kind = some op)
      (hright : Run f (.operand t) ⟨ts, depth⟩ (.error e) after) :
      Run f (.climb power left) ⟨t :: ts, depth⟩ (.error e) after

namespace Outcome

variable {n : Nat}

/-- The tree or the error of an outcome. -/
def result : Outcome n → Except ParseError Expr
  | .parsed tree _ _ => .ok tree
  | .failed e _ => .error e

/-- The state of an outcome. -/
def after : Outcome n → State
  | .parsed _ after _ => after
  | .failed _ after => after

theorem result_unnest (o : Outcome n) : o.unnest.result = o.result := by
  cases o <;> rfl

theorem after_unnest (o : Outcome n) : o.unnest.after = o.after.unnest := by
  cases o <;> rfl

end Outcome

/-- An operator that binds at all has an operation. -/
theorem exists_operation {kind : TokenKind} (h : 0 < bindingPower kind) :
    ∃ op, operation? kind = some op := by
  cases kind <;> simp [bindingPower, operation?] at h ⊢

theorem peek_nil (f : Frame) (depth : Int) : State.peek ⟨[], depth⟩ f = f.finish := rfl

theorem peek_cons (f : Frame) (t : Token) (ts : List Token) (depth : Int) :
    State.peek ⟨t :: ts, depth⟩ f = t := rfl

theorem kind_finish (f : Frame) : f.finish.kind = .eof := rfl

/-- A token that is not the end is one of the sequence. -/
theorem exists_rest_of_peek {f : Frame} {s : State} (h : (s.peek f).kind ≠ .eof) :
    ∃ ts, s.rest = s.peek f :: ts := by
  obtain ⟨rest, depth⟩ := s
  cases rest with
  | nil => exact (h rfl).elim
  | cons t ts => exact ⟨ts, rfl⟩

/-- Every call follows the rules. -/
theorem run_all (f : Frame) :
    (∀ power s, Run f (.expression power) s (expression f power s).result
      (expression f power s).after) ∧
    (∀ t s, Run f (.group t) s (group f t s).result (group f t s).after) ∧
    (∀ s, Run f .enclosed s (enclosed f s).result (enclosed f s).after) ∧
    (∀ power n left s fewer, Run f (.climb power left) s (climb f power n left s fewer).result
      (climb f power n left s fewer).after) ∧
    (∀ t s, Run f (.operand t) s (operand f t s).result (operand f t s).after) := by
  apply expression.mutual_induct f
  case case1 =>
    intro power depth
    rw [expression]
    exact .missing (by simp [peek_nil, kind_finish]) (by simp [peek_nil, kind_finish])
  case case2 =>
    intro power t ts depth ht ih
    simp only [expression, ht]
    exact .number ht ih
  case case3 =>
    intro power t ts depth ht e after hgroup ih
    simp only [hgroup, Outcome.result, Outcome.after] at ih
    simp only [expression, ht, hgroup]
    exact .groupedFailed ht ih
  case case4 =>
    intro power t ts depth ht inner after hlt hgroup hlt' ihgroup ihclimb
    simp only [hgroup, Outcome.result, Outcome.after] at ihgroup
    simp only [expression, ht, hgroup]
    exact .grouped ht ihgroup ihclimb
  case case5 =>
    intro power t ts depth hnumber hparen
    rw [expression]
    split
    · exact (hnumber ‹_›).elim
    · exact (hparen ‹_›).elim
    · exact .missing hnumber hparen
  case case6 =>
    intro opening s hfull
    rw [group, if_pos hfull]
    exact .groupRefused hfull
  case case7 =>
    intro opening s hroom ih
    rw [group, if_neg hroom, Outcome.result_unnest, Outcome.after_unnest]
    exact .group (Bool.eq_false_iff.mpr hroom) ih
  case case8 =>
    intro s hclose
    rw [enclosed, if_pos hclose]
    exact .empty hclose
  case case9 =>
    intro s hopen e after hinner ih
    simp only [hinner, Outcome.result, Outcome.after] at ih
    rw [enclosed, if_neg hopen, hinner]
    exact .enclosedFailed hopen ih
  case case10 =>
    intro s hopen tree after hlt hinner close hclose ih
    simp only [hinner, Outcome.result, Outcome.after] at ih
    simp only [enclosed, if_neg hopen, hinner, if_pos (show (after.peek f).kind = _ from hclose)]
    exact .closed hopen ih hclose
  case case11 =>
    intro s hopen tree after hlt hinner close hclose ih
    simp only [hinner, Outcome.result, Outcome.after] at ih
    simp only [enclosed, if_neg hopen, hinner, if_neg (show ¬ (after.peek f).kind = _ from hclose)]
    exact .unclosed hopen ih hclose
  case case12 =>
    intro power n left depth fewer _
    rw [climb]
    exact .done (Nat.zero_le power)
  case case13 =>
    intro power n left t ts depth fewer hpower _
    rw [climb, if_pos hpower]
    exact .done hpower
  case case14 =>
    intro power n left t ts depth fewer hpower hop _
    obtain ⟨op, hsome⟩ := exists_operation (show 0 < bindingPower t.kind by omega)
    rw [hop] at hsome
    cases hsome
  case case15 =>
    intro power n left t ts depth fewer hpower op hop e after hright _ ih
    simp only [hright, Outcome.result, Outcome.after] at ih
    simp only [climb, if_neg hpower, hop, hright]
    exact .appliedFailed (by omega) hop ih
  case case16 =>
    intro power n left t ts depth fewer hpower op hop right after hlt hright hlt' _ ihright ihclimb
    simp only [hright, Outcome.result, Outcome.after] at ihright
    simp only [climb, if_neg hpower, hop, hright]
    exact .applied (by omega) hop ihright ihclimb
  case case17 =>
    intro t s ht hfull
    rw [operand, if_pos ht, if_pos hfull]
    exact .exponentRefused ht hfull
  case case18 =>
    intro t s ht hroom ih
    rw [operand, if_pos ht, if_neg hroom, Outcome.result_unnest, Outcome.after_unnest]
    exact .exponent ht (Bool.eq_false_iff.mpr hroom) ih
  case case19 =>
    intro t s ht ih
    rw [operand, if_neg ht]
    exact .operand ht ih

theorem exists_run (f : Frame) (power : Nat) (s : State) :
    ∃ r after, Run f (.expression power) s r after :=
  ⟨_, _, (run_all f).1 power s⟩

/-- A call has one result only. -/
theorem Run.unique {f : Frame} {call : Call} {s after after' : State}
    {r r' : Except ParseError Expr} (h : Run f call s r after) (h' : Run f call s r' after') :
    r = r' ∧ after = after' := by
  induction h generalizing r' after' with
  | missing hnumber hparen =>
    cases h' with
    | missing => exact ⟨rfl, rfl⟩
    | number ht => exact (hnumber ht).elim
    | grouped ht => exact (hparen ht).elim
    | groupedFailed ht => exact (hparen ht).elim
  | number ht _ ih =>
    cases h' with
    | missing hnumber => exact (hnumber ht).elim
    | number _ hclimb => exact ih hclimb
    | grouped ht' => simp [ht] at ht'
    | groupedFailed ht' => simp [ht] at ht'
  | grouped ht _ _ ihgroup ihclimb =>
    cases h' with
    | missing _ hparen => exact (hparen ht).elim
    | number ht' => simp [ht] at ht'
    | grouped _ hgroup hclimb =>
      obtain ⟨hinner, rfl⟩ := ihgroup hgroup
      cases hinner
      exact ihclimb hclimb
    | groupedFailed _ hgroup => cases (ihgroup hgroup).1
  | groupedFailed ht _ ih =>
    cases h' with
    | missing _ hparen => exact (hparen ht).elim
    | number ht' => simp [ht] at ht'
    | grouped _ hgroup => cases (ih hgroup).1
    | groupedFailed _ hgroup => exact ih hgroup
  | group hroom _ ih =>
    cases h' with
    | group _ hinner =>
      obtain ⟨hr, rfl⟩ := ih hinner
      exact ⟨hr, rfl⟩
    | groupRefused hfull => simp [hroom] at hfull
  | groupRefused hfull =>
    cases h' with
    | group hroom => simp [hfull] at hroom
    | groupRefused => exact ⟨rfl, rfl⟩
  | empty hclose =>
    cases h' with
    | empty => exact ⟨rfl, rfl⟩
    | closed hopen => exact (hopen hclose).elim
    | unclosed hopen => exact (hopen hclose).elim
    | enclosedFailed hopen => exact (hopen hclose).elim
  | closed hopen _ hclose ih =>
    cases h' with
    | empty hempty => exact (hopen hempty).elim
    | closed _ hinner =>
      obtain ⟨hr, rfl⟩ := ih hinner
      exact ⟨hr, rfl⟩
    | unclosed _ hinner hclose' =>
      obtain ⟨-, rfl⟩ := ih hinner
      exact (hclose' hclose).elim
    | enclosedFailed _ hinner => cases (ih hinner).1
  | unclosed hopen _ hclose ih =>
    cases h' with
    | empty hempty => exact (hopen hempty).elim
    | closed _ hinner hclose' =>
      obtain ⟨-, rfl⟩ := ih hinner
      exact (hclose hclose').elim
    | unclosed _ hinner =>
      obtain ⟨-, rfl⟩ := ih hinner
      exact ⟨rfl, rfl⟩
    | enclosedFailed _ hinner => cases (ih hinner).1
  | enclosedFailed hopen _ ih =>
    cases h' with
    | empty hempty => exact (hopen hempty).elim
    | closed _ hinner => cases (ih hinner).1
    | unclosed _ hinner => cases (ih hinner).1
    | enclosedFailed _ hinner => exact ih hinner
  | operand ht _ ih =>
    cases h' with
    | operand _ hright => exact ih hright
    | exponent ht' => exact (ht ht').elim
    | exponentRefused ht' => exact (ht ht').elim
  | exponent ht hroom _ ih =>
    cases h' with
    | operand ht' => exact (ht' ht).elim
    | exponent _ _ hright =>
      obtain ⟨hr, rfl⟩ := ih hright
      exact ⟨hr, rfl⟩
    | exponentRefused _ hfull => simp [hroom] at hfull
  | exponentRefused ht hfull =>
    cases h' with
    | operand ht' => exact (ht' ht).elim
    | exponent _ hroom => simp [hfull] at hroom
    | exponentRefused => exact ⟨rfl, rfl⟩
  | done hpower =>
    cases h' with
    | done => exact ⟨rfl, rfl⟩
    | applied hlt => exact (Nat.not_lt.mpr hpower hlt).elim
    | appliedFailed hlt => exact (Nat.not_lt.mpr hpower hlt).elim
  | applied hlt hop _ _ ihright ihclimb =>
    cases h' with
    | done hpower => exact (Nat.not_lt.mpr hpower hlt).elim
    | applied _ hop' hright hclimb =>
      obtain ⟨hr, rfl⟩ := ihright hright
      cases hr
      cases hop.symm.trans hop'
      exact ihclimb hclimb
    | appliedFailed _ _ hright => cases (ihright hright).1
  | appliedFailed hlt hop _ ih =>
    cases h' with
    | done hpower => exact (Nat.not_lt.mpr hpower hlt).elim
    | applied _ _ hright => cases (ih hright).1
    | appliedFailed _ _ hright => exact ih hright

end Parser
end Reckon
