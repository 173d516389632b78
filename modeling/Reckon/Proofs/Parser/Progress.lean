import Reckon.Proofs.Parser.Activation
import Reckon.Proofs.Parser.Recognition

/-!
# Progress of the parser

A call takes tokens from the front and gives back the depth as it found it, whether it ends with a tree
or with an error.  An expression takes at least one token, and what it leaves begins with a token that
binds no more tightly than the binding power that it was read with.

Since every call that is made has either taken a token or is one of the few that are made for a token
taken before, the parser ends after a number of steps that is bounded by the number of tokens alone.
The limit has no part in this.
-/

namespace Reckon
namespace Parser

open Grammar

variable {f : Frame} {c : Call} {s after : State} {r : Except ParseError Expr}

/-- Every level that a call opens it closes, on every way through it. -/
theorem Run.depth_eq (h : Run f c s r after) : after.depth = s.depth := by
  induction h with
  | missing | groupRefused | empty | exponentRefused | done => rfl
  | number _ _ ih => exact ih
  | grouped _ _ _ ihgroup ihclimb => exact ihclimb.trans ihgroup
  | groupedFailed _ _ ih => exact ih
  | group _ _ ih | exponent _ _ _ ih =>
    simp only [State.unnest, ih]
    omega
  | closed _ _ _ ih => exact ih
  | unclosed _ _ _ ih => exact ih
  | enclosedFailed _ _ ih => exact ih
  | operand _ _ ih => exact ih
  | applied _ _ _ _ ihright ihclimb => exact ihclimb.trans ihright
  | appliedFailed _ _ _ ih => exact ih

/-- Tokens are taken from the front. -/
theorem Run.rest_suffix (h : Run f c s r after) : after.rest <:+ s.rest := by
  obtain ⟨taken, hrest, -⟩ := h.account
  exact ⟨taken, hrest.symm⟩

/-- The binding power of the operators that a call leaves to its caller. -/
def Call.power? : Call → Option Nat
  | .expression power | .climb power _ => some power
  | .group _ | .enclosed | .operand _ => none

/-- A call that takes operators ends in front of a token that binds no more tightly than its binding
power. -/
theorem Run.bindingPower_peek_le {power : Nat} {tree : Expr} (h : Run f c s r after)
    (hpower : c.power? = some power) (htree : r = .ok tree) :
    bindingPower (after.peek f).kind ≤ power := by
  induction h with
  | missing | groupedFailed | appliedFailed => cases htree
  | number _ _ ih => exact ih hpower htree
  | grouped _ _ _ _ ihclimb => exact ihclimb hpower htree
  | group | groupRefused | empty | closed | unclosed | enclosedFailed | operand | exponent
  | exponentRefused => cases hpower
  | done hle =>
    cases hpower
    exact hle
  | applied _ _ _ _ _ ihclimb => exact ihclimb hpower htree

/-- An expression takes a token. -/
theorem Run.exists_taken {power : Nat} {tree : Expr}
    (h : Run f (.expression power) s (.ok tree) after) :
    ∃ t taken, s.rest = t :: taken ++ after.rest := by
  cases h with
  | @number _ t _ _ _ _ _ hclimb =>
    obtain ⟨taken, hrest⟩ := hclimb.rest_suffix
    exact ⟨t, taken, by rw [List.cons_append, hrest]⟩
  | @grouped _ t _ _ _ _ _ _ _ hgroup hclimb =>
    obtain ⟨taken, hrest⟩ := hclimb.rest_suffix.trans hgroup.rest_suffix
    exact ⟨t, taken, by rw [List.cons_append, hrest]⟩

/-- What is shown of one run on a sequence holds of what the sequence is parsed to, unless the sequence
is empty or its parentheses are not balanced: then nothing is run. -/
theorem parse_cases (limit : Int) (ts : List Token) :
    ((ts = [] ∨ ¬ ParensBalanced ts) ∧ ∃ e, parse limit ts = .error e) ∨
      ∃ r after, Run ⟨limit, stopOf ts⟩ (.expression 0) ⟨ts, 0⟩ r after ∧
        parse limit ts = conclude r after := by
  by_cases hbalanced : ParensBalanced ts
  · by_cases hne : ts = []
    · subst hne
      exact Or.inl ⟨Or.inl rfl, _, rfl⟩
    · obtain ⟨r, after, hrun⟩ := exists_run ⟨limit, stopOf ts⟩ 0 ⟨ts, 0⟩
      exact Or.inr ⟨r, after, hrun, parse_eq_conclude hne hbalanced hrun⟩
  · cases herror : balanceError? ts with
    | none => exact (hbalanced ((balanceError?_eq_none_iff ts).mp herror)).elim
    | some e => exact Or.inl ⟨Or.inr hbalanced, e, by rw [parse, herror]⟩

/-- From every state and for every binding power, the steps from a call of `expression` lead to its end,
where no step is left to take, and there are at most eight for each token that is taken.  The call gives
back the depth as it found it and takes tokens from the front; if it ends with a tree, it has taken at
least one, and the next one binds no more tightly than the binding power.  So a sequence is parsed by at
most eight steps for each of its tokens, whatever the limit, if any step is needed at all. -/
theorem expression_progresses :
    (∀ (f : Frame) (power : Nat) (s : State),
      ∃ r after n, (expression f power s).result = r ∧ (expression f power s).after = after ∧
        StepsIn f n [activate f (.expression power) s] [⟨.expression power, .ends r after⟩] ∧
        advance? f [⟨.expression power, .ends r after⟩] = none ∧
        n + 8 * after.rest.length ≤ 8 * s.rest.length ∧
        after.depth = s.depth ∧ after.rest <:+ s.rest ∧
        ∀ tree, r = .ok tree → (∃ t taken, s.rest = t :: taken ++ after.rest) ∧
          bindingPower (after.peek f).kind ≤ power) ∧
    ∀ (limit : Int) (ts : List Token),
      ((ts = [] ∨ ¬ ParensBalanced ts) ∧ ∃ e, parse limit ts = .error e) ∨
        ∃ n r after, n ≤ 8 * ts.length ∧
          StepsIn ⟨limit, stopOf ts⟩ n [activate ⟨limit, stopOf ts⟩ (.expression 0) ⟨ts, 0⟩]
            [⟨.expression 0, .ends r after⟩] ∧
          parse limit ts = conclude r after := by
  constructor
  · intro f power s
    have hrun := (run_all f).1 power s
    obtain ⟨n, hn, hsteps⟩ := hrun.endsSoon
    refine ⟨_, _, n, rfl, rfl, hsteps [], rfl, hn, hrun.depth_eq, hrun.rest_suffix, ?_⟩
    intro tree htree
    refine ⟨?_, hrun.bindingPower_peek_le rfl htree⟩
    rw [htree] at hrun
    exact hrun.exists_taken
  · intro limit ts
    rcases parse_cases limit ts with hnone | ⟨r, after, hrun, hparse⟩
    · exact Or.inl hnone
    · obtain ⟨n, hn, hsteps⟩ := hrun.endsSoon
      simp only [Call.surplus] at hn
      exact Or.inr ⟨n, r, after, by omega, hsteps [], hparse⟩

end Parser
end Reckon
