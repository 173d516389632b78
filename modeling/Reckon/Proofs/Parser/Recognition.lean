import Reckon.Proofs.Parser.Balance
import Reckon.Proofs.Parser.Completeness

/-!
# The parser recognises the grammar

A sequence of tokens is parsed to a tree exactly when the grammar derives it with this tree.  The
tokens are arbitrary: their texts and positions play no part, and a token that is neither a literal,
an operator nor a parenthesis occurs in no phrase.

Soundness holds for every nesting limit.  Completeness needs room for the levels that the phrase
opens, which there always is without a limit.
-/

namespace Reckon
namespace Grammar

/-- A sequence of tokens is a sum with a tree. -/
def Derives (ts : List Token) (tree : Expr) : Prop :=
  ∃ d : Derivation .sum, d.tokens = ts ∧ d.tree = tree

end Grammar

namespace Parser

open Grammar

/-- What becomes of a whole sequence, by how the run on it ended. -/
def conclude : Except ParseError Expr → State → Except ParseError Expr
  | .error e, _ => .error e
  | .ok tree, ⟨[], _⟩ => .ok tree
  | .ok _, ⟨t :: _, _⟩ => .error (malformed t.pos (.trailing t.kind))

/-- A sequence that is not empty and has its parentheses balanced is parsed by a run on it. -/
theorem parse_eq_conclude {limit : Int} {ts : List Token} {r : Except ParseError Expr}
    {after : State} (hne : ts ≠ []) (hbalanced : ParensBalanced ts)
    (h : Run ⟨limit, stopOf ts⟩ (.expression 0) ⟨ts, 0⟩ r after) :
    parse limit ts = conclude r after := by
  have hrun := (run_all ⟨limit, stopOf ts⟩).1 0 ⟨ts, 0⟩
  obtain ⟨rfl, rfl⟩ := h.unique hrun
  rw [parse, (balanceError?_eq_none_iff ts).mpr hbalanced]
  simp only [List.isEmpty_iff, if_neg hne]
  split
  next e after heq => rw [heq]; rfl
  next tree depth hlt heq => rw [heq]; rfl
  next tree t rest depth hlt heq => rw [heq]; rfl

/-- A sequence that is parsed is a sum with the tree it is parsed to, whatever the limit. -/
theorem derives_of_parse {limit : Int} {ts : List Token} {tree : Expr}
    (h : parse limit ts = .ok tree) : Derives ts tree := by
  have hbalanced : ParensBalanced ts := by
    rw [← balanceError?_eq_none_iff]
    cases hb : balanceError? ts with
    | none => rfl
    | some e => simp [parse, hb] at h
  have hne : ts ≠ [] := by
    rintro rfl
    simp [parse, (balanceError?_eq_none_iff _).mpr hbalanced] at h
  obtain ⟨r, after, hrun⟩ := exists_run ⟨limit, stopOf ts⟩ 0 ⟨ts, 0⟩
  rw [parse_eq_conclude hne hbalanced hrun] at h
  obtain ⟨taken, hrest, hach⟩ := hrun.account
  unfold conclude at h
  split at h
  · simp at h
  · cases h
    have hsum : Accounts .sum taken (.ok tree) := (hach (by decide)).1
    obtain ⟨d, rfl, rfl⟩ := hsum
    exact ⟨d, by simpa using hrest.symm, rfl⟩
  · simp at h

/-- A sum is parsed to its tree when there is room for the levels it opens. -/
theorem parse_of_derivation {limit : Int} (d : Derivation .sum)
    (hroom : ∀ o ∈ d.openings 0, Frame.refusesOpening ⟨limit, stopOf d.tokens⟩ o = false) :
    parse limit d.tokens = .ok d.tree :=
  parse_eq_conclude d.tokens_ne_nil d.balanced_tokens (run_of_sum d hroom)

/-- Without a limit a sequence of tokens is parsed to a tree exactly when it is a sum with that
tree; it is a sum with one tree at most, and if it is no sum, parsing it fails. -/
theorem parse_eq_ok_iff_derives (ts : List Token) :
    (∀ tree, parse 0 ts = .ok tree ↔ Derives ts tree) ∧
      (∀ tree tree', Derives ts tree → Derives ts tree' → tree = tree') ∧
      ((¬ ∃ tree, Derives ts tree) → ∃ e, parse 0 ts = .error e) := by
  have hparse : ∀ tree, parse 0 ts = .ok tree ↔ Derives ts tree := by
    intro tree
    constructor
    · exact derives_of_parse
    · rintro ⟨d, rfl, rfl⟩
      exact parse_of_derivation d fun o _ => refuses_of_limit_le (Int.le_refl 0) _
  refine ⟨hparse, ?_, ?_⟩
  · intro tree tree' h h'
    have heq := ((hparse tree).mpr h).symm.trans ((hparse tree').mpr h')
    exact Except.ok.inj heq
  · intro hnone
    cases h : parse 0 ts with
    | error e => exact ⟨e, rfl⟩
    | ok tree => exact (hnone ⟨tree, (hparse tree).mp h⟩).elim

end Parser
end Reckon
