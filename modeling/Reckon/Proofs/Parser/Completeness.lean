import Reckon.Proofs.Parser.Account

/-!
# Phrases are parsed

A phrase in front of other tokens is read as a whole when the nesting limit leaves room for all the
levels it opens and the token after it binds no more tightly than an operator that may follow it.
What is left to do is then to climb from the tree of the phrase.  The statement is about whatever
comes after the phrase, so that the induction on its derivation reads one part after the other.

When there is no room, the run ends at the first token that opens a level too many.
-/

namespace Reckon
namespace Parser

open Grammar

variable {f : Frame} {c : Category} {rest : List Token} {n power : Nat}
variable {r : Except ParseError Expr} {after : State}

/-- Whether the level that a token opens is refused. -/
def Frame.refusesOpening (f : Frame) (o : Token × Nat) : Bool :=
  f.refuses ((o.2 : Int) - 1)

theorem refuses_of_limit_le (h : f.limit ≤ 0) (depth : Int) : f.refuses depth = false := by
  simp only [Frame.refuses, Bool.and_eq_false_imp, decide_eq_true_eq]
  omega

theorem refusesOpening_succ (f : Frame) (t : Token) (n : Nat) :
    f.refusesOpening (t, n + 1) = f.refuses n := by
  simp [Frame.refusesOpening]

theorem unnest_succ (ts : List Token) (n : Nat) :
    State.unnest ⟨ts, (n + 1 : Nat)⟩ = ⟨ts, n⟩ := by
  simp [State.unnest]

/-- A phrase begins with a literal or an opening parenthesis. -/
theorem exists_tokens_eq_cons (d : Derivation c) :
    ∃ t ts, d.tokens = t :: ts ∧ (t.kind = .number ∨ t.kind = .parenLeft) := by
  induction d with
  | sum left t op ht right ihl ihr =>
    obtain ⟨t', ts, htokens, hkind⟩ := ihl
    exact ⟨t', ts ++ t :: right.tokens, by simp [Derivation.tokens, htokens], hkind⟩
  | ofProduct d ih => exact ih
  | product left t op ht right ihl ihr =>
    obtain ⟨t', ts, htokens, hkind⟩ := ihl
    exact ⟨t', ts ++ t :: right.tokens, by simp [Derivation.tokens, htokens], hkind⟩
  | ofPower d ih => exact ih
  | power base t ht exponent ihb ihe =>
    obtain ⟨t', ts, htokens, hkind⟩ := ihb
    exact ⟨t', ts ++ t :: exponent.tokens, by simp [Derivation.tokens, htokens], hkind⟩
  | ofAtom d ih => exact ih
  | group opening ho inner closing hc ih =>
    exact ⟨opening, inner.tokens ++ [closing], rfl, Or.inr ho⟩
  | number t ht => exact ⟨t, [], rfl, Or.inl ht⟩

theorem kind_peek_ne_parenRight (d : Derivation c) (rest : List Token) (depth : Int) :
    (State.peek ⟨d.tokens ++ rest, depth⟩ f).kind ≠ .parenRight := by
  obtain ⟨t, ts, htokens, ht⟩ := exists_tokens_eq_cons d
  rcases ht with ht | ht
  · simp [State.peek, htokens, ht]
  · simp [State.peek, htokens, ht]

theorem additive_power {kind : TokenKind} {op : Operation} (h : Additive kind op) :
    operation? kind = some op ∧ bindingPower kind = 1 ∧ kind ≠ .caret := by
  cases h <;> simp [operation?, bindingPower]

theorem multiplicative_power {kind : TokenKind} {op : Operation} (h : Multiplicative kind op) :
    operation? kind = some op ∧ bindingPower kind = 2 ∧ kind ≠ .caret := by
  cases h <;> simp [operation?, bindingPower]

/-- A phrase is read as a whole when there is room for the levels it opens. -/
theorem run_of_derivation (d : Derivation c)
    (hroom : ∀ o ∈ d.openings n, f.refusesOpening o = false) (hrank : power ≤ c.rank)
    (hbound : bindingPower (State.peek ⟨rest, n⟩ f).kind ≤ c.bound)
    (hclimb : Run f (.climb power d.tree) ⟨rest, n⟩ r after) :
    Run f (.expression power) ⟨d.tokens ++ rest, n⟩ r after := by
  -- A left operand is read with what follows it still to be climbed, a right one by itself.
  induction d generalizing rest n power r after with
  | sum left t op ht right ihl ihr =>
    obtain ⟨hop, hbind, hcaret⟩ := additive_power ht
    obtain rfl : power = 0 := by simpa [Category.rank] using hrank
    simp only [Derivation.openings, List.mem_append] at hroom
    simp only [Derivation.tokens, List.append_assoc, List.cons_append]
    have hright : Run f (.operand t) ⟨right.tokens ++ rest, n⟩ (.ok right.tree) ⟨rest, n⟩ := by
      refine .operand hcaret ?_
      rw [hbind]
      exact ihr (fun o ho => hroom o (Or.inr ho)) (by decide)
        (Nat.le_trans hbound (by decide)) (.done hbound)
    refine ihl (fun o ho => hroom o (Or.inl ho)) (by decide) ?_ ?_
    · simp [peek_cons, hbind, Category.bound]
    · exact .applied (by omega) hop hright hclimb
  | ofProduct d ih =>
    exact ih hroom (Nat.le_trans hrank (by decide)) (Nat.le_trans hbound (by decide)) hclimb
  | product left t op ht right ihl ihr =>
    obtain ⟨hop, hbind, hcaret⟩ := multiplicative_power ht
    simp only [Derivation.openings, List.mem_append] at hroom
    simp only [Derivation.tokens, List.append_assoc, List.cons_append]
    have hright : Run f (.operand t) ⟨right.tokens ++ rest, n⟩ (.ok right.tree) ⟨rest, n⟩ := by
      refine .operand hcaret ?_
      rw [hbind]
      exact ihr (fun o ho => hroom o (Or.inr ho)) (by decide) hbound (.done hbound)
    refine ihl (fun o ho => hroom o (Or.inl ho)) hrank ?_ ?_
    · simp [peek_cons, hbind, Category.bound]
    · exact .applied (by rw [hbind]; exact Nat.lt_succ_of_le hrank) hop hright hclimb
  | ofPower d ih => exact ih hroom (Nat.le_trans hrank (by decide)) hbound hclimb
  | power base t ht exponent ihb ihe =>
    simp only [Derivation.openings, List.mem_append, List.mem_cons] at hroom
    simp only [Derivation.tokens, List.append_assoc, List.cons_append]
    have hlevel : f.refuses n = false := by
      rw [← refusesOpening_succ f t n]
      exact hroom _ (Or.inr (Or.inl rfl))
    have hright :
        Run f (.operand t) ⟨exponent.tokens ++ rest, n⟩ (.ok exponent.tree) ⟨rest, n⟩ := by
      have hinner := ihe (fun o ho => hroom o (Or.inr (Or.inr ho))) (Nat.le_refl 2) hbound
        (Run.done hbound)
      rw [← unnest_succ rest]
      refine .exponent ht hlevel ?_
      rw [ht]
      exact hinner
    refine ihb (fun o ho => hroom o (Or.inl ho)) (Nat.le_trans hrank (by decide)) ?_ ?_
    · simp [peek_cons, ht, bindingPower, Category.bound]
    · refine .applied ?_ ?_ hright hclimb
      · rw [ht]
        exact Nat.lt_succ_of_le hrank
      · rw [ht]
        rfl
  | ofAtom d ih =>
    exact ih hroom (Nat.le_trans hrank (by decide)) (Nat.le_trans hbound (by decide)) hclimb
  | group opening ho inner closing hc ih =>
    simp only [Derivation.openings, List.mem_cons] at hroom
    simp only [Derivation.tokens, List.append_assoc, List.cons_append, List.nil_append]
    have hlevel : f.refuses n = false := by
      rw [← refusesOpening_succ f opening n]
      exact hroom _ (Or.inl rfl)
    have hinner : Run f (.expression 0) ⟨inner.tokens ++ closing :: rest, (n + 1 : Nat)⟩
        (.ok inner.tree) ⟨closing :: rest, (n + 1 : Nat)⟩ := by
      have hclosing : bindingPower (State.peek ⟨closing :: rest, (n + 1 : Nat)⟩ f).kind = 0 := by
        simp [peek_cons, hc, bindingPower]
      exact ih (fun o ho => hroom o (Or.inr ho)) (Nat.le_refl 0)
        (by rw [hclosing]; exact Nat.zero_le _) (.done (Nat.le_of_eq hclosing))
    have hgroup : Run f (.group opening) ⟨inner.tokens ++ closing :: rest, n⟩ (.ok inner.tree)
        (State.unnest ⟨rest, (n + 1 : Nat)⟩) :=
      .group hlevel (.closed (kind_peek_ne_parenRight inner _ _) hinner hc)
    rw [unnest_succ] at hgroup
    exact .grouped ho hgroup hclimb
  | number t ht => exact .number ht hclimb

/-- A sum by itself is read to its end when there is room for the levels it opens. -/
theorem run_of_sum (d : Derivation .sum) (hroom : ∀ o ∈ d.openings 0, f.refusesOpening o = false) :
    Run f (.expression 0) ⟨d.tokens, 0⟩ (.ok d.tree) ⟨[], 0⟩ := by
  have hrun : Run f (.expression 0) ⟨d.tokens ++ [], (0 : Nat)⟩ (.ok d.tree) ⟨[], (0 : Nat)⟩ :=
    run_of_derivation d hroom (Nat.le_refl 0) (Nat.zero_le _) (.done (Nat.le_refl 0))
  rwa [List.append_nil] at hrun

/-- A phrase is read up to an operator whose right operand fails. -/
theorem run_of_operand_failed {t : Token} {op : Operation} {ts : List Token} {e : ParseError}
    (left : Derivation c) (hroom : (left.openings n).find? f.refusesOpening = none)
    (hrank : power ≤ c.rank) (hbound : bindingPower t.kind ≤ c.bound)
    (hlt : power < bindingPower t.kind) (hop : operation? t.kind = some op)
    (hright : Run f (.operand t) ⟨ts, n⟩ (.error e) after) :
    Run f (.expression power) ⟨left.tokens ++ t :: ts, n⟩ (.error e) after := by
  refine run_of_derivation left ?_ hrank hbound (.appliedFailed hlt hop hright)
  intro o ho
  exact Bool.eq_false_iff.mpr (List.find?_eq_none.mp hroom o ho)

/-- A phrase that opens a level too many is refused at the first token that does. -/
theorem run_of_refused {o : Token × Nat} (d : Derivation c)
    (hrefused : (d.openings n).find? f.refusesOpening = some o) (hrank : power ≤ c.rank) :
    ∃ after, Run f (.expression power) ⟨d.tokens ++ rest, n⟩ (.error (tooDeep f o.1)) after := by
  induction d generalizing rest n power with
  | sum left t op ht right ihl ihr =>
    obtain ⟨hop, hbind, hcaret⟩ := additive_power ht
    simp only [Derivation.openings, List.find?_append, Option.or_eq_some_iff] at hrefused
    simp only [Derivation.tokens, List.append_assoc, List.cons_append]
    rcases hrefused with hleft | ⟨hleft, hright⟩
    · exact ihl hleft hrank
    · obtain ⟨after, hrun⟩ := ihr hright (Nat.le_refl 1)
      exact ⟨after, run_of_operand_failed left hleft hrank (Nat.le_of_eq hbind)
        (by rw [hbind]; exact Nat.lt_succ_of_le hrank) hop (.operand hcaret (hbind ▸ hrun))⟩
  | ofProduct d ih => exact ih hrefused (Nat.le_trans hrank (by decide))
  | product left t op ht right ihl ihr =>
    obtain ⟨hop, hbind, hcaret⟩ := multiplicative_power ht
    simp only [Derivation.openings, List.find?_append, Option.or_eq_some_iff] at hrefused
    simp only [Derivation.tokens, List.append_assoc, List.cons_append]
    rcases hrefused with hleft | ⟨hleft, hright⟩
    · exact ihl hleft hrank
    · obtain ⟨after, hrun⟩ := ihr hright (Nat.le_refl 2)
      exact ⟨after, run_of_operand_failed left hleft hrank (Nat.le_of_eq hbind)
        (by rw [hbind]; exact Nat.lt_succ_of_le hrank) hop (.operand hcaret (hbind ▸ hrun))⟩
  | ofPower d ih => exact ih hrefused (Nat.le_trans hrank (by decide))
  | power base t ht exponent ihb ihe =>
    have hbind : bindingPower t.kind = 3 := by rw [ht]; rfl
    have hop : operation? t.kind = some .exponent := by rw [ht]; rfl
    simp only [Derivation.openings, List.find?_append, Option.or_eq_some_iff] at hrefused
    simp only [Derivation.tokens, List.append_assoc, List.cons_append]
    rcases hrefused with hbase | ⟨hbase, hright⟩
    · exact ihb hbase (Nat.le_trans hrank (by decide))
    · have hfailed : ∃ after,
          Run f (.operand t) ⟨exponent.tokens ++ rest, n⟩ (.error (tooDeep f o.1)) after := by
        rw [List.find?_cons, refusesOpening_succ] at hright
        cases hlevel : f.refuses n with
        | true =>
          simp only [hlevel, Option.some.injEq] at hright
          subst hright
          exact ⟨_, .exponentRefused ht hlevel⟩
        | false =>
          simp only [hlevel] at hright
          obtain ⟨after, hrun⟩ := ihe hright (Nat.le_refl 2)
          exact ⟨_, .exponent ht hlevel (by rw [ht]; exact hrun)⟩
      obtain ⟨after, hrun⟩ := hfailed
      exact ⟨after, run_of_operand_failed base hbase (Nat.le_trans hrank (by decide))
        (Nat.le_of_eq hbind) (by rw [hbind]; exact Nat.lt_succ_of_le hrank) hop hrun⟩
  | ofAtom d ih => exact ih hrefused (Nat.le_trans hrank (by decide))
  | group opening ho inner closing hc ih =>
    simp only [Derivation.openings, List.find?_cons, refusesOpening_succ] at hrefused
    simp only [Derivation.tokens, List.append_assoc, List.cons_append, List.nil_append]
    cases hlevel : f.refuses n with
    | true =>
      simp only [hlevel, Option.some.injEq] at hrefused
      subst hrefused
      exact ⟨_, .groupedFailed ho (.groupRefused hlevel)⟩
    | false =>
      simp only [hlevel] at hrefused
      obtain ⟨after, hrun⟩ := ih hrefused (Nat.le_refl 0)
      exact ⟨_, .groupedFailed ho
        (.group hlevel (.enclosedFailed (kind_peek_ne_parenRight inner _ _) hrun))⟩
  | number t ht => simp [Derivation.openings] at hrefused

end Parser
end Reckon
