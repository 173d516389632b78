import Reckon.Proofs.Parser.Recognition

/-!
# Errors are found at the earliest token

A sequence of tokens is viable when it is the beginning of a sum.  A run that ends at a token has
looked at this token and at those in front of it, and at nothing else: on any other sequence that
begins in the same way it ends in the same way.  The tokens it took are viable, because they are
accounted for; together with the token at which it ended they are not, because a sum is read to its
end.  So the run ends at the first token that no sum can have there, or at the end of the sequence.
-/

namespace Reckon
namespace Grammar

/-- A sequence of tokens is the beginning of a sum. -/
def Viable (ts : List Token) : Prop :=
  ∃ d : Derivation .sum, ts <+: d.tokens

theorem Viable.shorten {ts us : List Token} (h : Viable us) (hbegin : ts <+: us) :
    Viable ts := by
  obtain ⟨d, hd⟩ := h
  exact ⟨d, hbegin.trans hd⟩

/-- The token at index `i` is the first one with which the sequence up to it is not viable. -/
def FirstDeadEnd (ts : List Token) (i : Nat) : Prop :=
  ¬ Viable (ts.take (i + 1)) ∧ ∀ j < i, Viable (ts.take (j + 1))

end Grammar

namespace Parser

open Grammar

/-! ## A run looks no further than the token at which it ends -/

theorem peek_of_head? {f : Frame} {s : State} {t : Token} (h : s.rest.head? = some t) :
    s.peek f = t := by
  rw [State.peek, h]
  rfl

theorem refuses_of_limit_eq {f g : Frame} (h : g.limit = f.limit) (depth : Int) :
    g.refuses depth = f.refuses depth := by
  rw [Frame.refuses, Frame.refuses, h]

/-- Sequences that begin with the same token do so behind the same tokens. -/
theorem exists_head?_append {rest rest' : List Token} {t : Token} (taken : List Token)
    (h : rest.head? = some t) (h' : rest'.head? = some t) :
    ∃ t', (taken ++ rest).head? = some t' ∧ (taken ++ rest').head? = some t' := by
  cases taken with
  | nil => exact ⟨t, h, h'⟩
  | cons t' taken => exact ⟨t', rfl, rfl⟩

/-- A state looks at the same token after what stands behind that token was replaced. -/
theorem peek_replace {f : Frame} {s : State} {rest rest' : List Token} {t : Token}
    (g : Frame) (taken : List Token) (hs : s.rest = taken ++ rest) (h : rest.head? = some t)
    (h' : rest'.head? = some t) : State.peek ⟨taken ++ rest', s.depth⟩ g = s.peek f := by
  obtain ⟨t', ht, ht'⟩ := exists_head?_append taken h h'
  rw [peek_of_head? (s := ⟨taken ++ rest', s.depth⟩) ht', peek_of_head? (hs ▸ ht)]

/-- A run that does not end at the end of the sequence ends in the same way on every sequence with
the same tokens up to the one at which it ended. -/
theorem Run.replay {f : Frame} {call : Call} {s after : State} {r : Except ParseError Expr}
    (h : Run f call s r after) :
    ∃ taken, s.rest = taken ++ after.rest ∧
      ∀ (g : Frame) (t : Token) (rest : List Token), g.limit = f.limit →
        after.rest.head? = some t → rest.head? = some t →
        Run g call ⟨taken ++ rest, s.depth⟩ r ⟨rest, after.depth⟩ := by
  -- Where a run has two parts, the first ends at a token of the second or at the last one.
  induction h with
  | @missing power s hnumber hparen =>
    refine ⟨[], rfl, fun g t rest hlimit hafter hrest => ?_⟩
    have hsame := peek_replace (f := f) (s := s) g [] rfl hafter hrest
    rw [← hsame] at hnumber hparen ⊢
    exact .missing hnumber hparen
  | @number power t₀ ts depth r after ht hclimb ih =>
    obtain ⟨taken, hs, ih⟩ := ih
    refine ⟨t₀ :: taken, by simpa using hs, fun g t rest hlimit hafter hrest => ?_⟩
    exact .number ht (ih g t rest hlimit hafter hrest)
  | @grouped power t₀ ts depth inner r mid after ht hgroup hclimb ihgroup ihclimb =>
    obtain ⟨taken₁, hs₁, ih₁⟩ := ihgroup
    obtain ⟨taken₂, hs₂, ih₂⟩ := ihclimb
    refine ⟨t₀ :: taken₁ ++ taken₂, by simpa [← hs₂] using hs₁, ?_⟩
    intro g t rest hlimit hafter hrest
    obtain ⟨t₁, hmid, hmid'⟩ := exists_head?_append taken₂ hafter hrest
    rw [← hs₂] at hmid
    simp only [List.cons_append, List.append_assoc]
    exact .grouped ht (ih₁ g t₁ _ hlimit hmid hmid') (ih₂ g t rest hlimit hafter hrest)
  | @groupedFailed power t₀ ts depth e after ht hgroup ih =>
    obtain ⟨taken, hs, ih⟩ := ih
    refine ⟨t₀ :: taken, by simpa using hs, fun g t rest hlimit hafter hrest => ?_⟩
    exact .groupedFailed ht (ih g t rest hlimit hafter hrest)
  | @group opening s r after hroom hinner ih =>
    obtain ⟨taken, hs, ih⟩ := ih
    refine ⟨taken, hs, fun g t rest hlimit hafter hrest => ?_⟩
    have hroom' : g.refuses s.depth = false := (refuses_of_limit_eq hlimit _).trans hroom
    exact Run.group (s := ⟨taken ++ rest, s.depth⟩) hroom' (ih g t rest hlimit hafter hrest)
  | @groupRefused opening s hfull =>
    refine ⟨[], rfl, fun g t rest hlimit hafter hrest => ?_⟩
    have hfull' : g.refuses s.depth = true := (refuses_of_limit_eq hlimit _).trans hfull
    have herror : tooDeep f opening = tooDeep g opening := by rw [tooDeep, tooDeep, hlimit]
    rw [herror]
    exact .groupRefused hfull'
  | @empty s hclose =>
    refine ⟨[], rfl, fun g t rest hlimit hafter hrest => ?_⟩
    have hsame := peek_replace (f := f) (s := s) g [] rfl hafter hrest
    rw [← hsame] at hclose ⊢
    exact .empty hclose
  | @closed s tree after hopen hinner hclose ih =>
    obtain ⟨taken, hs, ih⟩ := ih
    obtain ⟨ts, hts⟩ := exists_rest_of_peek (by rw [hclose]; decide)
    refine ⟨taken ++ [after.peek f], by simp [hs, State.advance, hts], ?_⟩
    intro g t rest hlimit hafter hrest
    have hhead : after.rest.head? = some (after.peek f) := by rw [hts]; rfl
    have hinner' := ih g (after.peek f) (after.peek f :: rest) hlimit hhead rfl
    rw [← peek_replace g taken hs hhead (rfl : (after.peek f :: rest).head? = _)] at hopen
    simp only [List.append_assoc, List.cons_append, List.nil_append]
    exact .closed hopen hinner' hclose
  | @unclosed s tree after hopen hinner hclose ih =>
    obtain ⟨taken, hs, ih⟩ := ih
    refine ⟨taken, hs, fun g t rest hlimit hafter hrest => ?_⟩
    have hsame := peek_replace (f := f) (s := after) g [] rfl hafter hrest
    rw [← peek_replace g taken hs hafter hrest] at hopen
    rw [← hsame] at hclose ⊢
    exact .unclosed hopen (ih g t rest hlimit hafter hrest) hclose
  | @enclosedFailed s e after hopen hinner ih =>
    obtain ⟨taken, hs, ih⟩ := ih
    refine ⟨taken, hs, fun g t rest hlimit hafter hrest => ?_⟩
    rw [← peek_replace g taken hs hafter hrest] at hopen
    exact .enclosedFailed hopen (ih g t rest hlimit hafter hrest)
  | @operand t₀ s r after ht hright ih =>
    obtain ⟨taken, hs, ih⟩ := ih
    refine ⟨taken, hs, fun g t rest hlimit hafter hrest => ?_⟩
    exact .operand ht (ih g t rest hlimit hafter hrest)
  | @exponent t₀ s r after ht hroom hright ih =>
    obtain ⟨taken, hs, ih⟩ := ih
    refine ⟨taken, hs, fun g t rest hlimit hafter hrest => ?_⟩
    have hroom' : g.refuses s.depth = false := (refuses_of_limit_eq hlimit _).trans hroom
    exact Run.exponent (s := ⟨taken ++ rest, s.depth⟩) ht hroom' (ih g t rest hlimit hafter hrest)
  | @exponentRefused t₀ s ht hfull =>
    refine ⟨[], rfl, fun g t rest hlimit hafter hrest => ?_⟩
    have hfull' : g.refuses s.depth = true := (refuses_of_limit_eq hlimit _).trans hfull
    have herror : tooDeep f t₀ = tooDeep g t₀ := by rw [tooDeep, tooDeep, hlimit]
    rw [herror]
    exact .exponentRefused ht hfull'
  | @done power left s hpower =>
    refine ⟨[], rfl, fun g t rest hlimit hafter hrest => ?_⟩
    have hsame := peek_replace (f := f) (s := s) g [] rfl hafter hrest
    rw [← hsame] at hpower
    exact .done hpower
  | @applied power left right t₀ ts depth op r mid after hlt hop hright hclimb ihright ihclimb =>
    obtain ⟨taken₁, hs₁, ih₁⟩ := ihright
    obtain ⟨taken₂, hs₂, ih₂⟩ := ihclimb
    refine ⟨t₀ :: taken₁ ++ taken₂, by simpa [← hs₂] using hs₁, ?_⟩
    intro g t rest hlimit hafter hrest
    obtain ⟨t₁, hmid, hmid'⟩ := exists_head?_append taken₂ hafter hrest
    rw [← hs₂] at hmid
    simp only [List.cons_append, List.append_assoc]
    exact .applied hlt hop (ih₁ g t₁ _ hlimit hmid hmid') (ih₂ g t rest hlimit hafter hrest)
  | @appliedFailed power left t₀ ts depth op e after hlt hop hright ih =>
    obtain ⟨taken, hs, ih⟩ := ih
    refine ⟨t₀ :: taken, by simpa using hs, fun g t rest hlimit hafter hrest => ?_⟩
    exact .appliedFailed hlt hop (ih g t rest hlimit hafter hrest)

/-! ## Where a run ends -/

/-- Without a limit, an error is about the shape of the expression and points at the token at which
the run ended. -/
theorem Run.error_at_peek {f : Frame} {call : Call} {s after : State} {e : ParseError}
    (hlimit : f.limit ≤ 0) (h : Run f call s (.error e) after) :
    e.kind = .malformedExpression ∧ e.index = (after.peek f).pos ∧ e.reason.isDepth = false := by
  have hroom := refuses_of_limit_le hlimit
  generalize hr : Except.error e = r at h
  induction h with
  | missing =>
    cases hr
    refine ⟨rfl, rfl, ?_⟩
    simp only [unexpected, malformed]
    split <;> rfl
  | groupRefused hfull => simp [hroom] at hfull
  | exponentRefused _ hfull => simp [hroom] at hfull
  | empty => cases hr; exact ⟨rfl, rfl, rfl⟩
  | closed => cases hr
  | unclosed => cases hr; exact ⟨rfl, rfl, rfl⟩
  | done => cases hr
  | number _ _ ih => exact ih hr
  | grouped _ _ _ _ ih => exact ih hr
  | groupedFailed _ _ ih => exact ih hr
  | group _ _ ih => exact ih hr
  | enclosedFailed _ _ ih => exact ih hr
  | operand _ _ ih => exact ih hr
  | exponent _ _ _ ih => exact ih hr
  | applied _ _ _ _ _ ih => exact ih hr
  | appliedFailed _ _ _ ih => exact ih hr

/-- Without a limit, a run takes a viable sequence of tokens, and one that is no longer viable with
the token at which it ended. -/
theorem Run.exists_viable {stop : Int} {ts : List Token} {r : Except ParseError Expr}
    {after : State} (h : Run ⟨0, stop⟩ (.expression 0) ⟨ts, 0⟩ r after) :
    ∃ taken, ts = taken ++ after.rest ∧ Viable taken ∧
      ∀ t more, after.rest = t :: more → ¬ Viable (taken ++ [t]) := by
  obtain ⟨taken, hrest, hach⟩ := h.account
  obtain ⟨taken', hrest', hreplay⟩ := h.replay
  obtain rfl : taken = taken' := List.append_cancel_right (hrest.symm.trans hrest')
  refine ⟨taken, hrest, ?_, ?_⟩
  · have hsum : Accounts .sum taken r := (hach (by decide)).1
    cases r with
    | ok tree =>
      obtain ⟨d, rfl, -⟩ := hsum
      exact ⟨d, List.prefix_refl _⟩
    | error e => exact hsum
  · rintro t more hmore ⟨d, more', hd⟩
    -- On the sum that is said to begin so, the run would end at the same token and also at the end.
    have hstopped := hreplay ⟨0, stopOf d.tokens⟩ t (t :: more') rfl (by rw [hmore]; rfl) rfl
    have htokens : taken ++ t :: more' = d.tokens := by simpa using hd
    rw [htokens] at hstopped
    have hread : Run ⟨0, stopOf d.tokens⟩ (.expression 0) ⟨d.tokens, 0⟩ (.ok d.tree) ⟨[], 0⟩ :=
      run_of_sum d fun o _ => refuses_of_limit_le (Int.le_refl 0) _
    have hsame := (hstopped.unique hread).2
    simp at hsame

/-- The first dead end of a sequence whose beginning is viable but not with the token after it. -/
theorem firstDeadEnd_append {taken more : List Token} {t : Token} (hviable : Viable taken)
    (hdead : ¬ Viable (taken ++ [t])) : FirstDeadEnd (taken ++ t :: more) taken.length := by
  constructor
  · simpa [List.take_append, List.take_of_length_le] using hdead
  · intro j hj
    apply hviable.shorten
    rw [List.take_append_of_le_length hj]
    exact List.take_prefix _ _

/-- A rejected sequence ends where it should not or has a dead end, and the error says where. -/
theorem parse_error_cases {ts : List Token} {e : ParseError} (hbalanced : ParensBalanced ts)
    (h : parse 0 ts = .error e) :
    e.kind = .malformedExpression ∧
      ((Viable ts ∧ e.index = stopOf ts) ∨
        ∃ i t, ts[i]? = some t ∧ FirstDeadEnd ts i ∧ e.index = t.pos) := by
  by_cases hne : ts = []
  · subst hne
    obtain ⟨d⟩ := exists_derivation .sum
    cases h
    exact ⟨rfl, Or.inl ⟨⟨d, List.nil_prefix⟩, rfl⟩⟩
  · obtain ⟨r, ⟨rest, depth⟩, hrun⟩ := exists_run ⟨0, stopOf ts⟩ 0 ⟨ts, 0⟩
    rw [parse_eq_conclude hne hbalanced hrun] at h
    obtain ⟨taken, hts, hviable, hdead⟩ := hrun.exists_viable
    -- The dead end when the run ended at a token, whether with an error or with a tree.
    have hat : ∀ t more, rest = t :: more →
        ts[taken.length]? = some t ∧ FirstDeadEnd ts taken.length := by
      intro t more hrest
      simp only [hrest] at hts
      exact ⟨by simp [hts], hts ▸ firstDeadEnd_append hviable (hdead t more hrest)⟩
    cases r with
    | error e' =>
      cases h
      obtain ⟨hkind, hindex, -⟩ := hrun.error_at_peek (Int.le_refl 0)
      refine ⟨hkind, ?_⟩
      cases rest with
      | nil =>
        left
        simp only [List.append_nil] at hts
        exact ⟨hts ▸ hviable, hindex⟩
      | cons t more =>
        obtain ⟨ht, hfirst⟩ := hat t more rfl
        exact Or.inr ⟨taken.length, t, ht, hfirst, hindex⟩
    | ok tree =>
      cases rest with
      | nil => simp [conclude] at h
      | cons t more =>
        cases h
        obtain ⟨ht, hfirst⟩ := hat t more rfl
        exact ⟨rfl, Or.inr ⟨taken.length, t, ht, hfirst, rfl⟩⟩

/-- A sequence with balanced parentheses that is rejected is rejected as malformed, and at the first
token with which it is not the beginning of any sum; a sequence that is the beginning of a sum is
rejected at its end. -/
theorem parse_error_at_firstDeadEnd {ts : List Token} {e : ParseError}
    (hbalanced : ParensBalanced ts) (h : parse 0 ts = .error e) :
    e.kind = .malformedExpression ∧
      (Viable ts → e.index = stopOf ts) ∧
      (¬ Viable ts → ∃ i t, ts[i]? = some t ∧ FirstDeadEnd ts i ∧ e.index = t.pos) := by
  obtain ⟨hkind, hcases⟩ := parse_error_cases hbalanced h
  refine ⟨hkind, ?_, ?_⟩
  · intro hviable
    rcases hcases with ⟨-, hindex⟩ | ⟨i, t, -, hfirst, -⟩
    · exact hindex
    · exact (hfirst.1 (hviable.shorten (List.take_prefix _ _))).elim
  · intro hdead
    rcases hcases with ⟨hviable, -⟩ | hfirst
    · exact (hdead hviable).elim
    · exact hfirst

/-- An operator without its right operand is noticed at the end. -/
theorem parse_error_of_dangling_operator :
    ParensBalanced [Token.make .number [49] 0, Token.make .plus [43] 2] ∧
      ∃ e, parse 0 [Token.make .number [49] 0, Token.make .plus [43] 2] = .error e ∧
        e.kind = .malformedExpression ∧ e.index = 3 := by
  have hbalanced : ParensBalanced [Token.make .number [49] 0, Token.make .plus [43] 2] := by
    simp [ParensBalanced, Token.make]
  have hparse : parse 0 [Token.make .number [49] 0, Token.make .plus [43] 2] =
      .error (malformed 3 .unexpectedEnd) := by
    simp [parse, balanceError?, balance, Balance.step, Token.make, stopOf, Token.stop, expression,
      climb, bindingPower, operation?, operand, unexpected, Frame.finish]
  have hviable : Viable [Token.make .number [49] 0, Token.make .plus [43] 2] := by
    obtain ⟨right⟩ := exists_derivation .product
    exact ⟨.sum (.ofProduct (.ofPower (.ofAtom (.number (Token.make .number [49] 0) rfl))))
      (Token.make .plus [43] 2) .add .plus right, right.tokens, rfl⟩
  obtain ⟨hkind, hend, -⟩ := parse_error_at_firstDeadEnd hbalanced hparse
  exact ⟨hbalanced, _, hparse, hkind, hend hviable⟩

end Parser
end Reckon
