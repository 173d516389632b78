import Reckon.Proofs.Parser.Recognition

/-!
# Where a structural error points

An error of the parser is one of two kinds, and its index is the position of a token of the sequence
or the end of the sequence.  This holds under every limit and for tokens with any positions.

The count of parentheses keeps positions of tokens only.  A run of the parser raises its errors at the
token it looks at, at the end, or at the token that opens a level too many; the last of these was taken
before the call that refuses the level, and so it is named by the call and not by its state.
-/

namespace Reckon
namespace Parser

open Grammar

/-- An index is the position of a token of a sequence. -/
def PositionIn (ts : List Token) (index : Int) : Prop :=
  ∃ t ∈ ts, index = t.pos

theorem PositionIn.mono
    {ts us : List Token} {index : Int} (h : PositionIn ts index) (hsub : ts ⊆ us) :
    PositionIn us index := by
  obtain ⟨t, ht, hindex⟩ := h
  exact ⟨t, hsub ht, hindex⟩

/-! ## Unbalanced parentheses -/

/-- What is known of the count of parentheses in `ts`: its positions are those of tokens, and while
no closing parenthesis was one too many, the excess is the number of open ones. -/
structure Balance.Sound (ts : List Token) (b : Balance) : Prop where
  opens : ∀ index ∈ b.opens, PositionIn ts index
  stray : (b.stray < 0 ∧ b.excess = b.opens.length) ∨ PositionIn ts b.stray

theorem Balance.Sound.step
    {ts : List Token} {b : Balance} {t : Token} (h : b.Sound ts) (ht : t ∈ ts) :
    (b.step t).Sound ts := by
  have hpos : PositionIn ts t.pos := ⟨t, ht, rfl⟩
  unfold Balance.step
  split
  · -- An opening parenthesis.
    constructor
    · exact List.forall_mem_cons.mpr ⟨hpos, h.opens⟩
    · refine h.stray.imp_left ?_
      rintro ⟨hstray, hexcess⟩
      exact ⟨hstray, by simp [hexcess]⟩
  · split
    next last opens hopens =>
      -- A closing parenthesis that closes the last open one.
      constructor
      · intro index hindex
        apply h.opens
        rw [hopens]
        exact List.mem_cons_of_mem _ hindex
      · refine h.stray.imp_left ?_
        rintro ⟨hstray, hexcess⟩
        refine ⟨hstray, ?_⟩
        rw [hopens, List.length_cons] at hexcess
        dsimp only
        omega
    next hopens =>
      -- A closing parenthesis that closes nothing; the first one is noted.
      refine ⟨h.opens, Or.inr ?_⟩
      by_cases hfirst : b.stray < 0
      · simpa [hfirst] using hpos
      · have hstray := h.stray.resolve_left fun hnone => hfirst hnone.1
        simpa [hfirst] using hstray
  · exact h

theorem sound_balance (ts : List Token) : (balance ts).Sound ts := by
  have hstart : Balance.Sound ts ⟨[], -1, 0⟩ := ⟨by simp, Or.inl ⟨by decide, rfl⟩⟩
  exact List.foldlRecOn ts Balance.step hstart fun b hb t ht => hb.step ht

theorem balanceError?_place
    {ts : List Token} {e : ParseError} (h : balanceError? ts = some e) :
    e.kind = .unbalancedParenthesis ∧ PositionIn ts e.index := by
  have hsound := sound_balance ts
  unfold balanceError? at h
  dsimp only at h
  split at h
  · cases h
  next hexcess =>
    cases h
    refine ⟨rfl, ?_⟩
    dsimp only
    split
    next hnone =>
      cases hlast : (balance ts).opens.getLast? with
      | some index =>
        apply hsound.opens
        exact List.mem_of_getLast? hlast
      | none =>
        have hopens : (balance ts).opens = [] := List.getLast?_eq_none_iff.mp hlast
        refine hsound.stray.resolve_left ?_
        rintro ⟨-, heq⟩
        exact hexcess (by simp [heq, hopens])
    next hstray =>
      refine hsound.stray.resolve_left ?_
      rintro ⟨hnone, -⟩
      exact hstray hnone

/-! ## Errors of a run -/

/-- The token for which a call is made. -/
def Call.tokens : Call → List Token
  | .group opening => [opening]
  | .operand t => [t]
  | _ => []

/-- An error about the shape of the expression, at a token of `ts` or at the end. -/
def Misplaced (f : Frame) (ts : List Token) (e : ParseError) : Prop :=
  e.kind = .malformedExpression ∧ (e.index = f.stop ∨ PositionIn ts e.index)

theorem Misplaced.mono
    {f : Frame} {ts us : List Token} {e : ParseError} (h : Misplaced f ts e) (hsub : ts ⊆ us) :
    Misplaced f us e :=
  ⟨h.1, h.2.imp_right fun hpos => hpos.mono hsub⟩

theorem misplaced_peek
    (f : Frame) (s : State) (reason : ParseReason) :
    Misplaced f s.rest (malformed (s.peek f).pos reason) := by
  refine ⟨rfl, ?_⟩
  obtain ⟨rest, depth⟩ := s
  cases rest with
  | nil => exact Or.inl rfl
  | cons t ts => exact Or.inr ⟨t, List.mem_cons_self, rfl⟩

theorem misplaced_tooDeep (f : Frame) (t : Token) : Misplaced f [t] (tooDeep f t) :=
  ⟨rfl, Or.inr ⟨t, List.mem_cons_self, rfl⟩⟩

/-- The tokens that a run leaves over were there before it. -/
theorem Run.rest_subset
    {f : Frame} {call : Call} {s after : State} {r : Except ParseError Expr}
    (h : Run f call s r after) : after.rest ⊆ s.rest := by
  obtain ⟨taken, hrest, -⟩ := h.account
  rw [hrest]
  exact List.subset_append_right _ _

/-- An error of a run points at the token of its call, at a token that was left, or at the end. -/
theorem Run.misplaced
    {f : Frame} {call : Call} {s after : State} {e : ParseError}
    (h : Run f call s (.error e) after) : Misplaced f (call.tokens ++ s.rest) e := by
  generalize hr : Except.error e = r at h
  induction h with
  | missing hnumber hparen =>
    cases hr
    exact misplaced_peek f _ _
  | number ht hclimb ih => exact (ih hr).mono (List.subset_cons_self _ _)
  | @grouped power t ts depth inner r mid after ht hgroup hclimb ihgroup ihclimb =>
    have hsub : mid.rest ⊆ t :: ts := List.subset_cons_of_subset _ hgroup.rest_subset
    exact (ihclimb hr).mono hsub
  | groupedFailed ht hgroup ih => exact ih hr
  | group hroom hinner ih => exact (ih hr).mono (List.subset_cons_self _ _)
  | @groupRefused opening s hfull =>
    cases hr
    exact (misplaced_tooDeep f opening).mono (List.subset_append_left _ _)
  | empty hclose =>
    cases hr
    exact misplaced_peek f _ _
  | closed => cases hr
  | unclosed hopen hinner hclose ih =>
    cases hr
    exact (misplaced_peek f _ _).mono hinner.rest_subset
  | enclosedFailed hopen hinner ih => exact ih hr
  | operand ht hright ih => exact (ih hr).mono (List.subset_cons_self _ _)
  | exponent ht hroom hright ih => exact (ih hr).mono (List.subset_cons_self _ _)
  | @exponentRefused t s ht hfull =>
    cases hr
    exact (misplaced_tooDeep f t).mono (List.subset_append_left _ _)
  | done => cases hr
  | @applied power left right t ts depth op r mid after hlt hop hright hclimb ihright ihclimb =>
    have hsub : mid.rest ⊆ t :: ts := List.subset_cons_of_subset _ hright.rest_subset
    exact (ihclimb hr).mono hsub
  | appliedFailed hlt hop hright ih => exact ih hr

/-- Where the parentheses are balanced, an error is about the shape of the expression. -/
theorem misplaced_of_parse
    {limit : Int} {ts : List Token} {e : ParseError} (hbalanced : ParensBalanced ts)
    (h : parse limit ts = .error e) : Misplaced ⟨limit, stopOf ts⟩ ts e := by
  by_cases hne : ts = []
  · subst hne
    cases h
    exact ⟨rfl, Or.inl rfl⟩
  · obtain ⟨r, after, hrun⟩ := exists_run ⟨limit, stopOf ts⟩ 0 ⟨ts, 0⟩
    rw [parse_eq_conclude hne hbalanced hrun] at h
    unfold conclude at h
    split at h
    · cases h
      exact hrun.misplaced
    · cases h
    next tree t rest depth =>
      cases h
      exact ⟨rfl, Or.inr ⟨t, hrun.rest_subset List.mem_cons_self, rfl⟩⟩

/-- An error of the parser is of one of two kinds and points at a token or at the end. -/
theorem parse_error_place
    {limit : Int} {ts : List Token} {e : ParseError} (h : parse limit ts = .error e) :
    (e.kind = .unbalancedParenthesis ∨ e.kind = .malformedExpression) ∧
      (PositionIn ts e.index ∨ e.index = stopOf ts) := by
  cases hbalance : balanceError? ts with
  | some e' =>
    simp only [parse, hbalance, Except.error.injEq] at h
    subst h
    obtain ⟨hkind, hpos⟩ := balanceError?_place hbalance
    exact ⟨Or.inl hkind, Or.inl hpos⟩
  | none =>
    have hbalanced := (balanceError?_eq_none_iff ts).mp hbalance
    obtain ⟨hkind, hplace⟩ := misplaced_of_parse hbalanced h
    exact ⟨Or.inr hkind, hplace.symm⟩

end Parser
end Reckon
