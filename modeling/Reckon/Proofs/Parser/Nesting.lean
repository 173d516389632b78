import Reckon.Proofs.Parser.Viability

/-!
# The nesting limit is exact

A phrase is parsed under a limit exactly when it has no more levels of nesting than the limit
allows.  Otherwise the error points at the first token that opens the first level too many.  Levels
are opened one at a time, so that the first token whose level is refused opens the level just above
the limit.

On any sequence of tokens a limited run is an unlimited run until a level is refused: what it does
depends on the limit nowhere else.
-/

namespace Reckon
namespace Grammar

/-- Whether tokens of a kind open a level of nesting. -/
def Opens (kind : TokenKind) : Prop :=
  kind = .parenLeft ∨ kind = .caret
  deriving Decidable

namespace Derivation

variable {c : Category} {m n : Nat}

/-- The tokens that open a level are the opening parentheses and the `^`, in the order of the
phrase. -/
theorem map_fst_openings (d : Derivation c) (n : Nat) :
    (d.openings n).map Prod.fst = d.tokens.filter fun t => Opens t.kind := by
  induction d generalizing n with
  | sum left t op ht right ihl ihr =>
    have hkind : ¬ Opens t.kind := by
      generalize t.kind = kind at ht
      cases ht <;> decide
    simp [openings, tokens, ihl, ihr, hkind]
  | ofProduct d ih => exact ih n
  | product left t op ht right ihl ihr =>
    have hkind : ¬ Opens t.kind := by
      generalize t.kind = kind at ht
      cases ht <;> decide
    simp [openings, tokens, ihl, ihr, hkind]
  | ofPower d ih => exact ih n
  | power base t ht exponent ihb ihe =>
    simp [openings, tokens, ihb, ihe, Opens, ht]
  | ofAtom d ih => exact ih n
  | group opening ho inner closing hc ih => simp [openings, tokens, ih, Opens, ho, hc]
  | number t ht => simp [openings, tokens, Opens, ht]

/-- A phrase opens no level above the last of its levels. -/
theorem forall_openings_le_iff (d : Derivation c) (hn : n ≤ m) :
    (∀ o ∈ d.openings n, o.2 ≤ m) ↔ n + d.level ≤ m := by
  induction d generalizing n with
  | sum left t op ht right ihl ihr =>
    simp only [openings, level, List.forall_mem_append, ihl hn, ihr hn]
    omega
  | ofProduct d ih => exact ih hn
  | product left t op ht right ihl ihr =>
    simp only [openings, level, List.forall_mem_append, ihl hn, ihr hn]
    omega
  | ofPower d ih => exact ih hn
  | power base t ht exponent ihb ihe =>
    simp only [openings, level, List.forall_mem_append, List.forall_mem_cons, ihb hn]
    by_cases hlt : n + 1 ≤ m
    · rw [ihe hlt]
      omega
    · omega
  | ofAtom d ih => exact ih hn
  | group opening ho inner closing hc ih =>
    simp only [openings, level, List.forall_mem_cons]
    by_cases hlt : n + 1 ≤ m
    · rw [ih hlt]
      omega
    · omega
  | number t ht => simpa [openings, level] using hn

/-- The search goes on behind a token that opens the level `n + 1` when this is not above `m`. -/
theorem find?_cons_opening {t : Token} {tail : List (Token × Nat)} (hn : n ≤ m)
    (htail : n + 1 ≤ m → tail.find? (fun o => decide (m + 1 ≤ o.2)) =
      tail.find? (fun o => decide (o.2 = m + 1))) :
    ((t, n + 1) :: tail).find? (fun o => decide (m + 1 ≤ o.2)) =
      ((t, n + 1) :: tail).find? (fun o => decide (o.2 = m + 1)) := by
  by_cases heq : n = m
  · simp [heq]
  · have hlt : n + 1 ≤ m := by omega
    rw [List.find?_cons_of_neg, List.find?_cons_of_neg, htail hlt]
    · simpa using heq
    · simp only [decide_eq_true_eq]
      omega

/-- The first token that opens a level above `m` opens the level `m + 1`. -/
theorem find?_openings (d : Derivation c) (hn : n ≤ m) :
    (d.openings n).find? (fun o => decide (m + 1 ≤ o.2)) =
      (d.openings n).find? (fun o => decide (o.2 = m + 1)) := by
  induction d generalizing n with
  | sum left t op ht right ihl ihr =>
    rw [openings, List.find?_append, List.find?_append, ihl hn, ihr hn]
  | ofProduct d ih => exact ih hn
  | product left t op ht right ihl ihr =>
    rw [openings, List.find?_append, List.find?_append, ihl hn, ihr hn]
  | ofPower d ih => exact ih hn
  | power base t ht exponent ihb ihe =>
    rw [openings, List.find?_append, List.find?_append, ihb hn, find?_cons_opening hn ihe]
  | ofAtom d ih => exact ih hn
  | group opening ho inner closing hc ih => exact find?_cons_opening hn ih
  | number t ht => rfl

end Derivation
end Grammar

namespace Parser

open Grammar

/-! ## Phrases under a limit -/

theorem refusesOpening_eq {m : Nat} (hm : 1 ≤ m) (stop : Int) :
    Frame.refusesOpening ⟨m, stop⟩ = fun o : Token × Nat => decide (m + 1 ≤ o.2) := by
  funext o
  simp only [Frame.refusesOpening, Frame.refuses]
  rw [← Bool.decide_and]
  exact decide_eq_decide.mpr (by omega)

/-- A phrase is parsed when it has no more levels than the limit. -/
theorem parse_of_level_le {m : Nat} (hm : 1 ≤ m) (d : Derivation .sum) (hlevel : d.level ≤ m) :
    parse m d.tokens = .ok d.tree := by
  have hle := (d.forall_openings_le_iff (Nat.zero_le m)).mpr (by omega)
  apply parse_of_derivation
  intro o ho
  have := hle o ho
  rw [refusesOpening_eq hm]
  exact decide_eq_false (by omega)

/-- A phrase with more levels than the limit is refused at the first token that opens the first
level too many. -/
theorem parse_of_lt_level {m : Nat} (hm : 1 ≤ m) (d : Derivation .sum) (hlevel : m < d.level) :
    ∃ o, (d.openings 0).find? (fun o => decide (o.2 = m + 1)) = some o ∧
      parse m d.tokens = .error (malformed o.1.pos (.tooDeep m)) := by
  have hsome : ∃ o, (d.openings 0).find? (fun o => decide (o.2 = m + 1)) = some o := by
    rw [← d.find?_openings (Nat.zero_le m), ← Option.isSome_iff_exists, List.find?_isSome]
    have hnot : ¬ ∀ o ∈ d.openings 0, o.2 ≤ m := by
      rw [d.forall_openings_le_iff (Nat.zero_le m)]
      omega
    obtain ⟨o, ho⟩ := Classical.not_forall.mp hnot
    obtain ⟨hmem, hlt⟩ := Classical.not_imp.mp ho
    exact ⟨o, hmem, decide_eq_true (by omega)⟩
  obtain ⟨o, ho⟩ := hsome
  refine ⟨o, ho, ?_⟩
  have hrefused : (d.openings 0).find? (Frame.refusesOpening ⟨m, stopOf d.tokens⟩) = some o := by
    rw [refusesOpening_eq hm, d.find?_openings (Nat.zero_le m), ho]
  obtain ⟨after, hrun⟩ : ∃ after,
      Run ⟨m, stopOf d.tokens⟩ (.expression 0) ⟨d.tokens ++ [], (0 : Nat)⟩
        (.error (tooDeep ⟨m, stopOf d.tokens⟩ o.1)) after :=
    run_of_refused d hrefused (Nat.zero_le _)
  rw [List.append_nil] at hrun
  exact parse_eq_conclude d.tokens_ne_nil d.balanced_tokens hrun

/-! ## Any sequence under a limit -/

/-- The end of the sequence is the same under every limit. -/
theorem peek_of_stop_eq {f g : Frame} (h : g.stop = f.stop) (s : State) : s.peek g = s.peek f := by
  rw [State.peek, State.peek, Frame.finish, Frame.finish, h]

/-- The result of a run is the error of a refused level. -/
def Refused (r : Except ParseError Expr) : Prop :=
  ∃ e, r = .error e ∧ e.reason.isDepth = true

theorem not_refused_ok (tree : Expr) : ¬ Refused (.ok tree) := by
  rintro ⟨e, h, -⟩
  cases h

/-- A run in which no level is refused is also a run without a limit. -/
theorem Run.unlimited {f g : Frame} {call : Call} {s after : State} {r : Except ParseError Expr}
    (h : Run f call s r after) (hlimit : g.limit ≤ 0) (hstop : g.stop = f.stop) :
    Refused r ∨ Run g call s r after := by
  -- A part that ended with a tree was not refused, so that its run carries over.
  have hpeek := peek_of_stop_eq hstop
  have hroom := refuses_of_limit_le hlimit
  induction h with
  | missing hnumber hparen =>
    right
    rw [← hpeek] at hnumber hparen ⊢
    exact .missing hnumber hparen
  | number ht _ ih => exact ih.imp_right (.number ht)
  | grouped ht _ _ ihgroup ihclimb =>
    have hgroup := ihgroup.resolve_left (not_refused_ok _)
    exact ihclimb.imp_right (.grouped ht hgroup)
  | groupedFailed ht _ ih => exact ih.imp_right (.groupedFailed ht)
  | group _ _ ih => exact ih.imp_right (.group (hroom _))
  | groupRefused => exact Or.inl ⟨_, rfl, rfl⟩
  | empty hclose =>
    right
    rw [← hpeek] at hclose ⊢
    exact .empty hclose
  | closed hopen _ hclose ih =>
    have hinner := ih.resolve_left (not_refused_ok _)
    rw [← hpeek] at hopen hclose
    exact Or.inr (.closed hopen hinner hclose)
  | unclosed hopen _ hclose ih =>
    have hinner := ih.resolve_left (not_refused_ok _)
    rw [← hpeek] at hopen hclose ⊢
    exact Or.inr (.unclosed hopen hinner hclose)
  | enclosedFailed hopen _ ih =>
    rw [← hpeek] at hopen
    exact ih.imp_right (.enclosedFailed hopen)
  | operand ht _ ih => exact ih.imp_right (.operand ht)
  | exponent ht _ _ ih => exact ih.imp_right (.exponent ht (hroom _))
  | exponentRefused => exact Or.inl ⟨_, rfl, rfl⟩
  | done hpower =>
    rw [← hpeek] at hpower
    exact Or.inr (.done hpower)
  | applied hlt hop _ _ ihright ihclimb =>
    have hright := ihright.resolve_left (not_refused_ok _)
    exact ihclimb.imp_right (.applied hlt hop hright)
  | appliedFailed hlt hop _ ih => exact ih.imp_right (.appliedFailed hlt hop)

/-- The error of unbalanced parentheses is not about the nesting limit. -/
theorem isDepth_of_balanceError? {ts : List Token} {e : ParseError}
    (h : balanceError? ts = some e) : e.reason.isDepth = false := by
  unfold balanceError? at h
  dsimp only at h
  split at h
  · cases h
  · cases h
    dsimp only
    split <;> rfl

/-- What becomes of a sequence on which no run takes place does not depend on the limit. -/
theorem parse_of_no_run {ts : List Token} (h : ts = [] ∨ ¬ ParensBalanced ts) :
    ∃ e, e.reason.isDepth = false ∧ ∀ limit, parse limit ts = .error e := by
  rcases h with rfl | hunbalanced
  · exact ⟨malformed (stopOf []) .emptyExpression, rfl, fun _ => rfl⟩
  · rw [← balanceError?_eq_none_iff] at hunbalanced
    obtain ⟨e, he⟩ := Option.ne_none_iff_exists'.mp hunbalanced
    exact ⟨e, isDepth_of_balanceError? he, fun _ => by simp [parse, he]⟩

/-- A limited parse in which no level is refused is the unlimited one. -/
theorem parse_unlimited (limit : Int) (ts : List Token) :
    parse limit ts = parse 0 ts ∨ Refused (parse limit ts) := by
  by_cases h : ts = [] ∨ ¬ ParensBalanced ts
  · obtain ⟨e, -, he⟩ := parse_of_no_run h
    exact Or.inl ((he limit).trans (he 0).symm)
  · obtain ⟨hne, hbalanced⟩ : ts ≠ [] ∧ ParensBalanced ts := by simpa [not_or] using h
    obtain ⟨r, after, hrun⟩ := exists_run ⟨limit, stopOf ts⟩ 0 ⟨ts, 0⟩
    rw [parse_eq_conclude hne hbalanced hrun]
    rcases hrun.unlimited (g := ⟨0, stopOf ts⟩) (Int.le_refl 0) rfl with ⟨e, he, hdepth⟩ | hrun'
    · rw [he]
      exact Or.inr ⟨e, rfl, hdepth⟩
    · exact Or.inl (parse_eq_conclude hne hbalanced hrun').symm

/-- Without a limit no level is refused. -/
theorem not_refused_parse {limit : Int} (hlimit : limit ≤ 0) (ts : List Token) :
    ¬ Refused (parse limit ts) := by
  rintro ⟨e, he, hdepth⟩
  by_cases h : ts = [] ∨ ¬ ParensBalanced ts
  · obtain ⟨e', hnot, he'⟩ := parse_of_no_run h
    cases (he' limit).symm.trans he
    simp [hnot] at hdepth
  · obtain ⟨hne, hbalanced⟩ : ts ≠ [] ∧ ParensBalanced ts := by simpa [not_or] using h
    obtain ⟨r, after, hrun⟩ := exists_run ⟨limit, stopOf ts⟩ 0 ⟨ts, 0⟩
    rw [parse_eq_conclude hne hbalanced hrun] at he
    unfold conclude at he
    split at he
    · cases he
      simp [(hrun.error_at_peek hlimit).2.2] at hdepth
    · cases he
    · cases he
      simp [malformed, ParseReason.isDepth] at hdepth

/-- A phrase is parsed under a limit as without one when it has no more levels than the limit, and
otherwise it is refused at the first of its opening parentheses and `^` that opens the first level
too many.  Any sequence is treated under a limit as without one unless a level is refused, and a
limit of zero or less refuses none. -/
theorem parse_limit_exact (limit : Int) :
    (∀ d : Derivation .sum, 1 ≤ limit →
      (d.level ≤ limit → parse limit d.tokens = .ok d.tree ∧ parse 0 d.tokens = .ok d.tree) ∧
      (limit < d.level → ∃ o e,
        (d.openings 0).map Prod.fst = d.tokens.filter (fun t => Opens t.kind) ∧
        (d.openings 0).find? (fun o => decide (o.2 = limit + 1)) = some o ∧
        parse limit d.tokens = .error e ∧ e.reason.isDepth = true ∧ e.index = o.1.pos)) ∧
    (∀ ts, parse limit ts = parse 0 ts ∨
      ∃ e, parse limit ts = .error e ∧ e.reason.isDepth = true) ∧
    (limit ≤ 0 → ∀ ts e, parse limit ts = .error e → e.reason.isDepth = false) := by
  refine ⟨?_, parse_unlimited limit, ?_⟩
  · intro d hpos
    obtain ⟨m, rfl⟩ := Int.eq_ofNat_of_zero_le (show 0 ≤ limit by omega)
    have hm : 1 ≤ m := by omega
    constructor
    · intro hlevel
      refine ⟨parse_of_level_le hm d (by omega), ?_⟩
      exact parse_of_derivation d fun o _ => refuses_of_limit_le (Int.le_refl 0) _
    · intro hlevel
      obtain ⟨o, ho, hparse⟩ := parse_of_lt_level hm d (by omega)
      refine ⟨o, _, d.map_fst_openings 0, ?_, hparse, rfl, rfl⟩
      rw [← ho]
      congr 1
      funext o
      exact decide_eq_decide.mpr (by omega)
  · intro hlimit ts e he
    rw [← Bool.not_eq_true]
    intro hdepth
    exact not_refused_parse hlimit ts ⟨e, he, hdepth⟩

/-- Of two nested powers the second is refused when one level is allowed. -/
theorem parse_limit_exact_of_powers :
    ∃ e, parse 1 [Token.make .number [50] 0, Token.make .caret [94] 1, Token.make .number [51] 2,
        Token.make .caret [94] 3, Token.make .number [52] 4] = .error e ∧
      e.reason.isDepth = true ∧ e.index = 3 := by
  let inner : Derivation .power :=
    .power (.number (Token.make .number [51] 2) rfl) (Token.make .caret [94] 3) rfl
      (.ofAtom (.number (Token.make .number [52] 4) rfl))
  let d : Derivation .sum := .ofProduct (.ofPower
    (.power (.number (Token.make .number [50] 0) rfl) (Token.make .caret [94] 1) rfl inner))
  have hlevel : (1 : Int) < d.level := by decide
  obtain ⟨o, e, -, ho, hparse, hdepth, hindex⟩ :=
    ((parse_limit_exact 1).1 d (Int.le_refl 1)).2 hlevel
  have hopening : (d.openings 0).find? (fun o => decide ((o.2 : Int) = 1 + 1)) =
      some (Token.make .caret [94] 3, 2) := rfl
  cases hopening.symm.trans ho
  exact ⟨e, hparse, hdepth, hindex⟩

end Parser
end Reckon
