import Reckon.Proofs.Parser.ErrorPlace

/-!
# Parentheses without a counterpart

An opening and a closing parenthesis match if what stands between them is nested, that is if every
parenthesis in there has its counterpart in there too.  A sequence with unequal numbers of opening and
closing parentheses has some that match none, and the parser points at the first of these: at the
first closing one, or at the first opening one if every closing one has its match.

The parser learns this from a stack of open parentheses.  As long as every closing parenthesis was
matched, the tokens read so far are nested pieces with the parentheses of the stack between them, and
the lowest of these is the first that is never closed.
-/

namespace Reckon
namespace Parser

/-- Every parenthesis has its counterpart in the sequence. -/
inductive Nested : List Token → Prop
  | nil : Nested []
  | other {t : Token} (ht : t.kind.isParenthesis = false) : Nested [t]
  | pair {opening closing : Token} {inner : List Token} (hopening : opening.kind = .parenLeft)
      (hinner : Nested inner) (hclosing : closing.kind = .parenRight) :
      Nested (opening :: (inner ++ [closing]))
  | append {ts us : List Token} (hts : Nested ts) (hus : Nested us) : Nested (ts ++ us)

/-- A closing parenthesis right behind `before` matches an opening one in it. -/
def OpensIn (before : List Token) : Prop :=
  ∃ front opening inner,
    before = front ++ opening :: inner ∧ opening.kind = .parenLeft ∧ Nested inner

/-- An opening parenthesis right in front of `after` matches a closing one in it. -/
def ClosesIn (after : List Token) : Prop :=
  ∃ inner closing rest,
    after = inner ++ closing :: rest ∧ closing.kind = .parenRight ∧ Nested inner

/-- A closing parenthesis that matches no opening one. -/
def Stray (before : List Token) (t : Token) (_after : List Token) : Prop :=
  t.kind = .parenRight ∧ ¬ OpensIn before

/-- An opening parenthesis that matches no closing one. -/
def Unclosed (_before : List Token) (t : Token) (after : List Token) : Prop :=
  t.kind = .parenLeft ∧ ¬ ClosesIn after

/-- No token of a sequence has a property, which may speak of what stands before and after it. -/
def Nowhere (P : List Token → Token → List Token → Prop) (ts : List Token) : Prop :=
  ∀ before t after, ts = before ++ t :: after → ¬ P before t after

/-- The first token of a sequence with a property. -/
def First (P : List Token → Token → List Token → Prop) (ts : List Token) (t : Token) : Prop :=
  ∃ before after, ts = before ++ t :: after ∧ P before t after ∧
    Nowhere (fun front t' rest => P front t' (rest ++ t :: after)) before

variable {P Q : List Token → Token → List Token → Prop} {ts us : List Token} {t : Token}

/-! ## Everywhere in a sequence -/

theorem nowhere_nil : Nowhere P [] := by
  intro before t after hsplit
  simp at hsplit

theorem nowhere_singleton (h : ¬ P [] t []) : Nowhere P [t] := by
  intro before t' after hsplit
  cases before with
  | nil =>
    obtain ⟨rfl, rfl⟩ := List.cons.inj hsplit
    exact h
  | cons => simp at hsplit

theorem Nowhere.mono
    (h : Nowhere P ts) (hle : ∀ before t after, Q before t after → P before t after) :
    Nowhere Q ts := by
  intro before t after hsplit hQ
  exact h before t after hsplit (hle before t after hQ)

/-- What holds nowhere in either part holds nowhere in the whole, if each part is seen where it
stands. -/
theorem nowhere_append
    (hts : Nowhere (fun before t after => P before t (after ++ us)) ts)
    (hus : Nowhere (fun before t after => P (ts ++ before) t after) us) :
    Nowhere P (ts ++ us) := by
  intro before t after hsplit
  rcases List.append_eq_append_iff.mp hsplit with ⟨front, rfl, hfront⟩ | ⟨rest, rfl, hrest⟩
  · exact hus front t after hfront
  · cases rest with
    | nil =>
      have hhead := hus [] t after hrest.symm
      simpa using hhead
    | cons t' rest =>
      obtain ⟨rfl, rfl⟩ := List.cons.inj hrest
      exact hts before t rest rfl

/-! ## Nested sequences -/

theorem OpensIn.append_left (h : OpensIn ts) (front : List Token) : OpensIn (front ++ ts) := by
  obtain ⟨front', opening, inner, rfl, hopening, hinner⟩ := h
  exact ⟨front ++ front', opening, inner, by simp, hopening, hinner⟩

theorem ClosesIn.append_right (h : ClosesIn ts) (rest : List Token) : ClosesIn (ts ++ rest) := by
  obtain ⟨inner, closing, rest', rfl, hclosing, hinner⟩ := h
  exact ⟨inner, closing, rest' ++ rest, by simp, hclosing, hinner⟩

theorem Stray.of_append {before after : List Token} (front rest : List Token)
    (h : Stray (front ++ before) t (after ++ rest)) : Stray before t after :=
  ⟨h.1, fun hopens => h.2 (hopens.append_left front)⟩

theorem Unclosed.of_append {before after : List Token} (front rest : List Token)
    (h : Unclosed (front ++ before) t (after ++ rest)) : Unclosed before t after :=
  ⟨h.1, fun hcloses => h.2 (hcloses.append_right rest)⟩

/-- A parenthesis that matches none, whichever way it faces. -/
def Unmatched (before : List Token) (t : Token) (after : List Token) : Prop :=
  Stray before t after ∨ Unclosed before t after

theorem Unmatched.of_append {before after : List Token} (front rest : List Token)
    (h : Unmatched (front ++ before) t (after ++ rest)) : Unmatched before t after :=
  h.imp (Stray.of_append front rest) (Unclosed.of_append front rest)

/-- Every parenthesis of a nested sequence has its match in it. -/
theorem Nested.nowhere_unmatched (h : Nested ts) : Nowhere Unmatched ts := by
  induction h with
  | nil => exact nowhere_nil
  | @other t ht =>
    apply nowhere_singleton
    rintro (⟨hkind, -⟩ | ⟨hkind, -⟩)
    · simp [hkind, TokenKind.isParenthesis] at ht
    · simp [hkind, TokenKind.isParenthesis] at ht
  | @pair opening closing inner hopening hinner hclosing ih =>
    -- The two parentheses match each other, and between them the induction hypothesis applies.
    rw [← List.singleton_append]
    apply nowhere_append
    · apply nowhere_singleton
      rintro (⟨hkind, -⟩ | ⟨-, hcloses⟩)
      · simp [hkind] at hopening
      · exact hcloses ⟨inner, closing, [], rfl, hclosing, hinner⟩
    · apply nowhere_append
      · exact ih.mono fun before t after hunmatched => hunmatched.of_append [opening] [closing]
      · apply nowhere_singleton
        rintro (⟨-, hopens⟩ | ⟨hkind, -⟩)
        · exact hopens ⟨[], opening, inner, by simp, hopening, hinner⟩
        · simp [hkind] at hclosing
  | append hts hus ihts ihus =>
    apply nowhere_append
    · exact ihts.mono fun before t after hunmatched => hunmatched.of_append [] _
    · exact ihus.mono fun before t after hunmatched =>
        Unmatched.of_append _ [] (by simpa using hunmatched)

theorem Nested.nowhere_stray (h : Nested ts) : Nowhere Stray ts :=
  h.nowhere_unmatched.mono fun _ _ _ => Or.inl

theorem Balance.step_of_other (b : Balance) (ht : t.kind.isParenthesis = false) : b.step t = b := by
  unfold Balance.step
  split
  next hkind => simp [hkind, TokenKind.isParenthesis] at ht
  next hkind => simp [hkind, TokenKind.isParenthesis] at ht
  next => rfl

/-- A nested sequence leaves no trace in the count of parentheses. -/
theorem Nested.foldl_step (h : Nested ts) (b : Balance) : ts.foldl Balance.step b = b := by
  induction h generalizing b with
  | nil => rfl
  | other ht => exact b.step_of_other ht
  | pair hopening hinner hclosing ih =>
    rw [List.foldl_cons, List.foldl_append, ih]
    simp [Balance.step, hopening, hclosing]
  | append hts hus ihts ihus => rw [List.foldl_append, ihts, ihus]

/-- No parenthesis of a nested sequence is left open behind it. -/
theorem Nested.not_opensIn (h : Nested ts) : ¬ OpensIn ts := by
  rintro ⟨front, opening, inner, rfl, hopening, hinner⟩
  have hopens := congrArg Balance.opens (h.foldl_step ⟨[], -1, 0⟩)
  rw [List.foldl_append, List.foldl_cons, hinner.foldl_step] at hopens
  simp [Balance.step, hopening] at hopens

/-! ## The stack of open parentheses -/

/-- Nested pieces with open parentheses between them, which form a stack with the latest on top. -/
inductive Stacked : List Token → List Token → Prop
  | nested {ts : List Token} (h : Nested ts) : Stacked ts []
  | opened {ts stack inner : List Token} {opening : Token} (h : Stacked ts stack)
      (hopening : opening.kind = .parenLeft) (hinner : Nested inner) :
      Stacked (ts ++ opening :: inner) (opening :: stack)

namespace Stacked

variable {stack : List Token} {opening : Token}

theorem append (h : Stacked ts stack) (hus : Nested us) : Stacked (ts ++ us) stack := by
  cases h with
  | nested hts => exact .nested (hts.append hus)
  | opened h hopening hinner =>
    rw [List.append_assoc, List.cons_append]
    exact .opened h hopening (hinner.append hus)

/-- A closing parenthesis makes a nested piece of the latest open one and what stands behind it. -/
theorem close
    {closing : Token} (h : Stacked ts (opening :: stack)) (hclosing : closing.kind = .parenRight) :
    Stacked (ts ++ [closing]) stack := by
  cases h with
  | @opened ts _ inner _ h hopening hinner =>
    rw [List.append_assoc, List.cons_append]
    exact h.append (.pair hopening hinner hclosing)

/-- While parentheses are only left open, every closing one has its match. -/
theorem nowhere_stray (h : Stacked ts stack) : Nowhere Stray ts := by
  induction h with
  | nested h => exact h.nowhere_stray
  | @opened ts stack inner opening h hopening hinner ih =>
    apply nowhere_append
    · exact ih.mono fun before t after hstray => ⟨hstray.1, hstray.2⟩
    · rw [← List.singleton_append]
      apply nowhere_append
      · apply nowhere_singleton
        rintro ⟨hkind, -⟩
        simp [hkind] at hopening
      · exact hinner.nowhere_stray.mono fun before t after hstray =>
          ⟨hstray.1, fun hopens => hstray.2 ((hopens.append_left _).append_left _)⟩

theorem exists_lowest
    (h : Stacked ts stack) (hlast : stack.getLast? = some opening) :
    ∃ before after above, ts = before ++ opening :: after ∧ Nested before ∧
      opening.kind = .parenLeft ∧ Stacked after above := by
  induction h with
  | nested => simp at hlast
  | @opened ts stack inner top h hopening hinner ih =>
    cases stack with
    | nil =>
      obtain rfl : top = opening := by simpa using hlast
      cases h with
      | nested hts => exact ⟨ts, inner, [], rfl, hts, hopening, .nested hinner⟩
    | cons next stack =>
      obtain ⟨before, after, above, rfl, hbefore, hkind, habove⟩ := ih (by simpa using hlast)
      refine ⟨before, after ++ top :: inner, top :: above, ?_, hbefore, hkind, ?_⟩
      · rw [List.append_assoc, List.cons_append]
      · exact .opened habove hopening hinner

/-- The lowest parenthesis of the stack is the first that is left open. -/
theorem first_unclosed
    (h : Stacked ts stack) (hlast : stack.getLast? = some opening) : First Unclosed ts opening := by
  obtain ⟨before, after, above, rfl, hbefore, hkind, habove⟩ := h.exists_lowest hlast
  refine ⟨before, after, rfl, ⟨hkind, ?_⟩, ?_⟩
  · -- A closing parenthesis that matched it would match one in the nested piece between them.
    rintro ⟨inner, closing, rest, rfl, hclosing, hinner⟩
    apply habove.nowhere_stray inner closing rest rfl
    exact ⟨hclosing, hinner.not_opensIn⟩
  · exact hbefore.nowhere_unmatched.mono fun front t rest hunclosed =>
      Or.inr (hunclosed.of_append [] _)

end Stacked

/-! ## Counting parentheses -/

theorem First.append_right (h : First Stray ts t) (us : List Token) : First Stray (ts ++ us) t := by
  obtain ⟨before, after, rfl, hstray, hfirst⟩ := h
  refine ⟨before, after ++ us, ?_, hstray, hfirst⟩
  rw [List.append_assoc, List.cons_append]

/-- What the count of parentheses knows of the tokens it has seen: those that are open, or the first
closing one without a match. -/
inductive Counted (ts : List Token) (b : Balance) : Prop
  | matched {stack : List Token} (h : Stacked ts stack) (hopens : b.opens = stack.map Token.pos)
      (hstray : b.stray < 0)
  | stray {t : Token} (h : First Stray ts t) (hpos : 0 ≤ t.pos) (hstray : b.stray = t.pos)

theorem Counted.step
    {b : Balance} (h : Counted ts b) (hpos : 0 ≤ t.pos) : Counted (ts ++ [t]) (b.step t) := by
  cases h with
  | stray h hfirst hstray =>
    refine .stray (h.append_right [t]) hfirst ?_
    unfold Balance.step
    split
    · exact hstray
    · split
      · exact hstray
      · rw [← hstray] at hfirst
        simpa [Int.not_lt.mpr hfirst] using hstray
    · exact hstray
  | @matched stack h hopens hstray =>
    by_cases hleft : t.kind = .parenLeft
    · refine .matched (.opened h hleft .nil) ?_ ?_
      · simp [Balance.step, hleft, hopens]
      · simpa [Balance.step, hleft] using hstray
    by_cases hright : t.kind = .parenRight
    · cases stack with
      | nil =>
        -- Nothing is open: this is the first closing parenthesis without a match.
        cases h with
        | nested hts =>
          have hfirst : First Stray (ts ++ [t]) t :=
            ⟨ts, [], rfl, ⟨hright, hts.not_opensIn⟩, hts.nowhere_stray⟩
          refine .stray hfirst hpos ?_
          simp [Balance.step, hright, hopens, hstray]
      | cons opening stack =>
        refine .matched (h.close hright) ?_ ?_
        · simp [Balance.step, hright, hopens]
        · simpa [Balance.step, hright, hopens] using hstray
    · have hother : t.kind.isParenthesis = false := by
        unfold TokenKind.isParenthesis
        split
        · exact absurd ‹_› hleft
        · exact absurd ‹_› hright
        · rfl
      rw [b.step_of_other hother]
      exact .matched (h.append (.other hother)) hopens hstray

theorem Counted.foldl
    {b : Balance} (h : Counted ts b) (hpos : ∀ t ∈ us, 0 ≤ t.pos) :
    Counted (ts ++ us) (us.foldl Balance.step b) := by
  induction us generalizing ts b with
  | nil => simpa using h
  | cons t us ih =>
    have hstep := h.step (hpos t List.mem_cons_self)
    have hrest := ih hstep fun t' ht' => hpos t' (List.mem_cons_of_mem _ ht')
    simpa using hrest

theorem counted_balance (hpos : ∀ t ∈ ts, 0 ≤ t.pos) : Counted ts (balance ts) := by
  have hstart : Counted [] ⟨[], -1, 0⟩ := .matched (.nested .nil) rfl (by decide)
  exact hstart.foldl hpos

/-- The place at which parentheses are said to be unbalanced. -/
def UnmatchedAt (ts : List Token) (index : Int) : Prop :=
  (∃ t, First Stray ts t ∧ index = t.pos) ∨
    Nowhere Stray ts ∧ ∃ t, First Unclosed ts t ∧ index = t.pos

theorem unmatchedAt_of_balanceError?
    {e : ParseError} (hpos : ∀ t ∈ ts, 0 ≤ t.pos) (h : balanceError? ts = some e) :
    UnmatchedAt ts e.index := by
  unfold balanceError? at h
  dsimp only at h
  split at h
  · cases h
  next hexcess =>
    cases h
    dsimp only
    cases counted_balance hpos with
    | stray hfirst hnonneg hstray =>
      left
      refine ⟨_, hfirst, ?_⟩
      rw [hstray, if_neg (Int.not_lt.mpr hnonneg)]
    | @matched stack hstacked hopens hstray =>
      right
      refine ⟨hstacked.nowhere_stray, ?_⟩
      cases hlast : stack.getLast? with
      | some opening =>
        refine ⟨opening, hstacked.first_unclosed hlast, ?_⟩
        rw [if_pos hstray, hopens, List.getLast?_map, hlast]
        rfl
      | none =>
        -- With nothing open the tokens are nested, and nested parentheses are balanced.
        obtain rfl : stack = [] := List.getLast?_eq_none_iff.mp hlast
        cases hstacked with
        | nested hts =>
          apply absurd _ hexcess
          rw [balance, hts.foldl_step]

theorem reason_of_balanceError?
    {e : ParseError} (h : balanceError? ts = some e) :
    e.reason =
      if ts.countP (·.kind = .parenLeft) < ts.countP (·.kind = .parenRight) then .excessClosing
      else .excessOpening := by
  have hexcess := excess_balance ts
  unfold balanceError? at h
  dsimp only at h
  split at h
  · cases h
  · cases h
    dsimp only
    split
    · rw [if_pos (by omega)]
    · rw [if_neg (by omega)]

theorem parse_unbalanced_iff
    {limit : Int} {e : ParseError} :
    parse limit ts = .error e ∧ e.kind = .unbalancedParenthesis ↔ balanceError? ts = some e := by
  cases hbalance : balanceError? ts with
  | some e' =>
    obtain ⟨hkind, -⟩ := balanceError?_place hbalance
    constructor
    · rintro ⟨h, -⟩
      simpa [parse, hbalance] using h
    · intro h
      obtain rfl : e' = e := Option.some.inj h
      exact ⟨by simp [parse, hbalance], hkind⟩
  | none =>
    have hbalanced := (balanceError?_eq_none_iff ts).mp hbalance
    constructor
    · rintro ⟨h, hkind⟩
      rw [(misplaced_of_parse hbalanced h).1] at hkind
      cases hkind
    · intro h
      cases h

/-- Under every limit, and whatever else is wrong with a sequence, its parentheses are reported as
unbalanced exactly if the numbers of opening and closing ones differ.  The error says which are in
excess and points at the first closing parenthesis without a match or, if there is none, at the first
opening one without a match. -/
theorem parse_unbalanced_at_first_unmatched
    (limit : Int) {ts : List Token} (hpos : ∀ t ∈ ts, 0 ≤ t.pos) :
    let openings := ts.countP (·.kind = .parenLeft)
    let closings := ts.countP (·.kind = .parenRight)
    ((∃ e, parse limit ts = .error e ∧ e.kind = .unbalancedParenthesis) ↔ openings ≠ closings) ∧
      ∀ e, parse limit ts = .error e → e.kind = .unbalancedParenthesis →
        (closings < openings →
            e.reason.message = ("more opening than closing parentheses" : Bytes)) ∧
          (openings < closings →
            e.reason.message = ("more closing than opening parentheses" : Bytes)) ∧
          UnmatchedAt ts e.index := by
  intro openings closings
  constructor
  · simp only [parse_unbalanced_iff]
    rw [← Option.isSome_iff_exists, Option.isSome_iff_ne_none]
    exact not_congr (balanceError?_eq_none_iff ts)
  · intro e herror hkind
    have hbalance : balanceError? ts = some e := parse_unbalanced_iff.mp ⟨herror, hkind⟩
    have hreason := reason_of_balanceError? hbalance
    refine ⟨?_, ?_, unmatchedAt_of_balanceError? hpos hbalance⟩
    · intro hlt
      rw [hreason, if_neg (Nat.not_lt.mpr (Nat.le_of_lt hlt))]
      rfl
    · intro hlt
      rw [hreason, if_pos hlt]
      rfl

/-- In `()) ((` the first closing parenthesis without a match is reported although more are open. -/
theorem parse_unbalanced_of_mixed :
    let ts := [Token.make .parenLeft [0x28] 0, Token.make .parenRight [0x29] 1,
      Token.make .parenRight [0x29] 2, Token.make .parenLeft [0x28] 4, Token.make .parenLeft [0x28] 5]
    (∀ t ∈ ts, 0 ≤ t.pos) ∧
      ∃ e, parse 0 ts = .error e ∧ e.kind = .unbalancedParenthesis ∧ e.index = 2 ∧
        e.reason.message = ("more opening than closing parentheses" : Bytes) ∧
          UnmatchedAt ts e.index := by
  intro ts
  have hpos : ∀ t ∈ ts, 0 ≤ t.pos := by simp [ts, Token.make]
  have hcount : ts.countP (·.kind = .parenRight) < ts.countP (·.kind = .parenLeft) := by
    simp [ts, Token.make]
  obtain ⟨hiff, herror⟩ := parse_unbalanced_at_first_unmatched 0 hpos
  obtain ⟨e, he, hkind⟩ := hiff.mpr (Nat.ne_of_gt hcount)
  obtain ⟨hopening, -, hplace⟩ := herror e he hkind
  refine ⟨hpos, e, he, hkind, ?_, hopening hcount, hplace⟩
  have hparse : parse 0 ts = .error ⟨.unbalancedParenthesis, 2, .excessOpening⟩ := rfl
  cases hparse.symm.trans he
  rfl

end Parser
end Reckon
