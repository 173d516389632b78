import Mathlib.Logic.Relation
import Reckon.Proofs.Parser.Run

/-!
# The active calls of the parser

A call of the parser stays active while a call that it has made is under way, and it goes on with what
that one ends with.  Here the calls that are active at once are kept on a stack, and the parser goes on
by one step after the other: the call on top makes a call, which is put on the stack, or it ends, and
the call below it goes on.

What a call does is its *script*.  It says the same as the function it is about, but it stops wherever
the function makes a call.  `Run.endsSoon` shows that from any call the steps lead to the end of
that call with the result of the function, whatever lies below it on the stack.  It also counts them:
there are at most eight for each token that is taken, and a few more for calls that begin in the middle
of a group or behind an operator.

The operators behind an atom are taken by calls of their own, made one after the other by the call of
`expression` that read the atom.  That call is active until they have ended.
-/

namespace Reckon
namespace Parser

/-- What a call has still to do: to end, or to make a call and to go on with what that ends with. -/
inductive Script where
  | ends (r : Except ParseError Expr) (after : State)
  | calls (call : Call) (s : State) (next : Except ParseError Expr → State → Script)

/-- Makes a call that has to end with a tree; its error is passed on. -/
def Script.requires (call : Call) (s : State) (next : Expr → State → Script) : Script :=
  .calls call s fun r mid =>
    match r with
    | .error e => .ends (.error e) mid
    | .ok tree => next tree mid

/-- What is done behind an expression in parentheses. -/
def closing (f : Frame) (tree : Expr) (after : State) : Script :=
  let close := after.peek f
  if close.kind = .parenRight then .ends (.ok tree) after.advance
  else .ends (.error (malformed close.pos (.unclosed close.kind))) after

/-- What a call in a state does. -/
def script (f : Frame) : Call → State → Script
  | .expression power, s =>
    let t := s.peek f
    match t.kind with
    | .number => .calls (.climb power (.constant t.num t.value)) s.advance .ends
    | .parenLeft =>
      .requires (.group t) s.advance fun inner mid => .calls (.climb power inner) mid .ends
    | _ => .ends (.error (unexpected t)) s
  | .group opening, s =>
    if f.refuses s.depth then .ends (.error (tooDeep f opening)) s
    else .calls .enclosed s.nest fun r after => .ends r after.unnest
  | .enclosed, s =>
    if (s.peek f).kind = .parenRight then
      .ends (.error (malformed (s.peek f).pos .emptyParentheses)) s
    else .requires (.expression 0) s (closing f)
  | .operand t, s =>
    if t.kind = .caret then
      if f.refuses s.depth then .ends (.error (tooDeep f t)) s
      else .calls (.expression (bindingPower t.kind - 1)) s.nest fun r after => .ends r after.unnest
    else .calls (.expression (bindingPower t.kind)) s .ends
  | .climb power left, s =>
    let t := s.peek f
    if bindingPower t.kind ≤ power then .ends (.ok left) s
    else
      match operation? t.kind with
      | none => .ends (.error (unexpected t)) s
      | some op =>
        .requires (.operand t) s.advance fun right mid =>
          .calls (.climb power (.binary op left right)) mid .ends

/-- A call that has not ended, and what it has still to do.  While a call that it has made is active,
this begins with that call. -/
structure Activation where
  call : Call
  script : Script

/-- A call that has just been made. -/
def activate (f : Frame) (call : Call) (s : State) : Activation :=
  ⟨call, script f call s⟩

/-- One step on a stack of active calls, the latest on top.  The first call of all has nothing to end
into. -/
def advance? (f : Frame) : List Activation → Option (List Activation)
  | ⟨caller, .calls call s next⟩ :: below =>
    some (activate f call s :: ⟨caller, .calls call s next⟩ :: below)
  | ⟨_, .ends r after⟩ :: ⟨caller, .calls _ _ next⟩ :: below => some (⟨caller, next r after⟩ :: below)
  | _ => none

/-- A step makes a call, or it gives the end of one to its caller. -/
theorem advance?_cases {f : Frame} {stack stack' : List Activation}
    (h : advance? f stack = some stack') :
    (∃ caller call s next below, stack = ⟨caller, .calls call s next⟩ :: below ∧
        stack' = activate f call s :: ⟨caller, .calls call s next⟩ :: below) ∨
      ∃ ended r after caller call s next below,
        stack = ⟨ended, .ends r after⟩ :: ⟨caller, .calls call s next⟩ :: below ∧
          stack' = ⟨caller, next r after⟩ :: below := by
  unfold advance? at h
  split at h
  · cases h
    exact Or.inl ⟨_, _, _, _, _, rfl, rfl⟩
  · cases h
    exact Or.inr ⟨_, _, _, _, _, _, _, _, rfl, rfl⟩
  · cases h

/-- Some steps lead from one stack to another. -/
def Steps (f : Frame) : List Activation → List Activation → Prop :=
  Relation.ReflTransGen fun stack stack' => advance? f stack = some stack'

/-- A number of steps leads from one stack to another. -/
inductive StepsIn (f : Frame) : Nat → List Activation → List Activation → Prop
  | refl (stack : List Activation) : StepsIn f 0 stack stack
  | head {n : Nat} {stack stack' stack'' : List Activation} (h : advance? f stack = some stack')
      (hrest : StepsIn f n stack' stack'') : StepsIn f (n + 1) stack stack''

variable {f : Frame} {c : Call} {s after : State} {r : Except ParseError Expr}

namespace StepsIn

variable {m n : Nat} {stack stack' stack'' : List Activation}

theorem steps (h : StepsIn f n stack stack') : Steps f stack stack' := by
  induction h with
  | refl stack => exact .refl
  | head hstep _ ih => exact .head hstep ih

theorem trans (h : StepsIn f m stack stack') (h' : StepsIn f n stack' stack'') :
    StepsIn f (n + m) stack stack'' := by
  induction h with
  | refl stack => exact h'
  | head hstep _ ih => exact .head hstep (ih h')

/-- A call that is made ends, and the one that has made it goes on. -/
theorem call
    (h : ∀ below, StepsIn f n (activate f c s :: below) (⟨c, .ends r after⟩ :: below))
    (caller : Call) (next : Except ParseError Expr → State → Script) (below : List Activation) :
    StepsIn f (n + 2) (⟨caller, .calls c s next⟩ :: below) (⟨caller, next r after⟩ :: below) := by
  have hend : StepsIn f 1 (⟨c, .ends r after⟩ :: ⟨caller, .calls c s next⟩ :: below)
      (⟨caller, next r after⟩ :: below) := .head rfl (.refl _)
  rw [show n + 2 = 1 + n + 1 by omega]
  exact .head rfl ((h _).trans hend)

/-- Two calls are made one after the other. -/
theorem call_call {c' : Call} {s' after' : State} {r' : Except ParseError Expr}
    {caller : Call} {next next' : Except ParseError Expr → State → Script}
    (h : ∀ below, StepsIn f m (activate f c s :: below) (⟨c, .ends r after⟩ :: below))
    (h' : ∀ below, StepsIn f n (activate f c' s' :: below) (⟨c', .ends r' after'⟩ :: below))
    (hnext : next r after = .calls c' s' next') (below : List Activation) :
    StepsIn f (n + 2 + (m + 2)) (⟨caller, .calls c s next⟩ :: below)
      (⟨caller, next' r' after'⟩ :: below) := by
  have hfirst := call h caller next below
  rw [hnext] at hfirst
  exact hfirst.trans (call h' caller next' below)

end StepsIn

/-- The steps that a call may take besides eight for each token: those from calls that go on behind a
token that has been taken already. -/
def Call.surplus : Call → Nat
  | .expression _ | .climb _ _ => 0
  | .enclosed | .operand _ => 2
  | .group _ => 4

/-- Steps lead from a call to its end, at most eight for each token that is taken and those of the
surplus. -/
def EndsSoon (f : Frame) (c : Call) (s : State) (r : Except ParseError Expr) (after : State) : Prop :=
  ∃ n, n + 8 * after.rest.length ≤ 8 * s.rest.length + c.surplus ∧
    ∀ below, StepsIn f n (activate f c s :: below) (⟨c, .ends r after⟩ :: below)

namespace EndsSoon

variable {c' c'' : Call} {s' s'' after' after'' : State} {r' r'' : Except ParseError Expr}
  {next next' : Except ParseError Expr → State → Script}

/-- A call that makes no call has ended already. -/
theorem of_ends (hscript : script f c s = .ends r s) : EndsSoon f c s r s := by
  refine ⟨0, by omega, fun below => ?_⟩
  rw [activate, hscript]
  exact .refl _

/-- A call ends if it makes a call that ends. -/
theorem of_call (h : EndsSoon f c' s' r' after') (hscript : script f c s = .calls c' s' next)
    (hnext : next r' after' = .ends r after) (hrest : after.rest.length ≤ after'.rest.length)
    (hcost : 8 * s'.rest.length + c'.surplus + 2 ≤ 8 * s.rest.length + c.surplus) :
    EndsSoon f c s r after := by
  obtain ⟨n, hn, hsteps⟩ := h
  refine ⟨n + 2, by omega, fun below => ?_⟩
  rw [activate, hscript, ← hnext]
  exact .call hsteps _ _ below

/-- A call ends if it makes two calls that end, the second one where the first one has ended. -/
theorem of_call_call (h : EndsSoon f c' s' r' after') (h' : EndsSoon f c'' after' r'' after)
    (hscript : script f c s = .calls c' s' next) (hnext : next r' after' = .calls c'' after' next')
    (hend : next' r'' after = .ends r after)
    (hcost : 8 * s'.rest.length + c'.surplus + c''.surplus + 4 ≤ 8 * s.rest.length + c.surplus) :
    EndsSoon f c s r after := by
  obtain ⟨m, hm, hfirst⟩ := h
  obtain ⟨n, hn, hsecond⟩ := h'
  refine ⟨n + 2 + (m + 2), by omega, fun below => ?_⟩
  rw [activate, hscript, ← hend]
  exact .call_call hfirst hsecond hnext below

end EndsSoon

section Script

variable {power : Nat} {left : Expr} {t : Token} {ts : List Token} {depth : Int} {op : Operation}

theorem script_of_number (ht : t.kind = .number) :
    script f (.expression power) ⟨t :: ts, depth⟩ =
      .calls (.climb power (.constant t.num t.value)) ⟨ts, depth⟩ .ends := by
  simp only [script, peek_cons, ht]
  rfl

theorem script_of_parenLeft (ht : t.kind = .parenLeft) :
    script f (.expression power) ⟨t :: ts, depth⟩ =
      .requires (.group t) ⟨ts, depth⟩ fun inner mid => .calls (.climb power inner) mid .ends := by
  simp only [script, peek_cons, ht]
  rfl

theorem script_of_missing (hnumber : (s.peek f).kind ≠ .number)
    (hparen : (s.peek f).kind ≠ .parenLeft) :
    script f (.expression power) s = .ends (.error (unexpected (s.peek f))) s := by
  rw [script]
  split
  · exact (hnumber ‹_›).elim
  · exact (hparen ‹_›).elim
  · rfl

theorem script_of_caret (ht : t.kind = .caret) (hroom : f.refuses s.depth = false) :
    script f (.operand t) s =
      .calls (.expression (bindingPower t.kind - 1)) s.nest fun r after => .ends r after.unnest := by
  rw [script, if_pos ht, if_neg (Bool.eq_false_iff.mp hroom)]

theorem script_of_operator (hlt : power < bindingPower t.kind) (hop : operation? t.kind = some op) :
    script f (.climb power left) ⟨t :: ts, depth⟩ =
      .requires (.operand t) ⟨ts, depth⟩ fun right mid =>
        .calls (.climb power (.binary op left right)) mid .ends := by
  simp only [script, peek_cons, if_neg (Nat.not_le.mpr hlt), hop]
  rfl

end Script

/-- The steps from a call lead to its end, with the result of the call, and there are few of them. -/
theorem Run.endsSoon (h : Run f c s r after) : EndsSoon f c s r after := by
  induction h with
  | missing hnumber hparen => exact .of_ends (script_of_missing hnumber hparen)
  | number ht hclimb ih =>
    refine ih.of_call (script_of_number ht) rfl (Nat.le_refl _) ?_
    simp only [Call.surplus, List.length_cons]
    omega
  | grouped ht hgroup hclimb ihgroup ihclimb =>
    refine ihgroup.of_call_call ihclimb (script_of_parenLeft ht) rfl rfl ?_
    simp only [Call.surplus, List.length_cons]
    omega
  | groupedFailed ht hgroup ih =>
    refine ih.of_call (script_of_parenLeft ht) rfl (Nat.le_refl _) ?_
    simp only [Call.surplus, List.length_cons]
    omega
  | group hroom hinner ih =>
    exact ih.of_call (if_neg (Bool.eq_false_iff.mp hroom)) rfl (Nat.le_refl _) (Nat.le_refl _)
  | groupRefused hfull => exact .of_ends (if_pos hfull)
  | empty hclose => exact .of_ends (if_pos hclose)
  | closed hopen hinner hclose ih =>
    exact ih.of_call (if_neg hopen) (if_pos hclose) (by simp [State.advance]) (Nat.le_refl _)
  | unclosed hopen hinner hclose ih =>
    exact ih.of_call (if_neg hopen) (if_neg hclose) (Nat.le_refl _) (Nat.le_refl _)
  | enclosedFailed hopen hinner ih =>
    exact ih.of_call (if_neg hopen) rfl (Nat.le_refl _) (Nat.le_refl _)
  | operand ht hright ih => exact ih.of_call (if_neg ht) rfl (Nat.le_refl _) (Nat.le_refl _)
  | exponent ht hroom hright ih =>
    exact ih.of_call (script_of_caret ht hroom) rfl (Nat.le_refl _) (Nat.le_refl _)
  | exponentRefused ht hfull => exact .of_ends ((if_pos ht).trans (if_pos hfull))
  | done hpower => exact .of_ends (if_pos hpower)
  | applied hlt hop hright hclimb ihright ihclimb =>
    refine ihright.of_call_call ihclimb (script_of_operator hlt hop) rfl rfl ?_
    simp only [Call.surplus, List.length_cons]
    omega
  | appliedFailed hlt hop hright ih =>
    refine ih.of_call (script_of_operator hlt hop) rfl (Nat.le_refl _) ?_
    simp only [Call.surplus, List.length_cons]
    omega

/-- The steps from a call lead to its end, with the result of the call. -/
theorem Run.steps (h : Run f c s r after) (below : List Activation) :
    Steps f (activate f c s :: below) (⟨c, .ends r after⟩ :: below) := by
  obtain ⟨n, -, hsteps⟩ := h.endsSoon
  exact (hsteps below).steps

end Parser
end Reckon
