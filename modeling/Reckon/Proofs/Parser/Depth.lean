import Reckon.Proofs.Expr.Paths
import Reckon.Proofs.Parser.Activation
import Reckon.Proofs.Parser.Nesting

/-!
# The nesting limit bounds the recursion

Parentheses and the right operand of `^` are counted as levels of nesting, the right operands of the
other operators are not, although they are read by calls of `expression` as well.  But between two
levels each such call has a higher binding power than the one that it is made for: after a sum there is
only a product, and after a product only a power.  So there are at most three active calls of
`expression` for each level, and a limit on the levels is a limit on the calls.

What carries this is an *allowance* for each call: the number of calls of `expression` that may become
active above it.  It covers what the calls that it makes need, and a level that is opened takes three of
it.  Nothing has to be known of what a call ends with, but that it has closed the levels it has opened.

In a tree, likewise, a path from the root goes to the right at most twice for each level.
-/

namespace Reckon

namespace Expr

/-! ## Paths in a tree -/

/-- No path to a leaf goes to the right more than `n` times. -/
def RightEdgesLe (tree : Expr) (n : Nat) : Prop :=
  ∀ path ∈ tree.paths, path.count .right ≤ n

theorem RightEdgesLe.mono {tree : Expr} {m n : Nat} (h : tree.RightEdgesLe m) (hle : m ≤ n) :
    tree.RightEdgesLe n :=
  fun path hpath => Nat.le_trans (h path hpath) hle

theorem RightEdgesLe.binary {left right : Expr} {m k n : Nat} (op : Operation)
    (hleft : left.RightEdgesLe m) (hright : right.RightEdgesLe k) (hm : m ≤ n) (hk : k < n) :
    (Expr.binary op left right).RightEdgesLe n := by
  intro path hpath
  simp only [paths, List.mem_append, List.mem_map] at hpath
  rcases hpath with ⟨rest, hrest, rfl⟩ | ⟨rest, hrest, rfl⟩
  · simpa using hleft.mono hm rest hrest
  · rw [List.count_cons_self]
    exact Nat.lt_of_le_of_lt (hright rest hrest) hk

end Expr

namespace Grammar

/-- A path in the tree of a phrase goes to the right twice for each level of nesting, and as often on
the lowest one as there are categories of operators in the phrase. -/
theorem Derivation.rightEdgesLe_tree {c : Category} (d : Derivation c) :
    d.tree.RightEdgesLe (2 - c.rank + 2 * d.level) := by
  induction d with
  | sum left t op ht right ihl ihr =>
    simp only [Category.rank, level] at ihl ihr ⊢
    exact ihl.binary op ihr (by omega) (by omega)
  | ofProduct d ih =>
    simp only [Category.rank, level] at ih ⊢
    exact ih.mono (by omega)
  | product left t op ht right ihl ihr =>
    simp only [Category.rank, level] at ihl ihr ⊢
    exact ihl.binary op ihr (by omega) (by omega)
  | ofPower d ih =>
    simp only [Category.rank, level] at ih ⊢
    exact ih.mono (by omega)
  | power base t ht exponent ihb ihe =>
    simp only [Category.rank, level] at ihb ihe ⊢
    exact ihb.binary .exponent ihe (by omega) (by omega)
  | ofAtom d ih =>
    simp only [Category.rank, level] at ih ⊢
    exact ih.mono (by omega)
  | group opening ho inner closing hc ih =>
    simp only [Category.rank, level] at ih ⊢
    exact ih.mono (by omega)
  | number t ht => simp [tree, Expr.RightEdgesLe, Expr.paths]

end Grammar

namespace Parser

open Grammar

/-! ## What a call is allowed -/

/-- Whether a call is one of `expression`. -/
def Call.isExpression : Call → Bool
  | .expression _ => true
  | _ => false

/-- How much a call adds to the number of active calls of `expression`. -/
def Call.weight (c : Call) : Nat :=
  if c.isExpression then 1 else 0

/-- The number of active calls of `expression`. -/
def expressions (stack : List Activation) : Nat :=
  stack.countP (·.call.isExpression)

theorem expressions_cons (a : Activation) (stack : List Activation) :
    expressions (a :: stack) = expressions stack + a.call.weight :=
  List.countP_cons

/-- The number of levels that can be opened in a depth. -/
def Frame.room (f : Frame) (depth : Int) : Nat :=
  (f.limit - depth).toNat

/-- The number of calls of `expression` that may become active above a call in a depth. -/
def allowance (f : Frame) (depth : Int) : Call → Nat
  | .expression power | .climb power _ => 2 - power + 3 * f.room depth
  | .group _ => 3 * f.room depth
  | .enclosed => 3 + 3 * f.room depth
  | .operand t => 3 - bindingPower t.kind + 3 * f.room depth

/-- The number of calls of `expression` that may become active for a call in a depth, with the call
itself. -/
def need (f : Frame) (depth : Int) (c : Call) : Nat :=
  c.weight + allowance f depth c

section Need

variable (f : Frame) (depth : Int)

@[simp] theorem need_expression (power : Nat) :
    need f depth (.expression power) = 1 + (2 - power + 3 * f.room depth) := rfl

@[simp] theorem need_group (opening : Token) :
    need f depth (.group opening) = 3 * f.room depth := Nat.zero_add _

@[simp] theorem need_enclosed : need f depth .enclosed = 3 + 3 * f.room depth := Nat.zero_add _

@[simp] theorem need_operand (t : Token) :
    need f depth (.operand t) = 3 - bindingPower t.kind + 3 * f.room depth := Nat.zero_add _

@[simp] theorem need_climb (power : Nat) (left : Expr) :
    need f depth (.climb power left) = 2 - power + 3 * f.room depth := Nat.zero_add _

end Need

/-- No call that a script makes needs more than `n`, and the script ends in a depth, provided that the
calls it makes end in the depths in which they are made. -/
inductive Script.Within (f : Frame) (n : Nat) (depth : Int) : Script → Prop
  | ends {r : Except ParseError Expr} {after : State} (h : after.depth = depth) :
    Within f n depth (.ends r after)
  | calls {c : Call} {s : State} {next : Except ParseError Expr → State → Script}
    (hneed : need f s.depth c ≤ n)
    (hnext : ∀ r after, after.depth = s.depth → Within f n depth (next r after)) :
    Within f n depth (.calls c s next)

variable {f : Frame} {n : Nat} {depth : Int} {s : State}

theorem Script.Within.requires {c : Call} {next : Expr → State → Script}
    (hneed : need f s.depth c ≤ n)
    (hnext : ∀ tree mid, mid.depth = s.depth → (next tree mid).Within f n s.depth) :
    (Script.requires c s next).Within f n s.depth := by
  refine .calls hneed ?_
  intro r mid hmid
  cases r with
  | error e => exact .ends hmid
  | ok tree => exact hnext tree mid hmid

/-- A last call, which ends the script that makes it. -/
theorem Script.Within.last {c : Call} (hneed : need f s.depth c ≤ n) :
    (Script.calls c s .ends).Within f n s.depth :=
  .calls hneed fun _ _ h => .ends h

/-- A call on a level that is opened for it alone. -/
theorem Script.Within.nested {c : Call} (hneed : need f (s.depth + 1) c ≤ n) :
    (Script.calls c s.nest fun r after => .ends r after.unnest).Within f n s.depth := by
  refine .calls hneed ?_
  intro r after h
  apply Within.ends
  simp only [State.unnest, h]
  omega

/-- One level less can be opened on a level that has been opened. -/
theorem room_succ (hlimit : 1 ≤ f.limit) (hroom : ¬ f.refuses depth = true) :
    f.room depth = f.room (depth + 1) + 1 := by
  simp only [Frame.refuses, Bool.and_eq_true, decide_eq_true_eq] at hroom
  simp only [Frame.room]
  omega

/-- The calls that a call makes keep to its allowance, and it closes the levels that it opens. -/
theorem within_script (hlimit : 1 ≤ f.limit) (c : Call) (s : State) :
    (script f c s).Within f (allowance f s.depth c) s.depth := by
  cases c with
  | expression power =>
    simp only [script]
    split
    · exact .last (s := s.advance) (Nat.le_of_eq (Nat.zero_add _))
    · refine .requires (s := s.advance) ?_ ?_
      · simp [allowance, State.advance]
      · intro inner mid hmid
        rw [← hmid]
        refine .last ?_
        simp [allowance, hmid, State.advance]
    · exact .ends rfl
  | group opening =>
    rw [script]
    split
    · exact .ends rfl
    next hroom =>
      refine .nested ?_
      simp [allowance, room_succ hlimit hroom]
      omega
  | enclosed =>
    rw [script]
    split
    · exact .ends rfl
    · refine .requires ?_ ?_
      · simp [allowance]
        omega
      · intro tree after hafter
        unfold closing
        dsimp only
        split
        · exact .ends hafter
        · exact .ends hafter
  | operand t =>
    rw [script]
    split
    next hcaret =>
      have hpower : bindingPower t.kind = 3 := by rw [hcaret]; rfl
      split
      · exact .ends rfl
      next hroom =>
        refine .nested ?_
        simp [allowance, hpower, room_succ hlimit hroom]
        omega
    next hcaret =>
      have hpower : bindingPower t.kind ≤ 2 := by
        simpa [rightPower, hcaret] using rightPower_le_two t.kind
      refine .last ?_
      simp [allowance]
      omega
  | climb power left =>
    simp only [script]
    split
    · exact .ends rfl
    next hpower =>
      have hthree := bindingPower_le_three (s.peek f).kind
      split
      · exact .ends rfl
      · refine .requires (s := s.advance) ?_ ?_
        · simp [allowance, State.advance]
          omega
        · intro right mid hmid
          rw [← hmid]
          refine .last ?_
          simp [allowance, hmid, State.advance]

/-! ## What is left on a stack -/

/-- The calls below the one on top wait for it to end in a depth, and what they may still make fits
into `n`. -/
inductive Waiting (f : Frame) (n : Nat) : Int → List Activation → Prop
  | nil {depth : Int} : Waiting f n depth []
  | cons {caller c : Call} {s : State} {next : Except ParseError Expr → State → Script}
      {below : List Activation} {depth : Int} {k : Nat}
      (hscript : (Script.calls c s next).Within f k depth)
      (hfits : expressions (⟨caller, .calls c s next⟩ :: below) + k ≤ n)
      (hbelow : Waiting f n depth below) :
      Waiting f n s.depth (⟨caller, .calls c s next⟩ :: below)

/-- The active calls of `expression`, with those that may still become active, are at most `n`. -/
def Bounded (f : Frame) (n : Nat) (stack : List Activation) : Prop :=
  ∃ a below depth k, stack = a :: below ∧ a.script.Within f k depth ∧ expressions stack + k ≤ n ∧
    Waiting f n depth below

theorem bounded_activate (hlimit : 1 ≤ f.limit) (c : Call) (s : State) :
    Bounded f (need f s.depth c) [activate f c s] := by
  refine ⟨_, [], s.depth, allowance f s.depth c, rfl, within_script hlimit c s, ?_, .nil⟩
  rw [expressions_cons]
  exact Nat.le_of_eq (by simp [expressions, activate, need])

theorem Bounded.step {stack stack' : List Activation} (hlimit : 1 ≤ f.limit)
    (h : Bounded f n stack) (hstep : advance? f stack = some stack') : Bounded f n stack' := by
  obtain ⟨a, below, depth, k, rfl, hscript, hfits, hbelow⟩ := h
  rcases advance?_cases hstep with
    ⟨caller, c, s, next, below', heq, rfl⟩ |
    ⟨ended, r, after, caller, c, s, next, below', heq, rfl⟩
  · -- The call that is made takes what it needs of the allowance of its caller.
    cases heq
    refine ⟨_, _, s.depth, allowance f s.depth c, rfl, within_script hlimit c s, ?_,
      .cons hscript hfits hbelow⟩
    cases hscript with
    | calls hneed hnext =>
      rw [expressions_cons]
      simp only [activate]
      unfold need at hneed
      omega
  · -- The caller goes on with the allowance that it had.
    cases heq
    cases hscript with
    | ends hafter =>
      cases hbelow with
      | cons hcaller hcount hrest =>
        cases hcaller with
        | calls hneed hnext =>
          refine ⟨_, _, _, _, rfl, hnext r after hafter, ?_, hrest⟩
          rw [expressions_cons] at hcount ⊢
          exact hcount

theorem Bounded.steps {stack stack' : List Activation} (hlimit : 1 ≤ f.limit)
    (h : Bounded f n stack) (hsteps : Steps f stack stack') : Bounded f n stack' := by
  induction hsteps with
  | refl => exact h
  | tail _ hstep ih => exact ih.step hlimit hstep

theorem Bounded.expressions_le {stack : List Activation} (h : Bounded f n stack) :
    expressions stack ≤ n := by
  obtain ⟨a, below, depth, k, -, -, hfits, -⟩ := h
  omega

/-! ## Under a limit -/

/-- A sequence that is parsed under a limit is a phrase with no more levels than the limit. -/
theorem exists_derivation_of_parse {m : Nat} {ts : List Token} {tree : Expr} (hm : 1 ≤ m)
    (h : parse m ts = .ok tree) : ∃ d : Derivation .sum, d.tree = tree ∧ d.level ≤ m := by
  obtain ⟨d, rfl, rfl⟩ := derives_of_parse h
  refine ⟨d, rfl, Nat.le_of_not_lt ?_⟩
  intro hlevel
  obtain ⟨o, -, herror⟩ := parse_of_lt_level hm d hlevel
  cases h.symm.trans herror

/-- While a sequence is parsed under a limit, at most three calls of `expression` for each level are
active at once, with the level that is always open; and in the tree that it is parsed to, a path goes to
the right at most twice for each level.  Neither depends on the length of the sequence. -/
theorem parse_recursion_bounded {limit : Int} (hlimit : 1 ≤ limit) (ts : List Token) :
    let f : Frame := ⟨limit, stopOf ts⟩
    let start := [activate f (.expression 0) ⟨ts, 0⟩]
    (∃ r after, Steps f start [⟨.expression 0, .ends r after⟩] ∧
        (ts ≠ [] → ParensBalanced ts → parse limit ts = conclude r after)) ∧
      (∀ stack, Steps f start stack → (expressions stack : Int) ≤ 3 * (limit + 1)) ∧
      ∀ tree, parse limit ts = .ok tree → ∀ path ∈ tree.paths,
        (path.count .right : Int) ≤ 2 * (limit + 1) := by
  intro f start
  refine ⟨?_, ?_, ?_⟩
  · obtain ⟨r, after, hrun⟩ := exists_run f 0 ⟨ts, 0⟩
    exact ⟨r, after, hrun.steps [], fun hne hbalanced => parse_eq_conclude hne hbalanced hrun⟩
  · intro stack hsteps
    have hbounded := (bounded_activate hlimit (.expression 0) ⟨ts, 0⟩).steps hlimit hsteps
    have hneed : need f 0 (.expression 0) = 3 * limit.toNat + 3 := by
      simp [Frame.room, f]
      omega
    have hle : expressions stack ≤ need f 0 (.expression 0) := hbounded.expressions_le
    omega
  · intro tree htree path hpath
    obtain ⟨m, rfl⟩ := Int.eq_ofNat_of_zero_le (show 0 ≤ limit by omega)
    obtain ⟨d, rfl, hlevel⟩ := exists_derivation_of_parse (by omega) htree
    have hcount := d.rightEdgesLe_tree path hpath
    simp only [Category.rank] at hcount
    omega

/-- Under a limit of one, `1+2*(3+4*5)` reaches both bounds. -/
theorem parse_recursion_bounded_of_group :
    let literal (b : UInt8) (pos : Int) : Derivation .power :=
      .ofAtom (.number (Token.make .number [b] pos) rfl)
    let product (left right : Derivation .power) (pos : Int) : Derivation .product :=
      .product (.ofPower left) (Token.make .asterisk [0x2A] pos) .multiply .asterisk right
    let sum (left : Derivation .power) (right : Derivation .product) (pos : Int) : Derivation .sum :=
      .sum (.ofProduct (.ofPower left)) (Token.make .plus [0x2B] pos) .add .plus right
    let group : Derivation .power :=
      .ofAtom (.group (Token.make .parenLeft [0x28] 4) rfl
        (sum (literal 0x33 5) (product (literal 0x34 7) (literal 0x35 9) 8) 6)
        (Token.make .parenRight [0x29] 10) rfl)
    let d := sum (literal 0x31 0) (product (literal 0x32 2) group 3) 1
    let start := [activate ⟨1, stopOf d.tokens⟩ (.expression 0) ⟨d.tokens, 0⟩]
    ((∃ stack, Steps ⟨1, stopOf d.tokens⟩ start stack ∧ expressions stack = 6) ∧
        ∀ stack, Steps ⟨1, stopOf d.tokens⟩ start stack → (expressions stack : Int) ≤ 3 * (1 + 1)) ∧
      parse 1 d.tokens = .ok d.tree ∧
      (∃ path ∈ d.tree.paths, path.count .right = 4) ∧
        ∀ path ∈ d.tree.paths, (path.count .right : Int) ≤ 2 * (1 + 1) := by
  intro literal product sum group d start
  have hparse : parse 1 d.tokens = .ok d.tree :=
    parse_of_level_le (Nat.le_refl 1) d (by decide)
  obtain ⟨-, hcalls, hpaths⟩ := parse_recursion_bounded (Int.le_refl 1) d.tokens
  refine ⟨⟨⟨?stack, ?steps, ?count⟩, hcalls⟩, hparse, ?_, hpaths d.tree hparse⟩
  case steps =>
    -- Fifteen calls are made before the first one ends.
    iterate 15 refine Relation.ReflTransGen.head rfl ?_
    exact .refl
  case count => rfl
  exact ⟨[.right, .right, .right, .right], by decide, rfl⟩

end Parser
end Reckon
