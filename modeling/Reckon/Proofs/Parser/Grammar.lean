import Reckon.Parser

/-!
# The grammar of expressions

The grammar has four categories of phrase:

* a sum is a product, or a sum, `+` or `-`, and a product;
* a product is a power, or a product, `*` or `/`, and a power;
* a power is an atom, or an atom, `^` and a power;
* an atom is a literal, or a sum in parentheses.

A derivation of a phrase is kept as data, so that the tokens of the phrase, the tree it stands for
and the levels of nesting it opens are functions of the derivation.  Nothing here mentions how a
sequence of tokens is parsed.
-/

namespace Reckon
namespace Grammar

/-- The categories of phrase. -/
inductive Category where
  | sum | product | power | atom
  deriving DecidableEq, Repr

/-- How tightly a phrase of a category holds together.  A phrase of one rank is also a phrase of
every lower rank. -/
def Category.rank : Category → Nat
  | .sum => 0
  | .product => 1
  | .power => 2
  | .atom => 3

/-- The operators of a sum, each with its operation. -/
inductive Additive : TokenKind → Operation → Prop
  | plus : Additive .plus .add
  | minus : Additive .minus .subtract

/-- The operators of a product, each with its operation. -/
inductive Multiplicative : TokenKind → Operation → Prop
  | asterisk : Multiplicative .asterisk .multiply
  | slash : Multiplicative .slash .divide

theorem Additive.isOperator {kind : TokenKind} {op : Operation} (h : Additive kind op) :
    kind.isOperator = true := by
  cases h <;> rfl

theorem Multiplicative.isOperator {kind : TokenKind} {op : Operation}
    (h : Multiplicative kind op) : kind.isOperator = true := by
  cases h <;> rfl

/-- A sequence of tokens has as many opening parentheses as closing ones. -/
def ParensBalanced (ts : List Token) : Prop :=
  ts.countP (·.kind = .parenLeft) = ts.countP (·.kind = .parenRight)

theorem ParensBalanced.operator {before after : List Token} {t : Token}
    (hbefore : ParensBalanced before) (ht : t.kind.isOperator = true)
    (hafter : ParensBalanced after) :
    ParensBalanced (before ++ t :: after) := by
  have hleft : t.kind ≠ .parenLeft := by
    intro h
    simp [h, TokenKind.isOperator] at ht
  have hright : t.kind ≠ .parenRight := by
    intro h
    simp [h, TokenKind.isOperator] at ht
  unfold ParensBalanced at *
  simp [hbefore, hafter, hleft, hright]

/-- A derivation of a phrase of some category. -/
inductive Derivation : Category → Type
  | sum (left : Derivation .sum) (t : Token) (op : Operation)
      (ht : Additive t.kind op) (right : Derivation .product) : Derivation .sum
  | ofProduct (d : Derivation .product) : Derivation .sum
  | product (left : Derivation .product) (t : Token) (op : Operation)
      (ht : Multiplicative t.kind op) (right : Derivation .power) : Derivation .product
  | ofPower (d : Derivation .power) : Derivation .product
  | power (base : Derivation .atom) (t : Token) (ht : t.kind = .caret)
      (exponent : Derivation .power) : Derivation .power
  | ofAtom (d : Derivation .atom) : Derivation .power
  | group (opening : Token) (hopening : opening.kind = .parenLeft) (inner : Derivation .sum)
      (closing : Token) (hclosing : closing.kind = .parenRight) : Derivation .atom
  | number (t : Token) (ht : t.kind = .number) : Derivation .atom

namespace Derivation

variable {c : Category}

/-- The tokens of a phrase. -/
def tokens : {c : Category} → Derivation c → List Token
  | _, .sum left t _ _ right => left.tokens ++ t :: right.tokens
  | _, .ofProduct d => d.tokens
  | _, .product left t _ _ right => left.tokens ++ t :: right.tokens
  | _, .ofPower d => d.tokens
  | _, .power base t _ exponent => base.tokens ++ t :: exponent.tokens
  | _, .ofAtom d => d.tokens
  | _, .group opening _ inner closing _ => opening :: inner.tokens ++ [closing]
  | _, .number t _ => [t]

/-- The tree of a phrase; parentheses leave no node in it. -/
def tree : {c : Category} → Derivation c → Expr
  | _, .sum left _ op _ right => .binary op left.tree right.tree
  | _, .ofProduct d => d.tree
  | _, .product left _ op _ right => .binary op left.tree right.tree
  | _, .ofPower d => d.tree
  | _, .power base _ _ exponent => .binary .exponent base.tree exponent.tree
  | _, .ofAtom d => d.tree
  | _, .group _ _ inner _ _ => inner.tree
  | _, .number t _ => .constant t.num t.value

/-- The number of levels of nesting of a phrase: parentheses open one, and so does `^` for its right
operand. -/
def level : {c : Category} → Derivation c → Nat
  | _, .sum left _ _ _ right => max left.level right.level
  | _, .ofProduct d => d.level
  | _, .product left _ _ _ right => max left.level right.level
  | _, .ofPower d => d.level
  | _, .power base _ _ exponent => max base.level (1 + exponent.level)
  | _, .ofAtom d => d.level
  | _, .group _ _ inner _ _ => 1 + inner.level
  | _, .number _ _ => 0

/-- The tokens that open a level of nesting, in order, each with the level it opens, when the phrase
itself stands on level `n`. -/
def openings : {c : Category} → Derivation c → Nat → List (Token × Nat)
  | _, .sum left _ _ _ right, n => left.openings n ++ right.openings n
  | _, .ofProduct d, n => d.openings n
  | _, .product left _ _ _ right, n => left.openings n ++ right.openings n
  | _, .ofPower d, n => d.openings n
  | _, .power base t _ exponent, n => base.openings n ++ (t, n + 1) :: exponent.openings (n + 1)
  | _, .ofAtom d, n => d.openings n
  | _, .group opening _ inner _ _, n => (opening, n + 1) :: inner.openings (n + 1)
  | _, .number _ _, _ => []

/-- A phrase of one rank is a phrase of every lower rank, with the same tokens and the same tree. -/
theorem exists_widen {c' : Category} (d : Derivation c) (h : c'.rank ≤ c.rank) :
    ∃ d' : Derivation c', d'.tokens = d.tokens ∧ d'.tree = d.tree := by
  -- The chains of embeddings, the shortest first.
  have ofProduct (d : Derivation .product) :
      ∃ d' : Derivation .sum, d'.tokens = d.tokens ∧ d'.tree = d.tree :=
    ⟨.ofProduct d, rfl, rfl⟩
  have ofPower (d : Derivation .power) (hc : c'.rank ≤ 2) :
      ∃ d' : Derivation c', d'.tokens = d.tokens ∧ d'.tree = d.tree := by
    cases c' with
    | sum => exact ofProduct (.ofPower d)
    | product => exact ⟨.ofPower d, rfl, rfl⟩
    | power => exact ⟨d, rfl, rfl⟩
    | atom => simp [Category.rank] at hc
  cases c with
  | sum =>
    cases c' with
    | sum => exact ⟨d, rfl, rfl⟩
    | product | power | atom => simp [Category.rank] at h
  | product =>
    cases c' with
    | sum => exact ofProduct d
    | product => exact ⟨d, rfl, rfl⟩
    | power | atom => simp [Category.rank] at h
  | power => exact ofPower d h
  | atom =>
    cases c' with
    | sum => exact ofPower (.ofAtom d) (by decide)
    | product => exact ofPower (.ofAtom d) (by decide)
    | power => exact ofPower (.ofAtom d) (by decide)
    | atom => exact ⟨d, rfl, rfl⟩

/-- A phrase has at least one token. -/
theorem tokens_ne_nil (d : Derivation c) : d.tokens ≠ [] := by
  induction d with
  | sum | product | power | group | number => simp [tokens]
  | ofProduct d ih => exact ih
  | ofPower d ih => exact ih
  | ofAtom d ih => exact ih

/-- A phrase has as many opening parentheses as closing ones. -/
theorem balanced_tokens (d : Derivation c) : ParensBalanced d.tokens := by
  induction d with
  | sum left t op ht right ihl ihr => exact ihl.operator ht.isOperator ihr
  | ofProduct d ih => exact ih
  | product left t op ht right ihl ihr => exact ihl.operator ht.isOperator ihr
  | ofPower d ih => exact ih
  | power base t ht exponent ihb ihe => exact ihb.operator (by rw [ht]; rfl) ihe
  | ofAtom d ih => exact ih
  | group opening ho inner closing hc ih =>
    unfold ParensBalanced at ih ⊢
    simp [tokens, ho, hc, ih]
  | number t ht => simp [ParensBalanced, tokens, ht]

end Derivation
end Grammar
end Reckon
