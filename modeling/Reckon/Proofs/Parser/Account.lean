import Reckon.Proofs.Parser.Grammar
import Reckon.Proofs.Parser.Run

/-!
# What a run has read

Whatever a call of the parser is given, the tokens it took are accounted for by the grammar.  If it
ends with a tree, they are a phrase with this tree; if it ends with an error, they are the beginning
of a phrase.  The category of the phrase is given by the binding power of the call: a sum for zero, a
product for one, a power for two.

`Run.account` shows this for all calls at once.  The part that carries it is what is known of a left
operand while operators are taken: its category, and that the next token binds no more tightly than
an operator that may follow a phrase of this category.
-/

namespace Reckon
namespace Grammar

/-- The category of the phrases that are read with a binding power. -/
def Category.ofPower : Nat → Category
  | 0 => .sum
  | 1 => .product
  | _ => .power

theorem Category.rank_ofPower {power : Nat} (h : power ≤ 2) : (ofPower power).rank = power := by
  obtain rfl | rfl | rfl : power = 0 ∨ power = 1 ∨ power = 2 := by omega
  all_goals rfl

/-- The binding power of the tightest operator that may follow a phrase of a category. -/
def Category.bound : Category → Nat
  | .sum => 1
  | .product => 2
  | .power => 2
  | .atom => 3

/-- There are phrases of every category. -/
theorem exists_derivation (c : Category) : Nonempty (Derivation c) := by
  have hatom : Derivation .atom := .number (Token.make .number [] 0) rfl
  obtain ⟨d, -⟩ := hatom.exists_widen (show c.rank ≤ Category.rank .atom by cases c <;> decide)
  exact ⟨d⟩

/-- The tokens `taken` are a phrase with the tree of a result, or the beginning of a phrase when the
result is an error. -/
def Accounts (c : Category) (taken : List Token) : Except ParseError Expr → Prop
  | .ok tree => ∃ d : Derivation c, d.tokens = taken ∧ d.tree = tree
  | .error _ => ∃ d : Derivation c, taken <+: d.tokens

theorem Accounts.widen {c c' : Category} {taken : List Token} {r : Except ParseError Expr}
    (h : Accounts c taken r) (hrank : c'.rank ≤ c.rank) : Accounts c' taken r := by
  cases r with
  | ok tree =>
    obtain ⟨d, rfl, rfl⟩ := h
    exact d.exists_widen hrank
  | error e =>
    obtain ⟨d, hbegin⟩ := h
    obtain ⟨d', htokens, -⟩ := d.exists_widen hrank
    exact ⟨d', htokens ▸ hbegin⟩

/-- An opening parenthesis and the beginning of a sum begin an atom. -/
theorem accounts_group {opening : Token} {taken : List Token} {d : Derivation .sum}
    (hopening : opening.kind = .parenLeft) (htaken : taken <+: d.tokens) (e : ParseError) :
    Accounts .atom (opening :: taken) (.error e) := by
  refine ⟨.group opening hopening d (Token.make .parenRight [] 0) rfl, ?_⟩
  simp only [Derivation.tokens, List.cons_append, List.cons_prefix_cons, true_and]
  exact htaken.trans (List.prefix_append _ _)

end Grammar

namespace Parser

open Grammar

/-- The binding power with which the right operand of an operator is read. -/
def rightPower (kind : TokenKind) : Nat :=
  if kind = .caret then 2 else bindingPower kind

theorem bindingPower_le_three (kind : TokenKind) : bindingPower kind ≤ 3 := by
  cases kind <;> simp [bindingPower]

theorem rightPower_le_two (kind : TokenKind) : rightPower kind ≤ 2 := by
  cases kind <;> simp [rightPower, bindingPower]

/-- The operators are those of sums, those of products and `^`. -/
theorem operation?_cases {kind : TokenKind} {op : Operation} (h : operation? kind = some op) :
    (Additive kind op ∧ bindingPower kind = 1 ∧ rightPower kind = 1) ∨
      (Multiplicative kind op ∧ bindingPower kind = 2 ∧ rightPower kind = 2) ∨
      (kind = .caret ∧ op = .exponent ∧ bindingPower kind = 3 ∧ rightPower kind = 2) := by
  cases kind <;> simp only [operation?, Option.some.injEq, reduceCtorEq] at h
  case plus => exact h ▸ Or.inl ⟨.plus, rfl, rfl⟩
  case minus => exact h ▸ Or.inl ⟨.minus, rfl, rfl⟩
  case asterisk => exact h ▸ Or.inr (Or.inl ⟨.asterisk, rfl, rfl⟩)
  case slash => exact h ▸ Or.inr (Or.inl ⟨.slash, rfl, rfl⟩)
  case caret => exact h ▸ Or.inr (Or.inr ⟨rfl, rfl, rfl, rfl⟩)

/-- An operator that may follow a phrase joins it to a right operand.  The phrase so made has a
category of its own, and what may follow it is what ends the right operand. -/
theorem exists_join {c : Category} {t : Token} {op : Operation} (left : Derivation c)
    (hbound : bindingPower t.kind ≤ c.bound) (hop : operation? t.kind = some op)
    (right : Derivation (Category.ofPower (rightPower t.kind))) :
    ∃ (c' : Category) (d : Derivation c'),
      d.tokens = left.tokens ++ t :: right.tokens ∧
      d.tree = .binary op left.tree right.tree ∧
      bindingPower t.kind = c'.rank + 1 ∧ c'.bound = rightPower t.kind := by
  have hrank := Category.rank_ofPower (rightPower_le_two t.kind)
  rcases operation?_cases hop with
    ⟨ht, hbind, hright⟩ | ⟨ht, hbind, hright⟩ | ⟨ht, rfl, hbind, hright⟩
  · obtain ⟨l, hl, hl'⟩ := left.exists_widen (show Category.rank .sum ≤ c.rank from Nat.zero_le _)
    obtain ⟨r, hr, hr'⟩ := right.exists_widen (show Category.rank .product ≤ _ by
      rw [hrank, hright]
      decide)
    exact ⟨.sum, .sum l t op ht r, by simp [Derivation.tokens, hl, hr],
      by simp [Derivation.tree, hl', hr'], hbind, hright.symm⟩
  · obtain ⟨l, hl, hl'⟩ := left.exists_widen (show Category.rank .product ≤ c.rank by
      rw [hbind] at hbound
      cases c <;> simp [Category.bound, Category.rank] at hbound ⊢)
    obtain ⟨r, hr, hr'⟩ := right.exists_widen (show Category.rank .power ≤ _ by
      rw [hrank, hright]
      decide)
    exact ⟨.product, .product l t op ht r, by simp [Derivation.tokens, hl, hr],
      by simp [Derivation.tree, hl', hr'], hbind, hright.symm⟩
  · obtain ⟨l, hl, hl'⟩ := left.exists_widen (show Category.rank .atom ≤ c.rank by
      rw [hbind] at hbound
      cases c <;> simp [Category.bound, Category.rank] at hbound ⊢)
    obtain ⟨r, hr, hr'⟩ := right.exists_widen (show Category.rank .power ≤ _ by
      rw [hrank, hright]
      decide)
    exact ⟨.power, .power l t ht r, by simp [Derivation.tokens, hl, hr],
      by simp [Derivation.tree, hl', hr'], hbind, hright.symm⟩

/-- What a call that took `taken` has achieved. -/
def Achieves (f : Frame) (s : State) (taken : List Token) (r : Except ParseError Expr)
    (after : State) : Call → Prop
  | .expression power =>
    power ≤ 2 → Accounts (Category.ofPower power) taken r ∧
      ∀ tree, r = .ok tree → bindingPower (after.peek f).kind ≤ power
  | .group opening => opening.kind = .parenLeft → Accounts .atom (opening :: taken) r
  | .enclosed => ∀ opening : Token, opening.kind = .parenLeft → Accounts .atom (opening :: taken) r
  | .operand t =>
    0 < bindingPower t.kind → Accounts (Category.ofPower (rightPower t.kind)) taken r ∧
      ∀ tree, r = .ok tree → bindingPower (after.peek f).kind ≤ rightPower t.kind
  | .climb power left =>
    ∀ (c : Category) (d : Derivation c), d.tree = left → power ≤ c.rank → power ≤ 2 →
      bindingPower (s.peek f).kind ≤ c.bound →
      Accounts (Category.ofPower power) (d.tokens ++ taken) r ∧
        ∀ tree, r = .ok tree → bindingPower (after.peek f).kind ≤ power

/-- The tokens that a call took are accounted for. -/
theorem Run.account {f : Frame} {call : Call} {s after : State} {r : Except ParseError Expr}
    (h : Run f call s r after) :
    ∃ taken, s.rest = taken ++ after.rest ∧ Achieves f s taken r after call := by
  induction h with
  | missing hnumber hparen =>
    refine ⟨[], rfl, fun hpower => ⟨?_, by simp⟩⟩
    obtain ⟨d⟩ := exists_derivation (.ofPower _)
    exact ⟨d, List.nil_prefix⟩
  | @number power t ts depth r after ht hclimb ih =>
    obtain ⟨taken, hrest, hach⟩ := ih
    refine ⟨t :: taken, by simpa using hrest, fun hpower => ?_⟩
    exact hach .atom (.number t ht) rfl (by simp [Category.rank]; omega) hpower
      (bindingPower_le_three _)
  | @grouped power t ts depth inner r mid after ht hgroup hclimb ihgroup ihclimb =>
    obtain ⟨taken₁, hrest₁, hach₁⟩ := ihgroup
    obtain ⟨taken₂, hrest₂, hach₂⟩ := ihclimb
    refine ⟨t :: taken₁ ++ taken₂, by simpa [← hrest₂] using hrest₁, fun hpower => ?_⟩
    obtain ⟨d, htokens, htree⟩ := hach₁ ht
    rw [← htokens]
    exact hach₂ .atom d htree (by simp [Category.rank]; omega) hpower (bindingPower_le_three _)
  | @groupedFailed power t ts depth e after ht hgroup ih =>
    obtain ⟨taken, hrest, hach⟩ := ih
    refine ⟨t :: taken, by simpa using hrest, fun hpower => ⟨?_, by simp⟩⟩
    apply (hach ht).widen
    rw [Category.rank_ofPower hpower]
    exact Nat.le_succ_of_le hpower
  | group hroom hinner ih =>
    obtain ⟨taken, hrest, hach⟩ := ih
    exact ⟨taken, hrest, hach _⟩
  | groupRefused hfull =>
    refine ⟨[], rfl, fun hopening => ?_⟩
    obtain ⟨d⟩ := exists_derivation .sum
    exact accounts_group hopening (List.nil_prefix (l := d.tokens)) _
  | empty hclose =>
    refine ⟨[], rfl, fun opening hopening => ?_⟩
    obtain ⟨d⟩ := exists_derivation .sum
    exact accounts_group hopening (List.nil_prefix (l := d.tokens)) _
  | @closed s tree after hopen hinner hclose ih =>
    obtain ⟨taken, hrest, hach⟩ := ih
    obtain ⟨⟨d, rfl, rfl⟩, -⟩ := hach (by decide)
    obtain ⟨ts, hts⟩ := exists_rest_of_peek (by rw [hclose]; decide)
    refine ⟨d.tokens ++ [after.peek f], ?_, fun opening hopening => ?_⟩
    · simp [hrest, State.advance, hts]
    · exact ⟨.group opening hopening d _ hclose, rfl, rfl⟩
  | unclosed hopen hinner hclose ih =>
    obtain ⟨taken, hrest, hach⟩ := ih
    obtain ⟨⟨d, rfl, rfl⟩, -⟩ := hach (by decide)
    exact ⟨d.tokens, hrest, fun opening hopening =>
      accounts_group hopening (List.prefix_refl _) _⟩
  | enclosedFailed hopen hinner ih =>
    obtain ⟨taken, hrest, hach⟩ := ih
    obtain ⟨⟨d, hbegin⟩, -⟩ := hach (by decide)
    exact ⟨taken, hrest, fun opening hopening => accounts_group hopening hbegin _⟩
  | @operand t s r after ht hright ih =>
    obtain ⟨taken, hrest, hach⟩ := ih
    have hpower : rightPower t.kind = bindingPower t.kind := if_neg ht
    refine ⟨taken, hrest, fun _ => ?_⟩
    rw [hpower]
    exact hach (hpower ▸ rightPower_le_two _)
  | @exponent t s r after ht hroom hright ih =>
    obtain ⟨taken, hrest, hach⟩ := ih
    have hpower : rightPower t.kind = bindingPower t.kind - 1 := by
      simp [rightPower, ht, bindingPower]
    refine ⟨taken, hrest, fun _ => ?_⟩
    rw [hpower]
    exact hach (hpower ▸ rightPower_le_two _)
  | exponentRefused ht hfull =>
    refine ⟨[], rfl, fun _ => ⟨?_, by simp⟩⟩
    obtain ⟨d⟩ := exists_derivation (.ofPower _)
    exact ⟨d, List.nil_prefix⟩
  | @done power left s hpower =>
    refine ⟨[], rfl, fun c d htree hrank htwo hbound => ⟨?_, ?_⟩⟩
    · obtain ⟨d', htokens, htree'⟩ := d.exists_widen
        (show (Category.ofPower power).rank ≤ c.rank by rwa [Category.rank_ofPower htwo])
      exact ⟨d', by simp [htokens], htree'.trans htree⟩
    · intro tree _
      exact hpower
  | @applied power left right t ts depth op r mid after hlt hop hright hclimb ihright ihclimb =>
    obtain ⟨taken₁, hrest₁, hach₁⟩ := ihright
    obtain ⟨taken₂, hrest₂, hach₂⟩ := ihclimb
    refine ⟨t :: taken₁ ++ taken₂, by simpa [← hrest₂] using hrest₁, ?_⟩
    intro c d htree hrank htwo hbound
    -- The joined phrase is the next left operand; what ended the right one may follow it.
    obtain ⟨⟨dr, rfl, rfl⟩, hnext⟩ := hach₁ (Nat.zero_lt_of_lt hlt)
    obtain ⟨c', d', htokens, htree', hbind, hbound'⟩ := exists_join (t := t) d hbound hop dr
    have hstep := hach₂ c' d' (by rw [htree', htree]) (by omega) htwo
      (by rw [hbound']; exact hnext _ rfl)
    simpa [htokens] using hstep
  | @appliedFailed power left t ts depth op e after hlt hop hright ih =>
    obtain ⟨taken, hrest, hach⟩ := ih
    refine ⟨t :: taken, by simpa using hrest, ?_⟩
    intro c d htree hrank htwo hbound
    obtain ⟨⟨dr, hbegin⟩, -⟩ := hach (Nat.zero_lt_of_lt hlt)
    obtain ⟨c', d', htokens, -, hbind, -⟩ := exists_join (t := t) d hbound hop dr
    refine ⟨?_, by simp⟩
    apply Accounts.widen (c := c')
    · refine ⟨d', ?_⟩
      rw [htokens]
      exact (List.prefix_append_right_inj _).mpr (List.cons_prefix_cons.mpr ⟨rfl, hbegin⟩)
    · rw [Category.rank_ofPower htwo]
      omega

end Parser
end Reckon
