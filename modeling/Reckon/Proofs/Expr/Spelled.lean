import Reckon.Calculator
import Reckon.Proofs.Lexer.Tokenize
import Reckon.Proofs.Parser.Recognition

/-!
# Trees that can be spelled

A tree that was parsed from a text has no missing part, its operations are among the five that have a
symbol, and each of its constants carries the literal it was read from together with the number that
this literal spells.  These are the *spelled* trees.  Their texts can be written and read again, and
evaluation meets no defect in them.

The invariant enters with the tokens: a number token of a text holds a whole run of digits and points
that spells a number.  A phrase whose number tokens are of this kind has a spelled tree.
-/

namespace Reckon

/-- Whether an operation is one of the five that have a symbol. -/
def Operation.isDefined : Operation → Bool
  | .undefined _ => false
  | _ => true

/-- A text is one literal, and it spells a number. -/
structure Literal.Spells (text : Bytes) (value : Float) : Prop where
  isNumeric : ∀ b ∈ text, Literal.isNumeric b = true
  wellFormed : Literal.WellFormed text
  read : Double.read? text = some value

/-- A tree without missing parts whose operations are defined and whose constants are spelled. -/
inductive Expr.Spelled : Expr → Prop
  | constant {value : Float} {text : Bytes} (h : Literal.Spells text value) :
      Spelled (.constant value text)
  | binary {op : Operation} {left right : Expr} (hop : op.isDefined = true)
      (hleft : Spelled left) (hright : Spelled right) : Spelled (.binary op left right)

/-- A literal spells the number that it is read as. -/
theorem Literal.spells_readOrZero
    {text : Bytes} (hnumeric : ∀ b ∈ text, Literal.isNumeric b = true)
    (hgood : Literal.WellFormed text) : Literal.Spells text (Double.readOrZero text) := by
  have hsome : (Double.read? text).isSome = true := (Literal.isSome_read?_iff hnumeric).mpr hgood
  obtain ⟨value, hvalue⟩ := Option.isSome_iff_exists.mp hsome
  refine ⟨hnumeric, hgood, ?_⟩
  rw [Double.readOrZero, hvalue]
  rfl

theorem Literal.Spells.ne_nil
    {text : Bytes} {value : Float} (h : Literal.Spells text value) : text ≠ [] := by
  obtain ⟨b, hb, -⟩ := h.wellFormed.1
  exact List.ne_nil_of_mem hb

namespace Grammar

theorem Additive.isDefined
    {kind : TokenKind} {op : Operation} (h : Additive kind op) : op.isDefined = true := by
  cases h <;> rfl

theorem Multiplicative.isDefined
    {kind : TokenKind} {op : Operation} (h : Multiplicative kind op) : op.isDefined = true := by
  cases h <;> rfl

/-- A phrase has a spelled tree when its number tokens are spelled. -/
theorem Derivation.spelled_tree
    {c : Category} (d : Derivation c)
    (h : ∀ t ∈ d.tokens, t.kind = .number → Literal.Spells t.value t.num) : d.tree.Spelled := by
  induction d with
  | sum left t op ht right ihl ihr =>
    simp only [tokens, List.forall_mem_append, List.forall_mem_cons] at h
    exact .binary ht.isDefined (ihl h.1) (ihr h.2.2)
  | ofProduct d ih => exact ih h
  | product left t op ht right ihl ihr =>
    simp only [tokens, List.forall_mem_append, List.forall_mem_cons] at h
    exact .binary ht.isDefined (ihl h.1) (ihr h.2.2)
  | ofPower d ih => exact ih h
  | power base t ht exponent ihb ihe =>
    simp only [tokens, List.forall_mem_append, List.forall_mem_cons] at h
    exact .binary rfl (ihb h.1) (ihe h.2.2)
  | ofAtom d ih => exact ih h
  | group opening ho inner closing hc ih =>
    simp only [tokens, List.cons_append, List.forall_mem_cons, List.forall_mem_append] at h
    exact ih h.2.1
  | number t ht =>
    apply Expr.Spelled.constant
    exact h t List.mem_cons_self ht

end Grammar

namespace Lexical

theorem kind_ne_number_of_symbol?
    {b : UInt8} {kind : TokenKind} (h : Alphabet.symbol? b = some kind) : kind ≠ .number := by
  rintro rfl
  unfold Alphabet.symbol? at h
  split at h
  all_goals cases h

/-- The number tokens of a text are literals that spell their numbers. -/
theorem spells_of_lexeme
    {s : Bytes} {i j : Nat} {t : Token}
    (hruns : ∀ i j, MaximalRun s i j → Literal.WellFormed (slice s i j))
    (h : Lexeme s i j t) (hkind : t.kind = .number) : Literal.Spells t.value t.num := by
  cases h with
  | number hrun =>
    apply Literal.spells_readOrZero
    · intro b hb
      exact hrun.isNumeric_of_mem hb
    · exact hruns i j hrun
  | symbol hb hsymbol => exact (kind_ne_number_of_symbol? hsymbol hkind).elim

end Lexical

open Lexical Grammar

/-- A text fails as it is cut into tokens, fails as these are parsed, or has a tree. -/
theorem parseText_cases (mode : Mode) (limit : Int) (s : Bytes) :
    (∃ e, Lexer.tokenize mode s = .error e ∧
      parseText mode limit s = .error (.during "tokenize" (.lexical e))) ∨
    (∃ ts e, Lexer.tokenize mode s = .ok ts ∧ Parser.parse limit ts = .error e ∧
      parseText mode limit s = .error (.structural e)) ∨
    (∃ ts tree, Lexer.tokenize mode s = .ok ts ∧ Parser.parse limit ts = .ok tree ∧
      parseText mode limit s = .ok tree) := by
  cases htokens : Lexer.tokenize mode s with
  | error e => exact Or.inl ⟨e, rfl, by simp [parseText, htokens]⟩
  | ok ts =>
    right
    cases hparse : Parser.parse limit ts with
    | error e => exact Or.inl ⟨ts, e, rfl, hparse, by simp [parseText, htokens, hparse]⟩
    | ok tree => exact Or.inr ⟨ts, tree, rfl, hparse, by simp [parseText, htokens, hparse]⟩

theorem spelled_of_parseText
    {mode : Mode} {limit : Int} {s : Bytes} {tree : Expr}
    (h : parseText mode limit s = .ok tree) : tree.Spelled := by
  rcases parseText_cases mode limit s with
    ⟨e, -, herror⟩ | ⟨ts, e, -, -, herror⟩ | ⟨ts, tree', htokens, hparse, hok⟩
  · cases h.symm.trans herror
  · cases h.symm.trans herror
  · cases h.symm.trans hok
    have hreads := Lexer.tokenize_eq_ok_iff.mp htokens
    have hruns := (forall_not_fault_iff.mp hreads.not_fault).1
    obtain ⟨d, rfl, rfl⟩ := Parser.derives_of_parse hparse
    apply d.spelled_tree
    intro t ht hkind
    obtain ⟨k, j, -, hlex⟩ := hreads.ordered.1 t ht
    exact spells_of_lexeme hruns hlex hkind

end Reckon
