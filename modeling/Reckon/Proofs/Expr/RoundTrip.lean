import Reckon.Proofs.Expr.Spelled

/-!
# Trees are read back from their texts

The text of a spelled tree is parsed to the same tree.  The text of a subtree stands somewhere inside
a longer text, so that the induction on trees is about any place of any text: reading goes through the
text of the subtree, whatever comes after it, and takes the tokens of an atom with this subtree as its
tree.  All that is asked of the place is that no digit or point stands next to it, where a literal
would be drawn into a longer run.

Every operation is written with its parentheses.  An atom may be an operand of any operator, and so
binding powers play no part in what the text is parsed to.
-/

namespace Reckon
namespace Lexical

variable {mode : Mode} {s piece rest : Bytes} {i : Nat} {b : UInt8}
variable {ts : List Token} {r : Option LexError}

theorem getElem?_of_drop_eq_cons (h : s.drop i = b :: rest) : s[i]? = some b := by
  have hget : (s.drop i)[0]? = some b := by rw [h]; rfl
  simpa using hget

theorem drop_of_drop_eq_append (h : s.drop i = piece ++ rest) :
    s.drop (i + piece.length) = rest := by
  rw [← List.drop_drop, h, List.drop_left]

theorem drop_of_drop_eq_cons (h : s.drop i = b :: rest) : s.drop (i + 1) = rest :=
  drop_of_drop_eq_append (show s.drop i = [b] ++ rest from h)

/-- A piece stands in a text from an index on, with no digit or point next to it. -/
structure Stands (s : Bytes) (i : Nat) (piece rest : Bytes) : Prop where
  drop_eq : s.drop i = piece ++ rest
  before : ∀ k, k + 1 = i → ¬ ByteAt Literal.isNumeric s k
  after : ¬ ByteAt Literal.isNumeric s (i + piece.length)

theorem not_byteAt_of_drop_eq_cons
    (h : s.drop i = b :: rest) (hb : Literal.isNumeric b = false) :
    ¬ ByteAt Literal.isNumeric s i := by
  rw [byteAt_iff (getElem?_of_drop_eq_cons h), hb]
  decide

/-- A piece stands between two bytes that are neither digits nor points. -/
theorem stands_between
    {c : UInt8} (h : s.drop i = b :: (piece ++ c :: rest)) (hb : Literal.isNumeric b = false)
    (hc : Literal.isNumeric c = false) : Stands s (i + 1) piece (c :: rest) := by
  have hpiece : s.drop (i + 1) = piece ++ c :: rest := drop_of_drop_eq_cons h
  have hbehind : s.drop (i + 1 + piece.length) = c :: rest := drop_of_drop_eq_append hpiece
  refine ⟨hpiece, ?_, not_byteAt_of_drop_eq_cons hbehind hc⟩
  intro k hk
  obtain rfl : k = i := by omega
  exact not_byteAt_of_drop_eq_cons h hb

/-! ## Reading the parts of a text -/

theorem Reads.symbol
    {kind : TokenKind} (hb : s[i]? = some b) (hkind : Alphabet.symbol? b = some kind)
    (h : Reads mode s (i + 1) ts r) : Reads mode s i (Token.make kind [b] i :: ts) r :=
  .token (.symbol hb hkind) (not_fault_of_symbol hb hkind) h

theorem Reads.space
    (hb : s[i]? = some 0x20) (h : Reads mode s (i + 1) ts r) : Reads mode s i ts r :=
  .skip hb (Or.inl rfl) h

theorem Stands.slice_eq (h : Stands s i piece rest) : slice s i (i + piece.length) = piece := by
  rw [slice, List.drop_take, h.drop_eq, Nat.add_sub_cancel_left, List.take_left]

/-- A literal that stands in a text is a run of it. -/
theorem Stands.maximalRun
    {value : Float} (h : Stands s i piece rest) (hspells : Literal.Spells piece value) :
    MaximalRun s i (i + piece.length) := by
  have hpos : 0 < piece.length := List.length_pos_iff.mpr hspells.ne_nil
  refine ⟨by omega, ?_, h.before, h.after⟩
  intro k hle hlt
  obtain ⟨n, rfl⟩ := Nat.exists_eq_add_of_le hle
  have hn : n < piece.length := by omega
  refine ⟨piece[n], ?_, hspells.isNumeric _ (List.getElem_mem hn)⟩
  have hget : (s.drop i)[n]? = some piece[n] := by
    rw [h.drop_eq, List.getElem?_append_left hn, List.getElem?_eq_getElem hn]
  rw [List.getElem?_drop] at hget
  exact hget

theorem Reads.literal
    {value : Float} (h : Stands s i piece rest) (hspells : Literal.Spells piece value)
    (hrest : Reads mode s (i + piece.length) ts r) :
    Reads mode s i (Token.make .number piece i :: ts) r := by
  have hrun : MaximalRun s i (i + piece.length) := h.maximalRun hspells
  have hlex := Lexeme.number hrun
  have hgood := hspells.wellFormed
  rw [← h.slice_eq] at hgood
  rw [h.slice_eq] at hlex
  exact .token hlex (not_fault_of_wellFormed hrun hgood) hrest

end Lexical

namespace Expr

open Lexical Grammar

/-- A tree is written as `out`, whatever is written after it. -/
def Prints (e : Expr) (out : Bytes) : Prop :=
  ∀ tail, e.dumpOnto tail = .ok (out ++ tail)

/-- Wherever `out` stands in a text, reading takes the tokens of an atom with the tree `e` from it. -/
def ReadsBack (e : Expr) (out : Bytes) : Prop :=
  ∀ (mode : Mode) (s : Bytes) (i : Nat) (rest : Bytes), Stands s i out rest →
    ∃ d : Derivation .atom, d.tree = e ∧
      ∀ ts r, Reads mode s (i + out.length) ts r → Reads mode s i (d.tokens ++ ts) r

/-- The text of an operation on two subtrees. -/
def operationText (symbol : UInt8) (left right : Bytes) : Bytes :=
  0x28 :: (left ++ 0x20 :: symbol :: 0x20 :: (right ++ [0x29]))

/-! ## Constants -/

theorem prints_constant
    {value : Float} {text : Bytes} (h : text ≠ []) : Prints (.constant value text) text := by
  intro tail
  simp [dumpOnto, constantText, h]

theorem readsBack_constant
    {value : Float} {text : Bytes} (h : Literal.Spells text value) :
    ReadsBack (.constant value text) text := by
  intro mode s i rest hstands
  refine ⟨.number (Token.make .number text i) rfl, ?_, ?_⟩
  · simp [Derivation.tree, Token.make, Double.readOrZero, h.read]
  · intro ts r hrest
    exact .literal hstands h hrest

/-! ## Operations -/

/-- An operation that is defined is written as one byte, and this byte is read as its operator. -/
theorem exists_symbol
    {op : Operation} (h : op.isDefined = true) :
    ∃ symbol kind, op.symbol = [symbol] ∧ Alphabet.symbol? symbol = some kind ∧
      Parser.operation? kind = some op := by
  cases op with
  | add => exact ⟨0x2B, .plus, rfl, rfl, rfl⟩
  | subtract => exact ⟨0x2D, .minus, rfl, rfl, rfl⟩
  | multiply => exact ⟨0x2A, .asterisk, rfl, rfl, rfl⟩
  | divide => exact ⟨0x2F, .slash, rfl, rfl, rfl⟩
  | exponent => exact ⟨0x5E, .caret, rfl, rfl, rfl⟩
  | undefined code => cases h

theorem prints_binary
    {op : Operation} {left right : Expr} {symbol : UInt8} {a b : Bytes}
    (hsymbol : op.symbol = [symbol]) (hleft : Prints left a) (hright : Prints right b) :
    Prints (.binary op left right) (operationText symbol a b) := by
  intro tail
  rw [dumpOnto, hright]
  dsimp only
  rw [hleft, hsymbol]
  simp [operationText]

/-- Two atoms joined by an operator and put in parentheses are an atom. -/
theorem exists_group
    (opening t closing : Token) {op : Operation} (left right : Derivation .atom)
    (hopening : opening.kind = .parenLeft) (hop : Parser.operation? t.kind = some op)
    (hclosing : closing.kind = .parenRight) :
    ∃ d : Derivation .atom,
      d.tokens = opening :: (left.tokens ++ t :: right.tokens) ++ [closing] ∧
      d.tree = .binary op left.tree right.tree := by
  have hrank := Category.rank_ofPower (Parser.rightPower_le_two t.kind)
  obtain ⟨right', hright, hright'⟩ := right.exists_widen
    (show (Category.ofPower (Parser.rightPower t.kind)).rank ≤ Category.rank .atom by
      rw [hrank]
      exact Nat.le_succ_of_le (Parser.rightPower_le_two t.kind))
  obtain ⟨c, joined, htokens, htree, -⟩ :=
    Parser.exists_join left (Parser.bindingPower_le_three t.kind) hop right'
  obtain ⟨inner, hinner, hinner'⟩ := joined.exists_widen
    (show Category.rank .sum ≤ c.rank from Nat.zero_le _)
  refine ⟨.group opening hopening inner closing hclosing, ?_, ?_⟩
  · rw [Derivation.tokens, hinner, htokens, hright]
  · rw [Derivation.tree, hinner', htree, hright']

theorem readsBack_binary
    {op : Operation} {left right : Expr} {symbol : UInt8} {kind : TokenKind} {a b : Bytes}
    (hkind : Alphabet.symbol? symbol = some kind) (hop : Parser.operation? kind = some op)
    (hleft : ReadsBack left a) (hright : ReadsBack right b) :
    ReadsBack (.binary op left right) (operationText symbol a b) := by
  intro mode s i rest hstands
  -- What stands from the index of each part on, and the index behind the whole.
  have hopening : s.drop i = 0x28 :: (a ++ 0x20 :: symbol :: 0x20 :: (b ++ 0x29 :: rest)) := by
    simpa [operationText] using hstands.drop_eq
  have hfirst := drop_of_drop_eq_append (drop_of_drop_eq_cons hopening)
  have hoperator := drop_of_drop_eq_cons hfirst
  have hsecond := drop_of_drop_eq_cons hoperator
  have hclosing := drop_of_drop_eq_append (drop_of_drop_eq_cons hsecond)
  have hstop : i + (operationText symbol a b).length =
      i + 1 + a.length + 1 + 1 + 1 + b.length + 1 := by
    simp [operationText]
    omega
  obtain ⟨dl, rfl, hreadsl⟩ := hleft mode s _ _ (stands_between hopening (by decide) (by decide))
  obtain ⟨dr, rfl, hreadsr⟩ := hright mode s _ _ (stands_between hsecond (by decide) (by decide))
  obtain ⟨d, htokens, htree⟩ := exists_group
    (Token.make .parenLeft [0x28] i)
    (Token.make kind [symbol] (i + 1 + a.length + 1 : Nat))
    (Token.make .parenRight [0x29] (i + 1 + a.length + 1 + 1 + 1 + b.length : Nat))
    dl dr rfl hop rfl
  refine ⟨d, htree, ?_⟩
  intro ts r hrest
  rw [hstop] at hrest
  rw [htokens]
  simp only [List.cons_append, List.append_assoc, List.nil_append]
  apply Reads.symbol (getElem?_of_drop_eq_cons hopening) rfl
  apply hreadsl
  apply Reads.space (getElem?_of_drop_eq_cons hfirst)
  apply Reads.symbol (getElem?_of_drop_eq_cons hoperator) hkind
  apply Reads.space (getElem?_of_drop_eq_cons hsecond)
  apply hreadsr
  exact .symbol (getElem?_of_drop_eq_cons hclosing) rfl hrest

/-! ## Trees -/

/-- A spelled tree is written as a text from which it is read back. -/
theorem Spelled.exists_text
    {e : Expr} (h : e.Spelled) : ∃ out, Prints e out ∧ ReadsBack e out := by
  induction h with
  | @constant value text hspells =>
    exact ⟨text, prints_constant hspells.ne_nil, readsBack_constant hspells⟩
  | binary hop _ _ ihl ihr =>
    obtain ⟨a, hprintsl, hreadsl⟩ := ihl
    obtain ⟨b, hprintsr, hreadsr⟩ := ihr
    obtain ⟨symbol, kind, hsymbol, hkind, hop'⟩ := exists_symbol hop
    exact ⟨operationText symbol a b, prints_binary hsymbol hprintsl hprintsr,
      readsBack_binary hkind hop' hreadsl hreadsr⟩

/-- A text from which a tree is read back, when it is the whole text, is parsed to the tree. -/
theorem ReadsBack.parseText_eq
    {e : Expr} {out : Bytes} (h : ReadsBack e out) (mode : Mode) : parseText mode 0 out = .ok e := by
  have hstands : Stands out 0 out [] := by
    refine ⟨by simp, by simp, ?_⟩
    intro hbyte
    have hlt := lt_length_of_byteAt hbyte
    omega
  obtain ⟨d, rfl, hreads⟩ := h mode out 0 [] hstands
  obtain ⟨d', htokens, htree⟩ := d.exists_widen
    (show Category.rank .sum ≤ Category.rank .atom by decide)
  have hwhole : Reads mode out 0 d'.tokens none := by
    rw [htokens, ← List.append_nil d.tokens]
    apply hreads
    rw [Nat.zero_add]
    exact .finish
  have hparse : Parser.parse 0 d'.tokens = .ok d'.tree :=
    Parser.parse_of_derivation d' fun o _ => Parser.refuses_of_limit_le (Int.le_refl 0) _
  simp [parseText, Lexer.tokenize_eq_ok_iff.mpr hwhole, hparse, htree]

theorem Spelled.parseText_dump
    {e : Expr} (h : e.Spelled) :
    ∃ out, e.dump = .ok out ∧ ∀ mode, parseText mode 0 out = .ok e := by
  obtain ⟨out, hprints, hreads⟩ := h.exists_text
  refine ⟨out, ?_, hreads.parseText_eq⟩
  rw [dump, hprints, List.append_nil]

/-- The text of a spelled tree is parsed to the same tree.  Every tree that a text is parsed to is
one of them, in every mode and under every limit, and so no two such trees have the same text. -/
theorem parseText_dump_eq :
    (∀ e : Expr, e.Spelled → ∃ out, e.dump = .ok out ∧ ∀ mode, parseText mode 0 out = .ok e) ∧
    (∀ mode limit s e, parseText mode limit s = .ok e →
      ∃ out, e.dump = .ok out ∧ ∀ mode, parseText mode 0 out = .ok e) ∧
    (∀ mode mode' limit limit' s s' e e', parseText mode limit s = .ok e →
      parseText mode' limit' s' = .ok e' → e.dump = e'.dump → e = e') := by
  refine ⟨fun e h => h.parseText_dump, ?_, ?_⟩
  · intro mode limit s e h
    exact (spelled_of_parseText h).parseText_dump
  · intro mode mode' limit limit' s s' e e' h h' hsame
    obtain ⟨out, hdump, hparse⟩ := (spelled_of_parseText h).parseText_dump
    obtain ⟨out', hdump', hparse'⟩ := (spelled_of_parseText h').parseText_dump
    rw [hdump, hdump'] at hsame
    cases hsame
    exact Except.ok.inj ((hparse .strict).symm.trans (hparse' .strict))

/-- The difference of `.5` and a power of `2.` is written and read back. -/
theorem parseText_dump_eq_of_difference :
    ∃ e : Expr, e.Spelled ∧ e.dump = .ok ("(.5 - (2. ^ .5))" : Bytes) ∧
      parseText .strict 0 ("(.5 - (2. ^ .5))" : Bytes) = .ok e := by
  let half : Expr := .constant (Double.readOrZero [0x2E, 0x35]) [0x2E, 0x35]
  let two : Expr := .constant (Double.readOrZero [0x32, 0x2E]) [0x32, 0x2E]
  let e : Expr := .binary .subtract half (.binary .exponent two half)
  have hhalf : half.Spelled := .constant
    (Literal.spells_readOrZero (List.all_eq_true.mp rfl) ⟨⟨0x35, by decide, rfl⟩, by decide⟩)
  have htwo : two.Spelled := .constant
    (Literal.spells_readOrZero (List.all_eq_true.mp rfl) ⟨⟨0x32, by decide, rfl⟩, by decide⟩)
  have hspelled : e.Spelled := .binary rfl hhalf (.binary rfl htwo hhalf)
  have hdump : e.dump = .ok ("(.5 - (2. ^ .5))" : Bytes) := rfl
  obtain ⟨out, hout, hparse⟩ := parseText_dump_eq.1 e hspelled
  cases hdump.symm.trans hout
  exact ⟨e, hspelled, hdump, hparse .strict⟩

end Expr
end Reckon
