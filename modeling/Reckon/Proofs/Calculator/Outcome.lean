import Reckon.Proofs.Expr.RoundTrip
import Reckon.Proofs.Parser.ErrorPlace

/-!
# What becomes of a text

A calculator gives a text a value or a failure of a known kind.  No defect is met on the way: the tree
of a text is spelled, and on spelled trees double precision always has a value, while arbitrary
precision has a value or an operation without a result.

How a text is read depends on the mode and the limit only.  Two calculators that differ in nothing but
precision either both fail to read a text, and in the same way, or both evaluate its tree.
-/

namespace Reckon
namespace Expr

/-! ## Double precision -/

theorem exists_applyDouble
    {op : Operation} (hop : op.isDefined = true) (x y : Float) :
    ∃ z, applyDouble op x y = .ok z := by
  cases op with
  | undefined code => cases hop
  | add | subtract | multiply | divide | exponent => exact ⟨_, rfl⟩

theorem Spelled.exists_evaluate {e : Expr} (h : e.Spelled) : ∃ x, e.evaluate = .ok x := by
  induction h with
  | constant => exact ⟨_, rfl⟩
  | binary hop _ _ ihl ihr =>
    obtain ⟨x, hx⟩ := ihl
    obtain ⟨y, hy⟩ := ihr
    simp only [evaluate, hx, hy]
    exact exists_applyDouble hop x y

/-! ## Arbitrary precision -/

/-- A literal can be read at every precision. -/
theorem exists_constantBinary
    {value : Float} {text : Bytes} (prec : Nat) (h : Literal.Spells text value) :
    ∃ x, constantBinary prec value text = .ok x := by
  have hread : ∃ x, Binary.read? prec text = some x := by
    unfold Binary.read?
    split
    · exact ⟨_, rfl⟩
    · obtain ⟨n, hn, hplain⟩ := Literal.exists_readWide? h.isNumeric h.wellFormed
      rw [hn, Option.bind_some, Binary.ofNumeral?]
      by_cases hzero : n.digits = 0
      · simp [hzero]
      · simp [hzero, hplain]
  obtain ⟨x, hx⟩ := hread
  refine ⟨x, ?_⟩
  simp [constantBinary, h.ne_nil, hx]

theorem applyBinary_cases
    {op : Operation} (hop : op.isDefined = true) (prec : Nat) (x y : Binary)
    (fraction : Binary.FractionalPower) :
    (∃ z, applyBinary prec op x y fraction = .ok z) ∨
      ∃ reason, applyBinary prec op x y fraction = .error (.domain op reason) := by
  cases op with
  | undefined code => cases hop
  | add | subtract | multiply | divide | exponent =>
    simp only [applyBinary]
    split
    · exact Or.inl ⟨_, rfl⟩
    · exact Or.inr ⟨_, rfl⟩

/-- A spelled tree has a value in arbitrary precision unless an operation in it has none. -/
theorem Spelled.evaluateAt_cases
    {e : Expr} (h : e.Spelled) (prec : Nat) (fraction : Binary.FractionalPower) :
    (∃ x, e.evaluateAt prec fraction = .ok x) ∨
      ∃ op reason, op.isDefined = true ∧
        e.evaluateAt prec fraction = .error (.domain op reason) := by
  induction h with
  | constant hspells =>
    left
    simp only [evaluateAt]
    exact exists_constantBinary prec hspells
  | @binary op left right hop _ _ ihl ihr =>
    simp only [evaluateAt]
    rcases ihl with ⟨x, hx⟩ | ⟨op', reason, hop', hx⟩
    · rcases ihr with ⟨y, hy⟩ | ⟨op', reason, hop', hy⟩
      · simp only [hx, hy]
        refine (applyBinary_cases hop prec x y fraction).imp_right ?_
        rintro ⟨reason, hreason⟩
        exact ⟨op, reason, hop, hreason⟩
      · right
        exact ⟨op', reason, hop', by simp only [hx, hy]⟩
    · right
      exact ⟨op', reason, hop', by simp only [hx]⟩

end Expr

/-! ## Failures -/

namespace Failure

/-- The kinds of failure to read a text. -/
def readingKinds : List Bytes :=
  ["InvalidConstant", "UnknownSymbol", "UnbalancedParenthesis", "MalformedExpression"]

/-- The kinds of failure that a text can have. -/
def kinds : List Bytes :=
  "Domain" :: readingKinds

/-- Whether a failure arose before there was a tree. -/
def isReading (f : Failure) : Bool :=
  match f.cause with
  | .lexical _ | .structural _ => true
  | _ => false

/-- A failure that can be put into words and has one of the kinds. -/
structure Classified (f : Failure) : Prop where
  no_defect : f.defect? = none
  known : f.isKnown = true
  kind_mem : f.details.kind ∈ kinds

theorem classified_domain
    {op : Operation} (hop : op.isDefined = true) (step : Bytes) (reason : Undefined) :
    Classified (.during step (.domain op reason)) := by
  refine ⟨?_, rfl, ?_⟩
  · cases op with
    | undefined code => cases hop
    | add | subtract | multiply | divide | exponent => rfl
  · exact List.mem_cons_self

end Failure

theorem Lexical.Fault.name_mem
    {mode : Mode} {s : Bytes} {i : Nat} {e : LexError} (h : Fault mode s i e) :
    e.kind.name ∈ Failure.readingKinds := by
  cases h with
  | foreign =>
    show ("UnknownSymbol" : Bytes) ∈ Failure.readingKinds
    decide
  | literal =>
    show ("InvalidConstant" : Bytes) ∈ Failure.readingKinds
    decide

theorem Parser.name_mem_of_parse
    {limit : Int} {ts : List Token} {e : ParseError} (h : parse limit ts = .error e) :
    e.kind.name ∈ Failure.readingKinds := by
  rcases (parse_error_place h).1 with hkind | hkind
  · rw [hkind]
    decide
  · rw [hkind]
    decide

/-- A failure to read a text is classified, and by a kind of its own. -/
theorem parseText_error_classified
    {mode : Mode} {limit : Int} {s : Bytes} {f : Failure} (h : parseText mode limit s = .error f)
    (step : Bytes) :
    (Failure.during step f).Classified ∧ (Failure.during step f).isReading = true ∧
      (Failure.during step f).details.kind ∈ Failure.readingKinds := by
  rcases parseText_cases mode limit s with
    ⟨e, htokens, herror⟩ | ⟨ts, e, -, hparse, herror⟩ | ⟨ts, tree, -, -, hok⟩
  · cases h.symm.trans herror
    obtain ⟨ts, hreads⟩ := Lexer.tokenize_eq_error_iff.mp htokens
    obtain ⟨n, hfault, -⟩ := hreads.exists_first_fault
    exact ⟨⟨rfl, rfl, List.mem_cons_of_mem _ hfault.name_mem⟩, rfl, hfault.name_mem⟩
  · cases h.symm.trans herror
    have hname := Parser.name_mem_of_parse hparse
    exact ⟨⟨rfl, rfl, List.mem_cons_of_mem _ hname⟩, rfl, hname⟩
  · cases h.symm.trans hok

namespace Calculator

/-! ## Evaluation -/

/-- The value of a spelled tree fails only in arbitrary precision, where an operation has no result. -/
theorem value_cases
    (c : Calculator) {tree : Expr} (h : tree.Spelled) (fraction : Binary.FractionalPower)
    (location : UInt64) :
    (∃ r, c.value tree fraction location = .ok r) ∨
      c.precision ≠ 0 ∧ ∃ op reason, op.isDefined = true ∧
        c.value tree fraction location =
          .error (.during "evaluate" (.domain op reason)) := by
  unfold value
  by_cases hprec : c.precision = 0
  · left
    obtain ⟨x, hx⟩ := h.exists_evaluate
    simp [hprec, hx]
  · simp only [hprec, ↓reduceIte, Expr.evaluateBinary]
    rcases h.evaluateAt_cases (Binary.clampPrec c.precision) fraction with
      ⟨x, hx⟩ | ⟨op, reason, hop, hx⟩
    · left
      exact ⟨_, by rw [hx]⟩
    · right
      refine ⟨hprec, op, reason, hop, ?_⟩
      rw [hx]
      rfl

/-- A text fails as it is read, or its tree is evaluated. -/
theorem eval_cases
    (c : Calculator) (s : Bytes) (fraction : Binary.FractionalPower) (location : UInt64) :
    (∃ f, parseText c.mode c.maxDepth s = .error f ∧
      c.eval s fraction location = .error (.during "parse" f)) ∨
      ∃ tree, parseText c.mode c.maxDepth s = .ok tree ∧
        c.eval s fraction location = c.value tree fraction location := by
  unfold eval
  cases parseText c.mode c.maxDepth s with
  | error f => exact Or.inl ⟨f, rfl, rfl⟩
  | ok tree => exact Or.inr ⟨tree, rfl, rfl⟩

/-- Without a limit, a text that is one literal has the value of the literal. -/
theorem eval_literal
    (c : Calculator) {text : Bytes} {value : Float} (h : Literal.Spells text value)
    (hdepth : c.maxDepth = 0) (fraction : Binary.FractionalPower) (location : UInt64) :
    c.eval text fraction location = c.value (.constant value text) fraction location := by
  have hparse := (Expr.readsBack_constant h).parseText_eq c.mode
  simp [eval, hdepth, hparse]

theorem value_ne_reading
    (c : Calculator) {tree : Expr} (h : tree.Spelled) {f : Failure} (hf : f.isReading = true)
    (fraction : Binary.FractionalPower) (location : UInt64) :
    c.value tree fraction location ≠ .error f := by
  intro hvalue
  rcases c.value_cases h fraction location with ⟨r, hr⟩ | ⟨-, op, reason, -, herror⟩
  · cases hvalue.symm.trans hr
  · cases hvalue.symm.trans herror
    cases hf

/-- Every text has a value or a failure that is classified; an operation without a result is met in
arbitrary precision only.  Whether a text fails to be read, and how, does not depend on the
precision.  None of this depends on how fractional powers are computed or where values are stored. -/
theorem eval_classified
    (c : Calculator) (s : Bytes) (fraction : Binary.FractionalPower) (location : UInt64) :
    ((∃ r, c.eval s fraction location = .ok r) ∨
      ∃ f, c.eval s fraction location = .error f ∧ f.Classified ∧
        (f.details.kind = ("Domain" : Bytes) → c.precision ≠ 0)) ∧
    ∀ (c' : Calculator) (fraction' : Binary.FractionalPower) (location' : UInt64),
      c'.mode = c.mode → c'.maxDepth = c.maxDepth →
        (∃ f, f.isReading = true ∧ c.eval s fraction location = .error f ∧
          c'.eval s fraction' location' = .error f) ∨
        ∀ f, f.isReading = true →
          c.eval s fraction location ≠ .error f ∧ c'.eval s fraction' location' ≠ .error f := by
  constructor
  · rcases c.eval_cases s fraction location with ⟨f, hparse, herror⟩ | ⟨tree, hparse, hvalue⟩
    · obtain ⟨hclassified, -, hkind⟩ := parseText_error_classified hparse "parse"
      refine Or.inr ⟨_, herror, hclassified, ?_⟩
      intro hdomain
      rw [hdomain] at hkind
      exact absurd hkind (by decide)
    · rw [hvalue]
      refine (c.value_cases (spelled_of_parseText hparse) fraction location).imp_right ?_
      rintro ⟨hprec, op, reason, hop, herror⟩
      exact ⟨_, herror, Failure.classified_domain hop _ _, fun _ => hprec⟩
  · intro c' fraction' location' hmode hdepth
    rcases c.eval_cases s fraction location with ⟨f, hparse, herror⟩ | ⟨tree, hparse, hvalue⟩
    · left
      obtain ⟨-, hreading, -⟩ := parseText_error_classified hparse "parse"
      refine ⟨_, hreading, herror, ?_⟩
      simp [eval, hmode, hdepth, hparse]
    · right
      intro f hf
      have hspelled := spelled_of_parseText hparse
      have hvalue' : c'.eval s fraction' location' = c'.value tree fraction' location' := by
        simp [eval, hmode, hdepth, hparse]
      rw [hvalue, hvalue']
      exact ⟨c.value_ne_reading hspelled hf fraction location,
        c'.value_ne_reading hspelled hf fraction' location'⟩

/-- A text with an unknown symbol fails alike in double precision and with 64 bits. -/
theorem eval_classified_of_symbol :
    ∃ f : Failure, f.isReading = true ∧ ({} : Calculator).eval [0x23] = .error f ∧
      ({ precision := 64 } : Calculator).eval [0x23] = .error f := by
  have hfault : Lexical.Fault .strict [0x23] 0 ⟨.unknownSymbol, 0, Quoted.char '#'⟩ :=
    .foreign (b := 0x23) (by decide) rfl (by decide)
  have htokens := Lexer.tokenize_eq_error_iff.mpr ⟨[], .fault hfault⟩
  have herror : ({} : Calculator).eval [0x23] = .error (.during "parse" (.during "tokenize"
      (.lexical ⟨.unknownSymbol, 0, Quoted.char '#'⟩))) := by
    simp [eval, parseText, htokens]
  have hall := eval_classified {} [0x23] .rounded 0
  rcases hall.2 { precision := 64 } .rounded 0 rfl rfl with hsame | hnone
  · exact hsame
  · exact absurd herror (hnone _ rfl).1

end Calculator
end Reckon
