import Reckon.Proofs.Lexer.Movement

/-!
# Lexemes and faults

What the tokens of a text are is said of its bytes, by index and without any order of reading.  A
lexeme is a maximal run of digits and points, or a byte that is a symbol by itself.  A fault is a
maximal run that spells no number, or a foreign byte where these are not skipped.

`Reads` is reading from left to right: from an index on, one byte is skipped, one lexeme is taken, or
a fault ends the reading.  It takes exactly the lexemes of the text, each once and in their order,
and ends with the leftmost fault if there is one.
-/

namespace Reckon
namespace Lexical

variable {mode : Mode} {s : Bytes} {i j k : Nat} {b : UInt8}

/-- The bytes from `i` up to `j` are digits and points, and those next to them are not. -/
structure MaximalRun (s : Bytes) (i j : Nat) : Prop where
  lt : i < j
  inside : ∀ k, i ≤ k → k < j → ByteAt Literal.isNumeric s k
  before : ∀ k, k + 1 = i → ¬ ByteAt Literal.isNumeric s k
  after : ¬ ByteAt Literal.isNumeric s j

/-- A token stands in a text from `i` up to `j`. -/
inductive Lexeme (s : Bytes) : Nat → Nat → Token → Prop
  | number {i j : Nat} (hrun : MaximalRun s i j) :
      Lexeme s i j (Token.make .number (slice s i j) i)
  | symbol {i : Nat} {b : UInt8} {kind : TokenKind} (hb : s[i]? = some b)
      (hkind : Alphabet.symbol? b = some kind) : Lexeme s i (i + 1) (Token.make kind [b] i)

/-- There is an error in a text at `i`.  It is reported there for a foreign byte, and for a run that
spells no number just behind the run or at the last byte of the text. -/
inductive Fault (mode : Mode) (s : Bytes) : Nat → LexError → Prop
  | foreign {i : Nat} {b : UInt8} (hmode : mode ≠ .permissive) (hb : s[i]? = some b)
      (hforeign : Alphabet.isForeign b = true) :
      Fault mode s i
        ⟨.unknownSymbol, i, Quoted.char (Utf8.front b (s.drop (i + 1))).1.toChar⟩
  | literal {i j : Nat} (hrun : MaximalRun s i j) (hbad : ¬ Literal.WellFormed (slice s i j)) :
      Fault mode s i
        ⟨.invalidConstant, if j = s.length then (s.length : Int) - 1 else j,
          Quoted.text (slice s i j)⟩

/-- A byte stands between tokens. -/
def Skips (mode : Mode) (b : UInt8) : Prop :=
  Alphabet.isBlank b = true ∨ mode = .permissive ∧ Alphabet.isForeign b = true

/-- A token holds the byte at an index. -/
def Covers (t : Token) (k : Nat) : Prop :=
  t.pos ≤ k ∧ k < t.stop

/-! ## Runs -/

namespace MaximalRun

theorem le_length (h : MaximalRun s i j) : j ≤ s.length := by
  have hlt := h.lt
  have := lt_length_of_byteAt (h.inside (j - 1) (by omega) (by omega))
  omega

/-- A run that starts inside another one is that one. -/
theorem eq_of_start_lt {i' j' : Nat} (h : MaximalRun s i j) (h' : MaximalRun s i' j') (hle : i ≤ i')
    (hlt : i' < j) : i' = i ∧ j' = j := by
  have hlt' := h'.lt
  have hstart : i' = i := by
    by_cases heq : i' = i
    · exact heq
    · exact (h'.before (i' - 1) (by omega) (h.inside (i' - 1) (by omega) (by omega))).elim
  refine ⟨hstart, ?_⟩
  rcases Nat.lt_trichotomy j' j with hshort | heq | hlong
  · exact (h'.after (h.inside j' (by omega) hshort)).elim
  · exact heq
  · exact (h.after (h'.inside j (by omega) hlong)).elim

theorem isNumeric_of_mem (h : MaximalRun s i j) (hb : b ∈ slice s i j) :
    Literal.isNumeric b = true := by
  obtain ⟨n, hn⟩ := List.mem_iff_getElem?.mp hb
  have hlen := (List.getElem?_eq_some_iff.mp hn).1
  rw [length_slice h.le_length] at hlen
  have hget : s[i + n]? = some b := by
    rw [slice, List.getElem?_drop, List.getElem?_take_of_lt (by omega)] at hn
    exact hn
  exact (byteAt_iff hget).mp (h.inside (i + n) (by omega) (by omega))

end MaximalRun

/-! ## Lexemes -/

namespace Lexeme

variable {t : Token}

theorem lt (h : Lexeme s i j t) : i < j := by
  cases h with
  | number hrun => exact hrun.lt
  | symbol => exact Nat.lt_succ_self _

theorem le_length (h : Lexeme s i j t) : j ≤ s.length := by
  cases h with
  | number hrun => exact hrun.le_length
  | symbol hb => exact (List.getElem?_eq_some_iff.mp hb).1

theorem pos_eq (h : Lexeme s i j t) : t.pos = i := by
  cases h <;> rfl

/-- The bytes of a lexeme are those of the text. -/
theorem value_eq (h : Lexeme s i j t) : t.value = slice s i j := by
  cases h with
  | number => rfl
  | symbol hb =>
    obtain ⟨hlt, hget⟩ := List.getElem?_eq_some_iff.mp hb
    simp [slice, Token.make, List.take_add_one, hb, Nat.min_eq_left (Nat.le_of_lt hlt)]

theorem stop_eq (h : Lexeme s i j t) : t.stop = j := by
  have hlt := h.lt
  rw [Token.stop, h.pos_eq, h.value_eq, length_slice h.le_length]
  omega

/-- Every byte of a lexeme means something. -/
theorem not_skips (h : Lexeme s i j t) (hle : i ≤ k) (hlt : k < j) (hb : s[k]? = some b) :
    ¬ Skips mode b := by
  cases h with
  | number hrun =>
    have hnumeric := (byteAt_iff hb).mp (hrun.inside k hle hlt)
    rintro (hblank | ⟨-, hforeign⟩)
    · simp [Alphabet.isNumeric_of_isBlank hblank] at hnumeric
    · simp [Alphabet.isForeign, hnumeric] at hforeign
  | symbol hb' hkind =>
    obtain rfl : k = i := by omega
    cases hb.symm.trans hb'
    rintro (hblank | ⟨-, hforeign⟩)
    · simp [Alphabet.symbol?_of_isBlank hblank] at hkind
    · simp [Alphabet.isForeign, hkind] at hforeign

/-- A lexeme that starts inside another one is that one. -/
theorem eq_of_start_lt {i' j' : Nat} {t' : Token} (h : Lexeme s i j t) (h' : Lexeme s i' j' t')
    (hle : i ≤ i') (hlt : i' < j) : i' = i ∧ j' = j ∧ t' = t := by
  cases h with
  | number hrun =>
    cases h' with
    | number hrun' =>
      obtain ⟨rfl, rfl⟩ := hrun.eq_of_start_lt hrun' hle hlt
      exact ⟨rfl, rfl, rfl⟩
    | symbol hb hkind =>
      have hnumeric := (byteAt_iff hb).mp (hrun.inside _ hle hlt)
      simp [Alphabet.isNumeric_of_symbol? hkind] at hnumeric
  | symbol hb hkind =>
    obtain rfl : i' = i := by omega
    cases h' with
    | number hrun' =>
      have hnumeric := (byteAt_iff hb).mp (hrun'.inside _ (Nat.le_refl _) hrun'.lt)
      simp [Alphabet.isNumeric_of_symbol? hkind] at hnumeric
    | symbol hb' hkind' =>
      cases hb.symm.trans hb'
      cases hkind.symm.trans hkind'
      exact ⟨rfl, rfl, rfl⟩

/-- There is no error inside a lexeme. -/
theorem not_fault (h : Lexeme s i j t) (hlt : i < k) (hlt' : k < j) (e : LexError) :
    ¬ Fault mode s k e := by
  intro hfault
  cases h with
  | number hrun =>
    cases hfault with
    | foreign hmode hb hforeign =>
      have hnumeric := (byteAt_iff hb).mp (hrun.inside k (Nat.le_of_lt hlt) hlt')
      simp [Alphabet.isForeign, hnumeric] at hforeign
    | literal hrun' =>
      have := (hrun.eq_of_start_lt hrun' (Nat.le_of_lt hlt) hlt').1
      omega
  | symbol => omega

end Lexeme
/-! ## Faults -/

theorem not_fault_of_skips (hb : s[i]? = some b) (hskip : Skips mode b) (e : LexError) :
    ¬ Fault mode s i e := by
  intro hfault
  cases hfault with
  | foreign hmode hb' hforeign =>
    cases hb.symm.trans hb'
    rcases hskip with hblank | ⟨hpermissive, -⟩
    · simp [Alphabet.isForeign, hblank] at hforeign
    · exact hmode hpermissive
  | literal hrun =>
    have hnumeric := (byteAt_iff hb).mp (hrun.inside i (Nat.le_refl i) hrun.lt)
    rcases hskip with hblank | ⟨-, hforeign⟩
    · simp [Alphabet.isNumeric_of_isBlank hblank] at hnumeric
    · simp [Alphabet.isForeign, hnumeric] at hforeign

theorem not_fault_of_symbol {kind : TokenKind} (hb : s[i]? = some b)
    (hkind : Alphabet.symbol? b = some kind) (e : LexError) : ¬ Fault mode s i e := by
  intro hfault
  cases hfault with
  | foreign hmode hb' hforeign =>
    cases hb.symm.trans hb'
    simp [Alphabet.isForeign, hkind] at hforeign
  | literal hrun =>
    have hnumeric := (byteAt_iff hb).mp (hrun.inside i (Nat.le_refl i) hrun.lt)
    simp [Alphabet.isNumeric_of_symbol? hkind] at hnumeric

theorem not_fault_of_wellFormed (hrun : MaximalRun s i j)
    (hgood : Literal.WellFormed (slice s i j)) (e : LexError) : ¬ Fault mode s i e := by
  intro hfault
  cases hfault with
  | foreign hmode hb hforeign =>
    have hnumeric := (byteAt_iff hb).mp (hrun.inside i (Nat.le_refl i) hrun.lt)
    simp [Alphabet.isForeign, hnumeric] at hforeign
  | literal hrun' hbad =>
    obtain ⟨-, rfl⟩ := hrun.eq_of_start_lt hrun' (Nat.le_refl i) hrun.lt
    exact hbad hgood

theorem Fault.lt_length {e : LexError} (h : Fault mode s i e) : i < s.length := by
  cases h with
  | foreign _ hb => exact (List.getElem?_eq_some_iff.mp hb).1
  | literal hrun => exact Nat.lt_of_lt_of_le hrun.lt hrun.le_length

theorem Fault.unique
    {e e' : LexError} (h : Fault mode s i e) (h' : Fault mode s i e') : e = e' := by
  cases h with
  | foreign hmode hb hforeign =>
    cases h' with
    | foreign _ hb' =>
      cases hb.symm.trans hb'
      rfl
    | literal hrun =>
      have hnumeric := (byteAt_iff hb).mp (hrun.inside i (Nat.le_refl i) hrun.lt)
      simp [Alphabet.isForeign, hnumeric] at hforeign
  | literal hrun hbad =>
    cases h' with
    | foreign _ hb hforeign =>
      have hnumeric := (byteAt_iff hb).mp (hrun.inside i (Nat.le_refl i) hrun.lt)
      simp [Alphabet.isForeign, hnumeric] at hforeign
    | literal hrun' =>
      obtain ⟨-, rfl⟩ := hrun.eq_of_start_lt hrun' (Nat.le_refl i) hrun.lt
      rfl

/-- A text has no faults when its runs spell numbers and its foreign bytes, if any, are skipped. -/
theorem forall_not_fault_iff :
    (∀ i e, ¬ Fault mode s i e) ↔
      (∀ i j, MaximalRun s i j → Literal.WellFormed (slice s i j)) ∧
      (mode ≠ .permissive → ∀ b ∈ s, Alphabet.isForeign b = false) := by
  constructor
  · intro hnone
    constructor
    · intro i j hrun
      by_cases hgood : Literal.WellFormed (slice s i j)
      · exact hgood
      · exact (hnone i _ (.literal hrun hgood)).elim
    · intro hmode b hb
      obtain ⟨i, hi⟩ := List.mem_iff_getElem?.mp hb
      rw [Bool.eq_false_iff]
      intro hforeign
      exact hnone i _ (.foreign hmode hi hforeign)
  · rintro ⟨hruns, hbytes⟩ i e hfault
    cases hfault with
    | foreign hmode hb hforeign =>
      simp [hbytes hmode _ (List.mem_of_getElem? hb)] at hforeign
    | literal hrun hbad => exact hbad (hruns _ _ hrun)

/-! ## Reading from left to right -/

/-- The tokens from an index on, up to the end or to a fault. -/
inductive Reads (mode : Mode) (s : Bytes) : Nat → List Token → Option LexError → Prop
  | finish : Reads mode s s.length [] none
  | skip {i : Nat} {b : UInt8} {ts : List Token} {r : Option LexError} (hb : s[i]? = some b)
      (hskip : Skips mode b) (hrest : Reads mode s (i + 1) ts r) : Reads mode s i ts r
  | token {i j : Nat} {t : Token} {ts : List Token} {r : Option LexError} (hlex : Lexeme s i j t)
      (hgood : ∀ e, ¬ Fault mode s i e) (hrest : Reads mode s j ts r) : Reads mode s i (t :: ts) r
  | fault {i : Nat} {e : LexError} (hfault : Fault mode s i e) : Reads mode s i [] (some e)

namespace Reads

variable {ts : List Token} {r : Option LexError}

/-- Bytes that stand between tokens are skipped one by one. -/
theorem skips (h : Reads mode s j ts r) (hle : i ≤ j)
    (hskip : ∀ k, i ≤ k → k < j → ∃ b, s[k]? = some b ∧ Skips mode b) : Reads mode s i ts r := by
  induction n : j - i generalizing i with
  | zero =>
    obtain rfl : i = j := by omega
    exact h
  | succ n ih =>
    obtain ⟨b, hb, hb'⟩ := hskip i (Nat.le_refl i) (by omega)
    refine .skip hb hb' (ih (by omega) ?_ (by omega))
    intro k hle hlt
    exact hskip k (by omega) hlt

/-- There is nothing to read at the end of a text. -/
theorem eq_nil_of_length_le
    (h : Reads mode s i ts r) (hi : s.length ≤ i) : ts = [] ∧ r = none := by
  cases h with
  | finish => exact ⟨rfl, rfl⟩
  | skip hb =>
    have hlt := (List.getElem?_eq_some_iff.mp hb).1
    omega
  | token hlex =>
    have hlt := hlex.lt
    have hle := hlex.le_length
    omega
  | fault hfault =>
    have hlt := hfault.lt_length
    omega

/-- A text is read in one way only. -/
theorem unique
    {ts' : List Token} {r' : Option LexError}
    (h : Reads mode s i ts r) (h' : Reads mode s i ts' r') : ts = ts' ∧ r = r' := by
  induction h generalizing ts' r' with
  | finish =>
    obtain ⟨rfl, rfl⟩ := h'.eq_nil_of_length_le (Nat.le_refl _)
    exact ⟨rfl, rfl⟩
  | skip hb hskip hrest ih =>
    cases h' with
    | finish => simp at hb
    | skip _ _ hrest' => exact ih hrest'
    | token hlex => exact (hlex.not_skips (Nat.le_refl _) hlex.lt hb hskip).elim
    | fault hfault => exact (not_fault_of_skips hb hskip _ hfault).elim
  | token hlex hgood hrest ih =>
    cases h' with
    | finish =>
      have hlt := hlex.lt
      have hle := hlex.le_length
      omega
    | skip hb hskip => exact (hlex.not_skips (Nat.le_refl _) hlex.lt hb hskip).elim
    | token hlex' _ hrest' =>
      obtain ⟨-, rfl, rfl⟩ := hlex.eq_of_start_lt hlex' (Nat.le_refl _) hlex.lt
      obtain ⟨rfl, rfl⟩ := ih hrest'
      exact ⟨rfl, rfl⟩
    | fault hfault => exact (hgood _ hfault).elim
  | fault hfault =>
    cases h' with
    | finish =>
      have hlt := hfault.lt_length
      omega
    | skip hb hskip => exact (not_fault_of_skips hb hskip _ hfault).elim
    | token _ hgood => exact (hgood _ hfault).elim
    | fault hfault' =>
      obtain rfl := hfault.unique hfault'
      exact ⟨rfl, rfl⟩

/-- Reading passes no fault: it ends at the end of the text or at the first fault. -/
theorem exists_end (h : Reads mode s i ts r) :
    ∃ n, i ≤ n ∧ (∀ k e, i ≤ k → k < n → ¬ Fault mode s k e) ∧
      ((r = none ∧ n = s.length) ∨ ∃ e, r = some e ∧ Fault mode s n e) := by
  induction h with
  | finish => exact ⟨s.length, Nat.le_refl _, by omega, Or.inl ⟨rfl, rfl⟩⟩
  | @skip i b ts r hb hskip _ ih =>
    obtain ⟨n, hle, hnone, hend⟩ := ih
    refine ⟨n, by omega, fun k e hge hlt => ?_, hend⟩
    by_cases heq : k = i
    · exact heq ▸ not_fault_of_skips hb hskip e
    · exact hnone k e (by omega) hlt
  | @token i j t ts r hlex hgood _ ih =>
    obtain ⟨n, hle, hnone, hend⟩ := ih
    have hlt := hlex.lt
    refine ⟨n, by omega, fun k e hge hlt => ?_, hend⟩
    by_cases heq : k = i
    · exact heq ▸ hgood e
    · by_cases hinside : k < j
      · exact hlex.not_fault (by omega) hinside e
      · exact hnone k e (by omega) hlt
  | @fault i e hfault => exact ⟨i, Nat.le_refl i, by omega, Or.inr ⟨e, rfl, hfault⟩⟩

/-- A reading that ends with a fault ends with the leftmost one. -/
theorem exists_first_fault {e : LexError} (h : Reads mode s 0 ts (some e)) :
    ∃ n, Fault mode s n e ∧ ∀ k e', Fault mode s k e' → n ≤ k := by
  obtain ⟨n, -, hnone, hend⟩ := h.exists_end
  obtain ⟨e', he, hfault⟩ : ∃ e', some e = some e' ∧ Fault mode s n e' := by simpa using hend
  cases he
  refine ⟨n, hfault, fun k e' hfault' => ?_⟩
  rcases Nat.lt_or_ge k n with hlt | hge
  · exact (hnone k e' (Nat.zero_le k) hlt hfault').elim
  · exact hge

/-- A reading that ends at the end of the text is one of a text without faults. -/
theorem not_fault (h : Reads mode s 0 ts none) (k : Nat) (e : LexError) : ¬ Fault mode s k e := by
  obtain ⟨n, -, hnone, hend⟩ := h.exists_end
  obtain rfl : n = s.length := by simpa using hend
  intro hfault
  exact hnone k e (Nat.zero_le k) hfault.lt_length hfault

/-- The tokens of a reading are lexemes, in the order in which they stand in the text. -/
theorem ordered (h : Reads mode s i ts r) :
    (∀ t ∈ ts, ∃ k j, i ≤ k ∧ Lexeme s k j t) ∧
      ts.Pairwise fun t t' => t.pos < t'.pos ∧ t.stop ≤ t'.pos := by
  induction h with
  | finish => simp
  | skip hb hskip _ ih =>
    refine ⟨fun t ht => ?_, ih.2⟩
    obtain ⟨k, j, hle, hlex⟩ := ih.1 t ht
    exact ⟨k, j, by omega, hlex⟩
  | @token i j t ts r hlex hgood _ ih =>
    have hlt := hlex.lt
    constructor
    · intro t' ht'
      rcases List.mem_cons.mp ht' with rfl | ht'
      · exact ⟨i, j, Nat.le_refl i, hlex⟩
      · obtain ⟨k, j', hle, hlex'⟩ := ih.1 t' ht'
        exact ⟨k, j', by omega, hlex'⟩
    · refine List.pairwise_cons.mpr ⟨fun t' ht' => ?_, ih.2⟩
      obtain ⟨k, j', hle, hlex'⟩ := ih.1 t' ht'
      rw [hlex.pos_eq, hlex.stop_eq, hlex'.pos_eq]
      omega
  | fault => simp

/-- A reading that ends at the end of the text takes all lexemes. -/
theorem mem_of_lexeme {t : Token} (h : Reads mode s i ts none) (hlex : Lexeme s k j t)
    (hle : i ≤ k) : t ∈ ts := by
  generalize hr : none = r at h
  induction h with
  | finish =>
    have := hlex.lt
    have := hlex.le_length
    omega
  | @skip i b ts r hb hskip _ ih =>
    by_cases heq : k = i
    · exact (hlex.not_skips (Nat.le_of_eq heq) (heq ▸ hlex.lt) hb hskip).elim
    · exact ih (by omega) hr
  | @token i j' t' ts r hlex' hgood _ ih =>
    -- A lexeme that starts in front of `j'` starts inside the one just taken, and so is it.
    by_cases hinside : k < j'
    · obtain ⟨-, -, rfl⟩ := hlex'.eq_of_start_lt hlex hle hinside
      exact List.mem_cons_self
    · exact List.mem_cons_of_mem _ (ih (by omega) hr)
  | fault => cases hr

/-- A reading that ends at the end of the text leaves out no byte but those that it skips. -/
theorem covered (h : Reads mode s i ts none) (hle : i ≤ k) (hb : s[k]? = some b) :
    (∃ t ∈ ts, Covers t k) ∨ Skips mode b := by
  generalize hr : none = r at h
  induction h with
  | finish =>
    have := (List.getElem?_eq_some_iff.mp hb).1
    omega
  | @skip i b' ts r hb' hskip _ ih =>
    by_cases heq : k = i
    · subst heq
      cases hb.symm.trans hb'
      exact Or.inr hskip
    · exact ih (by omega) hr
  | @token i j t ts r hlex hgood _ ih =>
    by_cases hinside : k < j
    · refine Or.inl ⟨t, List.mem_cons_self, ?_⟩
      rw [Covers, hlex.pos_eq, hlex.stop_eq]
      omega
    · refine (ih (by omega) hr).imp_left ?_
      rintro ⟨t', ht', hcover⟩
      exact ⟨t', List.mem_cons_of_mem _ ht', hcover⟩
  | fault => cases hr

end Reads

/-! ## All of the text -/

/-- A sequence of tokens is the tokens of a text. -/
structure Lexing (mode : Mode) (s : Bytes) (ts : List Token) : Prop where
  /-- The tokens stand in the order of their positions, and no two of them share a byte. -/
  ordered : ts.Pairwise fun t t' => t.pos < t'.pos ∧ t.stop ≤ t'.pos
  /-- They are the lexemes of the text. -/
  mem_iff : ∀ t, t ∈ ts ↔ ∃ i j, Lexeme s i j t
  /-- Their bytes are the bytes of the text from where they start to where they stop. -/
  value_eq : ∀ t ∈ ts, ∃ i j : Nat, t.pos = i ∧ t.stop = j ∧ t.value = slice s i j
  /-- A byte belongs to exactly one token, or it is skipped and belongs to none. -/
  covered : ∀ k b, s[k]? = some b →
    (∃ t ∈ ts, Covers t k ∧ ∀ t' ∈ ts, Covers t' k → t' = t) ∨
      (Skips mode b ∧ ∀ t ∈ ts, ¬ Covers t k)

/-- A reading of the whole text finds its tokens. -/
theorem Reads.lexing {ts : List Token} (h : Reads mode s 0 ts none) : Lexing mode s ts := by
  obtain ⟨hlexemes, hordered⟩ := h.ordered
  have hmem : ∀ t, t ∈ ts ↔ ∃ i j, Lexeme s i j t := by
    intro t
    constructor
    · intro ht
      obtain ⟨k, j, -, hlex⟩ := hlexemes t ht
      exact ⟨k, j, hlex⟩
    · rintro ⟨k, j, hlex⟩
      exact h.mem_of_lexeme hlex (Nat.zero_le k)
  refine ⟨hordered, hmem, ?_, ?_⟩
  · intro t ht
    obtain ⟨i, j, hlex⟩ := (hmem t).mp ht
    exact ⟨i, j, hlex.pos_eq, hlex.stop_eq, hlex.value_eq⟩
  · intro k b hb
    -- A lexeme that holds the byte is found from where it starts.
    have hspan : ∀ t ∈ ts, Covers t k → ∃ i j, Lexeme s i j t ∧ i ≤ k ∧ k < j := by
      rintro t ht ⟨hle, hlt⟩
      obtain ⟨i, j, hlex⟩ := (hmem t).mp ht
      rw [hlex.pos_eq] at hle
      rw [hlex.stop_eq] at hlt
      exact ⟨i, j, hlex, by omega, by omega⟩
    rcases h.covered (Nat.zero_le k) hb with ⟨t, ht, hcover⟩ | hskip
    · refine Or.inl ⟨t, ht, hcover, fun t' ht' hcover' => ?_⟩
      obtain ⟨i, j, hlex, hle, hlt⟩ := hspan t ht hcover
      obtain ⟨i', j', hlex', hle', hlt'⟩ := hspan t' ht' hcover'
      rcases Nat.le_total i i' with hstart | hstart
      · exact (hlex.eq_of_start_lt hlex' hstart (by omega)).2.2
      · exact (hlex'.eq_of_start_lt hlex hstart (by omega)).2.2.symm
    · refine Or.inr ⟨hskip, fun t ht hcover => ?_⟩
      obtain ⟨i, j, hlex, hle, hlt⟩ := hspan t ht hcover
      exact hlex.not_skips hle hlt hb hskip

end Lexical
end Reckon
