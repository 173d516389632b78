import Reckon.Proofs.Lexer.Lexemes

/-!
# The lexer finds the lexemes

Every step of the lexer is a step of reading from left to right.  What carries this from step to step
is that a step begins where no piece is open and not in the middle of a run, so that a run that is
taken from there is maximal.  The tokens of a text are then those that its bytes say, and the error
of a text is its leftmost fault.
-/

namespace Reckon
namespace Lexer

open Lexical

variable {mode : Mode} {c d : Cursor}

/-- A cursor stands where a step may begin: no piece is open, and no run is cut. -/
structure Ready (c : Cursor) : Prop where
  start_eq : c.start = c.pos
  uncut : ByteAt Literal.isNumeric c.text c.pos →
    ∀ k, k + 1 = c.pos → ¬ ByteAt Literal.isNumeric c.text k

/-- A step from a cursor agrees with reading from there. -/
def Follows (mode : Mode) (c : Cursor) : Step → Prop
  | .token t after =>
    after.text = c.text ∧ Ready after ∧
      ∀ ts r, Reads mode c.text after.pos ts r → Reads mode c.text c.pos (t :: ts) r
  | .finish _ _ => Reads mode c.text c.pos [] none
  | .fault e _ => Reads mode c.text c.pos [] (some e)

/-- Bytes that are skipped may be put in front of a step. -/
theorem Follows.of_skips {step : Step} (h : Follows mode d step) (htext : d.text = c.text)
    (hle : c.pos ≤ d.pos)
    (hskip : ∀ k, c.pos ≤ k → k < d.pos → ∃ b, c.text[k]? = some b ∧ Skips mode b) :
    Follows mode c step := by
  cases step with
  | token t after =>
    obtain ⟨hafter, hready, hreads⟩ := h
    refine ⟨hafter.trans htext, hready, fun ts r hrest => ?_⟩
    exact (htext ▸ hreads ts r (htext ▸ hrest)).skips hle hskip
  | finish t after => exact (htext ▸ h : Reads mode c.text d.pos [] none).skips hle hskip
  | fault e after => exact (htext ▸ h : Reads mode c.text d.pos [] (some e)).skips hle hskip

/-! ## The parts of a step -/

/-- What is seen at a place, and the byte that tells what it is. -/
theorem exists_of_peek {g : Glyph} (h : c.peek = (some g, d)) :
    d = c.settled ∧ ∃ b rest, c.ahead = b :: rest ∧ (Utf8.front b rest).1 = g := by
  rw [Cursor.peek_eq, Prod.mk.injEq] at h
  refine ⟨h.2.symm, ?_⟩
  cases hahead : c.ahead with
  | nil => simp [Cursor.next_of_ahead_eq_nil hahead] at h
  | cons b rest =>
    rw [(Cursor.next_of_ahead_eq_cons hahead).1] at h
    exact ⟨b, rest, rfl, Option.some.inj h.1⟩

theorem passes_isBlank (c : Cursor) : Cursor.Passes Alphabet.isBlank c (c.acceptRun isBlank) :=
  Cursor.passes_acceptRun (fun b rest => (Alphabet.agrees_front b rest).isBlank)
    (fun b hb => Alphabet.lt_of_isForeign (by simp [Alphabet.isForeign, hb])) c

theorem passes_isNumeric (c : Cursor) : Cursor.Passes Literal.isNumeric c (c.acceptRun isNumeric) :=
  Cursor.passes_acceptRun (fun b rest => (Alphabet.agrees_front b rest).isNumeric)
    (fun b hb => Alphabet.lt_of_isForeign (by simp [Alphabet.isForeign, hb])) c

/-- Behind a byte that is in no run, a step may begin. -/
theorem ready_mark {k : Nat} (hk : k + 1 = c.pos) (h : ¬ ByteAt Literal.isNumeric c.text k) :
    Ready c.mark := by
  refine ⟨rfl, fun _ k' hk' => ?_⟩
  obtain rfl : k' = k := by
    simp only [Cursor.mark] at hk'
    omega
  exact h

/-- The error of a run that spells no number says where the run stopped. -/
theorem badLiteral_eq {i : Nat} (hstart : c.start = i) :
    badLiteral c =
      ⟨.invalidConstant, if c.pos = c.text.length then (c.text.length : Int) - 1 else c.pos,
        Quoted.text (slice c.text i c.pos)⟩ := by
  have hlength := c.length_text
  rw [badLiteral, c.piece_eq_slice, hstart]
  cases hahead : c.ahead with
  | nil =>
    have heq : c.pos = c.text.length := by simpa [hahead] using hlength.symm
    simp [heq]
  | cons b rest =>
    have hne : c.pos ≠ c.text.length := by
      simp only [hahead, List.length_cons] at hlength
      omega
    simp [hne]

/-- A literal is read as the run that starts at the place. -/
theorem follows_number (hready : Ready c) (hnumeric : ByteAt Literal.isNumeric c.text c.pos) :
    Follows mode c (number c) := by
  have hpass := passes_isNumeric c
  unfold number
  dsimp only
  generalize c.acceptRun isNumeric = d at hpass ⊢
  have hstart : d.start = c.pos := hpass.start_eq.trans hready.start_eq
  have hpiece : d.piece = slice c.text c.pos d.pos := by
    rw [Cursor.piece_eq_slice, hpass.text_eq, hstart]
  -- The run is not cut in front because the cursor is ready, and it went on as far as possible.
  have hrun : MaximalRun c.text c.pos d.pos :=
    ⟨hpass.pos_lt hnumeric, hpass.inside, hready.uncut hnumeric, hpass.stops⟩
  have hspells := Literal.isSome_read?_iff fun b hb => hrun.isNumeric_of_mem hb
  split
  next num hread =>
    rw [hpiece] at hread
    have hgood : Literal.WellFormed (slice c.text c.pos d.pos) :=
      hspells.mp (by rw [hread]; rfl)
    have htoken : (⟨.number, d.piece, num, d.start⟩ : Token) =
        Token.make .number (slice c.text c.pos d.pos) c.pos := by
      simp [Token.make, Double.readOrZero, hpiece, hread, hstart]
    rw [htoken]
    refine ⟨hpass.text_eq, ⟨rfl, ?_⟩, ?_⟩
    · intro hnumeric'
      exact (hpass.stops (hpass.text_eq ▸ hnumeric')).elim
    · intro ts r hrest
      exact .token (.number hrun) (not_fault_of_wellFormed hrun hgood) hrest
  next hread =>
    rw [hpiece] at hread
    have hbad : ¬ Literal.WellFormed (slice c.text c.pos d.pos) := by
      rw [← hspells, hread]
      decide
    have herror := badLiteral_eq hstart
    rw [hpass.text_eq] at herror
    rw [herror]
    exact .fault (.literal hrun hbad)

/-- A symbol is read as the byte at the place. -/
theorem follows_emit {b : UInt8} {rest : Bytes} {kind : TokenKind} (hready : Ready c)
    (hahead : c.ahead = b :: rest) (hkind : Alphabet.symbol? b = some kind) :
    Follows mode c (emit kind c.next.2) := by
  have hb := Cursor.getElem?_text_pos hahead
  have hpos := Cursor.pos_next_of_lt hahead
    (Alphabet.lt_of_isForeign (by simp [Alphabet.isForeign, hkind]))
  have hstart : c.next.2.start = c.pos :=
    (Cursor.next_of_ahead_eq_cons hahead).2.2.2.2.1.trans hready.start_eq
  have hlex : Lexeme c.text c.pos (c.pos + 1) (Token.make kind [b] c.pos) := .symbol hb hkind
  have hnot : ¬ ByteAt Literal.isNumeric c.text c.pos := by
    rw [byteAt_iff hb, Alphabet.isNumeric_of_symbol? hkind]
    decide
  have hpiece : c.next.2.piece = [b] := by
    rw [Cursor.piece_eq_slice, c.text_next, hstart, hpos]
    exact hlex.value_eq.symm
  rw [emit, hpiece, hstart]
  refine ⟨c.text_next, ready_mark hpos.symm (c.text_next ▸ hnot), fun ts r hrest => ?_⟩
  rw [show c.next.2.mark.pos = c.pos + 1 from hpos] at hrest
  exact .token hlex (not_fault_of_symbol hb hkind) hrest

/-- Foreign bytes are skipped with the step from behind them. -/
theorem follows_of_isForeign {b : UInt8} {rest : Bytes} {step : Step} (hahead : c.ahead = b :: rest)
    (hforeign : Alphabet.isForeign b = true) (hmode : mode = .permissive)
    (h : Ready c.next.2.mark → Follows mode c.next.2.mark step) : Follows mode c step := by
  have hinside := fun k => Cursor.byteAt_next_of_isForeign hahead hforeign (k := k)
  have hlt : c.pos < c.next.2.pos := by
    rw [(Cursor.next_of_ahead_eq_cons hahead).2.2.2.1]
    exact Nat.lt_add_of_pos_right (Utf8.width_pos b rest)
  have hready : Ready c.next.2.mark := by
    refine ready_mark (k := c.next.2.pos - 1) (by omega) ?_
    obtain ⟨b', hb', hforeign'⟩ := hinside (c.next.2.pos - 1) (by omega) (by omega)
    rw [c.text_next, byteAt_iff hb']
    intro hnumeric
    simp [Alphabet.isForeign, hnumeric] at hforeign'
  refine (h hready).of_skips c.text_next (Nat.le_of_lt hlt) fun k hge hlt => ?_
  obtain ⟨b', hb', hforeign'⟩ := hinside k hge hlt
  exact ⟨b', hb', Or.inr ⟨hmode, hforeign'⟩⟩

/-- Blanks are skipped with the step from behind them. -/
theorem follows_of_isBlank {step : Step} (hblank : ByteAt Alphabet.isBlank c.text c.pos)
    (h : Ready (c.acceptRun isBlank).mark → Follows mode (c.acceptRun isBlank).mark step) :
    Follows mode c step := by
  have hpass := passes_isBlank c
  have hlt := hpass.pos_lt hblank
  have hready : Ready (c.acceptRun isBlank).mark := by
    refine ready_mark (k := (c.acceptRun isBlank).pos - 1) (by omega) ?_
    obtain ⟨b, hb, hblank⟩ := hpass.inside ((c.acceptRun isBlank).pos - 1) (by omega) (by omega)
    rw [hpass.text_eq, byteAt_iff hb, Alphabet.isNumeric_of_isBlank hblank]
    decide
  refine (h hready).of_skips hpass.text_eq hpass.pos_le fun k hge hlt => ?_
  obtain ⟨b, hb, hblank⟩ := hpass.inside k hge hlt
  exact ⟨b, hb, Or.inl hblank⟩

/-- Every step agrees with reading. -/
theorem follows_step (mode : Mode) (c : Cursor) (hready : Ready c) :
    Follows mode c (step mode c) := by
  fun_induction step mode c with
  | case1 c c₁ hpeek =>
    have hnone : c.next.1 = none := by
      rw [Cursor.peek_eq] at hpeek
      exact congrArg Prod.fst hpeek
    have hahead : c.ahead = [] := by
      cases hahead : c.ahead with
      | nil => rfl
      | cons b rest => simp [(Cursor.next_of_ahead_eq_cons hahead).1] at hnone
    have hpos : c.pos = c.text.length := by simp [c.length_text, hahead]
    show Reads mode c.text c.pos [] none
    rw [hpos]
    exact .finish
  | case2 c g c₁ hpeek hblank ih =>
    obtain ⟨rfl, b, rest, hahead, rfl⟩ := exists_of_peek hpeek
    rw [(Alphabet.agrees_front b rest).isBlank] at hblank
    exact follows_of_isBlank (c := c.settled) ⟨b, Cursor.getElem?_text_pos hahead, hblank⟩ ih
  | case3 c g c₁ hpeek hblank hnumeric =>
    obtain ⟨rfl, b, rest, hahead, rfl⟩ := exists_of_peek hpeek
    rw [(Alphabet.agrees_front b rest).isNumeric] at hnumeric
    exact follows_number (c := c.settled) ⟨hready.start_eq, hready.uncut⟩
      ⟨b, Cursor.getElem?_text_pos hahead, hnumeric⟩
  | case4 c g c₁ hpeek hblank hnumeric kind hkind =>
    obtain ⟨rfl, b, rest, hahead, rfl⟩ := exists_of_peek hpeek
    rw [(Alphabet.agrees_front b rest).single?] at hkind
    exact follows_emit (c := c.settled) ⟨hready.start_eq, hready.uncut⟩ hahead hkind
  | case5 c g c₁ hpeek hblank hnumeric hkind hmode ih =>
    obtain ⟨rfl, b, rest, hahead, rfl⟩ := exists_of_peek hpeek
    have hforeign := (Alphabet.agrees_front b rest).isForeign hblank hnumeric hkind
    exact follows_of_isForeign (c := c.settled) hahead hforeign hmode ih
  | case6 c g c₁ hpeek hblank hnumeric hkind hmode =>
    obtain ⟨rfl, b, rest, hahead, rfl⟩ := exists_of_peek hpeek
    have hforeign := (Alphabet.agrees_front b rest).isForeign hblank hnumeric hkind
    have hfault := Fault.foreign hmode (Cursor.getElem?_text_pos hahead) hforeign
    rw [Cursor.drop_text hahead] at hfault
    exact Reads.fault hfault

/-! ## Reading everything -/

/-- The lexer reads a text from left to right. -/
theorem exists_reads (mode : Mode) (done : List Token) (c : Cursor) (hready : Ready c) :
    ∃ ts r, scanOnto mode done c = ⟨done.reverse ++ ts, r⟩ ∧ Reads mode c.text c.pos ts r := by
  have hfollows := follows_step mode c hready
  fun_induction scanOnto mode done c with
  | case1 done c t after hstep ih =>
    rw [hstep] at hfollows
    obtain ⟨htext, hafter, hreads⟩ := hfollows
    obtain ⟨ts, r, hscan, hrest⟩ := ih hafter (follows_step mode after hafter)
    rw [htext] at hrest
    exact ⟨t :: ts, r, by simp [hscan], hreads ts r hrest⟩
  | case2 done c t after hstep =>
    rw [hstep] at hfollows
    exact ⟨[], none, by simp, hfollows⟩
  | case3 done c e after hstep =>
    rw [hstep] at hfollows
    exact ⟨[], some e, by simp, hfollows⟩

/-- The outcome of a text is that of reading it from left to right. -/
theorem exists_reads_tokenize (mode : Mode) (s : Bytes) :
    (∃ ts, tokenize mode s = .ok ts ∧ Reads mode s 0 ts none) ∨
      ∃ ts e, tokenize mode s = .error e ∧ Reads mode s 0 ts (some e) := by
  have hready : Ready (Cursor.ofText s) := ⟨rfl, fun _ k hk => by cases hk⟩
  obtain ⟨ts, r, hscan, hreads⟩ := exists_reads mode [] (Cursor.ofText s) hready
  have hscan : scan mode s = ⟨ts, r⟩ := by simpa [scan] using hscan
  cases r with
  | none => exact Or.inl ⟨ts, by rw [tokenize, hscan], hreads⟩
  | some e => exact Or.inr ⟨ts, e, by rw [tokenize, hscan], hreads⟩

/-- The tokens of a text are those that a reading of the whole text takes. -/
theorem tokenize_eq_ok_iff
    {s : Bytes} {ts : List Token} : tokenize mode s = .ok ts ↔ Reads mode s 0 ts none := by
  constructor
  · intro h
    rcases exists_reads_tokenize mode s with ⟨ts', htokens, hreads⟩ | ⟨ts', e, herror, -⟩
    · cases h.symm.trans htokens
      exact hreads
    · cases h.symm.trans herror
  · intro h
    rcases exists_reads_tokenize mode s with ⟨ts', htokens, hreads⟩ | ⟨ts', e, -, hreads⟩
    · obtain ⟨rfl, -⟩ := h.unique hreads
      exact htokens
    · cases (h.unique hreads).2

/-- The error of a text is the fault with which a reading of it ends. -/
theorem tokenize_eq_error_iff
    {s : Bytes} {e : LexError} :
    tokenize mode s = .error e ↔ ∃ ts, Reads mode s 0 ts (some e) := by
  constructor
  · intro h
    rcases exists_reads_tokenize mode s with ⟨ts, htokens, -⟩ | ⟨ts, e', herror, hreads⟩
    · cases h.symm.trans htokens
    · cases h.symm.trans herror
      exact ⟨ts, hreads⟩
  · rintro ⟨ts, h⟩
    rcases exists_reads_tokenize mode s with ⟨ts', -, hreads⟩ | ⟨ts', e', herror, hreads⟩
    · cases (h.unique hreads).2
    · cases (h.unique hreads).2
      exact herror

/-- A text has tokens exactly when all its runs of digits and points spell numbers and, unless they
are skipped, there are no foreign bytes in it.  Its tokens are then its lexemes, which hold all its
bytes but those that are skipped; otherwise its error is that of the leftmost fault. -/
theorem tokenize_exact (mode : Mode) (s : Bytes) :
    ((∃ ts, tokenize mode s = .ok ts) ↔
      (∀ i j, MaximalRun s i j → Literal.WellFormed (slice s i j)) ∧
      (mode ≠ .permissive → ∀ b ∈ s, Alphabet.isForeign b = false)) ∧
    (∀ ts, tokenize mode s = .ok ts → Lexing mode s ts) ∧
    (∀ e, tokenize mode s = .error e →
      ∃ i, Fault mode s i e ∧ ∀ i' e', Fault mode s i' e' → i ≤ i') := by
  rw [← forall_not_fault_iff]
  rcases exists_reads_tokenize mode s with ⟨ts, htokens, hreads⟩ | ⟨ts, e, herror, hreads⟩
  · refine ⟨⟨fun _ => hreads.not_fault, fun _ => ⟨ts, htokens⟩⟩, ?_, ?_⟩
    · intro ts' htokens'
      cases htokens.symm.trans htokens'
      exact hreads.lexing
    · intro e herror
      cases htokens.symm.trans herror
  · obtain ⟨i, hfault, hfirst⟩ := hreads.exists_first_fault
    refine ⟨⟨?_, fun hnone => (hnone i e hfault).elim⟩, ?_, ?_⟩
    · rintro ⟨ts', htokens⟩
      cases herror.symm.trans htokens
    · intro ts' htokens
      cases herror.symm.trans htokens
    · intro e' herror'
      cases herror.symm.trans herror'
      exact ⟨i, hfault, hfirst⟩

end Lexer
end Reckon
