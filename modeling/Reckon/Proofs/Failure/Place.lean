import Reckon.Proofs.Expr.Spelled
import Reckon.Proofs.Parser.ErrorPlace

/-!
# Where a failure points

The index that a failure gives is an index of the text, and it never cuts a character in two.  A
lexical error is at a character of the text.  A structural error is at a token of the text or just
behind the last one.

That no character is cut follows from a byte of the ASCII range on one side of the index: such a byte
is a character by itself.  Tokens begin and end with such bytes.  In front of an unknown symbol there
is one too, because the symbol is the first of the text that is foreign.
-/

namespace Reckon
namespace Utf8

/-! ## Places next to an ASCII byte -/

/-- A character that begins `near.length` bytes in front of an ASCII byte ends in front of it. -/
theorem width_le_of_lt
    {b : UInt8} (near ahead : Bytes) (lead : UInt8) (hb : b.toNat < 0x80) :
    width lead (near.reverse ++ b :: ahead) ≤ near.length + 1 := by
  rcases width_cases lead (near.reverse ++ b :: ahead) with
    ⟨hone, -⟩ | ⟨tail, after, hsplit, hwide, hwidth, -⟩
  · omega
  · rcases Nat.lt_or_ge near.length tail.length with hlt | hge
    · have hget : (tail ++ after)[near.length]? = some b := by
        rw [← hsplit]
        simp
      rw [List.getElem?_append_left hlt] at hget
      exact (not_mem_tail_of_lt hwide hb (List.mem_of_getElem? hget)).elim
    · omega

theorem boundary_of_ascii_ahead
    {b : UInt8} (behind ahead : Bytes) (hb : b.toNat < 0x80) : Boundary behind (b :: ahead) := by
  intro near lead far _
  exact width_le_of_lt near ahead lead hb

theorem boundary_of_ascii_behind
    {b : UInt8} (behind ahead : Bytes) (hb : b.toNat < 0x80) : Boundary (b :: behind) ahead := by
  intro near lead far heq
  cases near with
  | nil =>
    -- The byte itself would begin the character.
    obtain ⟨rfl, -⟩ := List.cons.inj heq
    rcases width_cases b ahead with ⟨hone, -⟩ | ⟨tail, after, -, hwide, -⟩
    · simp [hone]
    · have hlead := (isWide_shape hwide).1
      omega
  | cons c near =>
    obtain ⟨rfl, -⟩ := List.cons.inj heq
    have hle := width_le_of_lt near ahead lead hb
    simp only [List.reverse_cons, List.append_assoc, List.cons_append, List.nil_append,
      List.length_cons]
    omega

theorem head?_drop_eq
    {s : Bytes} {i : Nat} {b : UInt8} (hb : s[i]? = some b) :
    head? (s.drop i) = some (front b (s.drop (i + 1))).1.toChar := by
  obtain ⟨hlt, hget⟩ := List.getElem?_eq_some_iff.mp hb
  rw [List.drop_eq_getElem_cons hlt, hget]
  rfl

/-- An index of a text, or its end, that is not inside a character. -/
def BetweenChars (s : Bytes) (index : Int) : Prop :=
  ∃ n : Nat, index = n ∧ n ≤ s.length ∧ Boundary (s.take n).reverse (s.drop n)

theorem BetweenChars.bounds
    {s : Bytes} {index : Int} (h : BetweenChars s index) : 0 ≤ index ∧ index ≤ s.length := by
  obtain ⟨n, rfl, hle, -⟩ := h
  omega

theorem betweenChars_zero (s : Bytes) : BetweenChars s 0 :=
  ⟨0, rfl, Nat.zero_le _, boundary_nil _⟩

theorem betweenChars_of_ascii_at
    {s : Bytes} {k : Nat} {b : UInt8} (hk : s[k]? = some b) (hb : b.toNat < 0x80) :
    BetweenChars s k := by
  obtain ⟨hlt, hget⟩ := List.getElem?_eq_some_iff.mp hk
  refine ⟨k, rfl, Nat.le_of_lt hlt, ?_⟩
  rw [List.drop_eq_getElem_cons hlt, hget]
  exact boundary_of_ascii_ahead _ _ hb

theorem betweenChars_of_ascii_before
    {s : Bytes} {k n : Nat} {b : UInt8} (hk : s[k]? = some b) (hb : b.toNat < 0x80)
    (hn : k + 1 = n) : BetweenChars s n := by
  subst hn
  refine ⟨k + 1, rfl, (List.getElem?_eq_some_iff.mp hk).1, ?_⟩
  rw [List.take_add_one, hk]
  simp only [Option.toList_some, List.reverse_append, List.reverse_cons, List.reverse_nil,
    List.nil_append, List.cons_append]
  exact boundary_of_ascii_behind _ _ hb

end Utf8

namespace Lexical

open Utf8

variable {mode : Mode} {s : Bytes} {i j k : Nat}

/-! ## Places in the text -/

theorem exists_ascii_of_byteAt
    (h : ByteAt Literal.isNumeric s k) : ∃ b, s[k]? = some b ∧ b.toNat < 0x80 := by
  obtain ⟨b, hb, hnumeric⟩ := h
  have hbounds := Literal.bounds_of_isNumeric hnumeric
  exact ⟨b, hb, by omega⟩

/-- Every byte of a lexeme is of the ASCII range. -/
theorem Lexeme.exists_ascii
    {t : Token} (h : Lexeme s i j t) (hle : i ≤ k) (hlt : k < j) :
    ∃ b, s[k]? = some b ∧ b.toNat < 0x80 := by
  cases h with
  | number hrun => exact exists_ascii_of_byteAt (hrun.inside k hle hlt)
  | symbol hb hkind =>
    obtain rfl : k = i := by omega
    exact ⟨_, hb, Alphabet.lt_of_isForeign (by simp [Alphabet.isForeign, hkind])⟩

theorem Lexeme.betweenChars_pos
    {t : Token} (h : Lexeme s i j t) : BetweenChars s t.pos := by
  obtain ⟨b, hb, hascii⟩ := h.exists_ascii (Nat.le_refl i) h.lt
  rw [h.pos_eq]
  exact betweenChars_of_ascii_at hb hascii

theorem Lexeme.betweenChars_stop
    {t : Token} (h : Lexeme s i j t) : BetweenChars s t.stop := by
  have hlt := h.lt
  obtain ⟨b, hb, hascii⟩ := h.exists_ascii (k := j - 1) (by omega) (by omega)
  rw [h.stop_eq]
  exact betweenChars_of_ascii_before hb hascii (by omega)

/-- There is no foreign byte in front of the first fault, unless these are skipped. -/
theorem betweenChars_of_first_fault
    (hmode : mode ≠ .permissive) (hi : i ≤ s.length)
    (hfirst : ∀ k e, Fault mode s k e → i ≤ k) : BetweenChars s i := by
  cases i with
  | zero => exact betweenChars_zero s
  | succ k =>
    have hget : s[k]? = some s[k] := List.getElem?_eq_getElem hi
    have hknown : Alphabet.isForeign s[k] = false := by
      rw [Bool.eq_false_iff]
      intro hforeign
      have hle := hfirst k _ (.foreign hmode hget hforeign)
      omega
    exact betweenChars_of_ascii_before hget (Alphabet.lt_of_isForeign hknown) rfl

end Lexical

open Utf8 Lexical

/-! ## Lexical errors -/

/-- A lexical error is at a character of the text.  A user is shown that character, and if it is an
unknown symbol, it is the one that the error quotes. -/
structure LexError.Placed (s : Bytes) (e : LexError) : Prop where
  nonneg : 0 ≤ e.index
  lt_length : e.index < s.length
  betweenChars : BetweenChars s e.index
  shown : ∃ c, head? (s.drop e.index.toNat) = some c ∧
    Failure.shown s e.index = Quoted.char c ∧ (e.kind = .unknownSymbol → e.text = Quoted.char c)

theorem Failure.shown_of_head?
    {s : Bytes} {n : Nat} {c : Char} (h : head? (s.drop n) = some c) :
    Failure.shown s n = Quoted.char c := by
  have hcast : (n : Int) = Int.ofNat n := rfl
  rw [hcast, Failure.shown, h]

/-- An error that is no unknown symbol is placed by an index of the text. -/
theorem LexError.placed_of_lt
    {s : Bytes} {n : Nat} {e : LexError} (hindex : e.index = n) (hlt : n < s.length)
    (hbetween : BetweenChars s n) (hkind : e.kind ≠ .unknownSymbol) : e.Placed s := by
  have hhead := head?_drop_eq (List.getElem?_eq_getElem hlt)
  refine ⟨by omega, by omega, hindex ▸ hbetween, ?_⟩
  rw [hindex]
  exact ⟨_, hhead, Failure.shown_of_head? hhead, fun h => (hkind h).elim⟩

theorem Lexical.Fault.placed
    {mode : Mode} {s : Bytes} {i : Nat} {e : LexError} (h : Fault mode s i e)
    (hfirst : ∀ k e', Fault mode s k e' → i ≤ k) : e.Placed s := by
  have hlt := h.lt_length
  cases h with
  | foreign hmode hb hforeign =>
    have hhead := head?_drop_eq hb
    exact ⟨Int.natCast_nonneg i, Int.ofNat_lt.mpr hlt,
      betweenChars_of_first_fault hmode (Nat.le_of_lt hlt) hfirst,
      ⟨_, hhead, Failure.shown_of_head? hhead, fun _ => rfl⟩⟩
  | @literal j hrun hbad =>
    have hij := hrun.lt
    have hle := hrun.le_length
    obtain ⟨b, hb, hascii⟩ := exists_ascii_of_byteAt (hrun.inside (j - 1) (by omega) (by omega))
    by_cases hend : j = s.length
    · -- The run ends the text: the error is at its last byte.
      refine LexError.placed_of_lt (n := j - 1) ?_ (by omega) ?_ (by simp)
      · simp only [hend, ↓reduceIte]
        omega
      · exact betweenChars_of_ascii_at hb hascii
    · refine LexError.placed_of_lt (n := j) ?_ (by omega) ?_ (by simp)
      · simp only [hend, ↓reduceIte]
      · exact betweenChars_of_ascii_before hb hascii (by omega)

theorem LexError.placed_of_tokenize
    {mode : Mode} {s : Bytes} {e : LexError} (h : Lexer.tokenize mode s = .error e) :
    e.Placed s := by
  obtain ⟨ts, hreads⟩ := Lexer.tokenize_eq_error_iff.mp h
  obtain ⟨n, hfault, hfirst⟩ := hreads.exists_first_fault
  exact hfault.placed hfirst

/-! ## Structural errors -/

/-- A structural error is at a token, or at the end of the last one. -/
structure ParseError.Placed (s : Bytes) (ts : List Token) (e : ParseError) : Prop where
  nonneg : 0 ≤ e.index
  le_length : e.index ≤ s.length
  betweenChars : BetweenChars s e.index
  at_token : Parser.PositionIn ts e.index ∨ e.index = Parser.stopOf ts

theorem betweenChars_stopOf
    {s : Bytes} {ts : List Token} (h : ∀ t ∈ ts, ∃ i j, Lexeme s i j t) :
    BetweenChars s (Parser.stopOf ts) := by
  unfold Parser.stopOf
  cases hlast : ts.getLast? with
  | none => exact betweenChars_zero s
  | some t =>
    obtain ⟨i, j, hlex⟩ := h t (List.mem_of_getLast? hlast)
    exact hlex.betweenChars_stop

theorem ParseError.placed_of_parse
    {mode : Mode} {limit : Int} {s : Bytes} {ts : List Token} {e : ParseError}
    (htokens : Lexer.tokenize mode s = .ok ts) (h : Parser.parse limit ts = .error e) :
    e.Placed s ts := by
  have hreads := Lexer.tokenize_eq_ok_iff.mp htokens
  have hlexemes : ∀ t ∈ ts, ∃ i j, Lexeme s i j t := fun t ht => (hreads.lexing.mem_iff t).mp ht
  have hplace := (Parser.parse_error_place h).2
  have hbetween : BetweenChars s e.index := by
    rcases hplace with ⟨t, ht, hindex⟩ | hindex
    · obtain ⟨i, j, hlex⟩ := hlexemes t ht
      rw [hindex]
      exact hlex.betweenChars_pos
    · rw [hindex]
      exact betweenChars_stopOf hlexemes
  exact ⟨hbetween.bounds.1, hbetween.bounds.2, hbetween, hplace⟩

/-! ## Failures of a text -/

/-- A quoted character is not taken for the end of the text. -/
theorem Quoted.char_ne_end (c : Char) : Quoted.char c ≠ ("end of input" : Bytes) := by
  intro h
  have hfirst := congrArg List.head? h
  simp only [Quoted.char, List.cons_append, List.head?_cons] at hfirst
  revert hfirst
  decide

/-- A text that has no tree fails with a lexical or a structural error, and its index is a place in
the text.  A lexical error is described with the character that stands there, never as the end of the
text. -/
theorem parseText_error_placed
    {mode : Mode} {limit : Int} {s : Bytes} {f : Failure} (h : parseText mode limit s = .error f) :
    (∃ e, f.cause = .lexical e ∧ e.Placed s ∧ Failure.shown s e.index ≠ ("end of input" : Bytes) ∧
      f.describe s = e.kind.name ++ (" at index: " : Bytes) ++ Bytes.ofInt e.index ++
        (" => " : Bytes) ++ Failure.shown s e.index) ∨
    (∃ e ts, f.cause = .structural e ∧ Lexer.tokenize mode s = .ok ts ∧ e.Placed s ts) := by
  rcases parseText_cases mode limit s with
    ⟨e, htokens, herror⟩ | ⟨ts, e, htokens, hparse, herror⟩ | ⟨ts, tree, -, -, hok⟩
  · left
    cases h.symm.trans herror
    have hplaced := LexError.placed_of_tokenize htokens
    obtain ⟨c, -, hshown, -⟩ := hplaced.shown
    refine ⟨e, rfl, hplaced, ?_, rfl⟩
    rw [hshown]
    exact Quoted.char_ne_end c
  · right
    cases h.symm.trans herror
    exact ⟨e, ts, rfl, htokens, ParseError.placed_of_parse htokens hparse⟩
  · cases h.symm.trans hok

/-- The text `+é`: the error is at the first of the two bytes of `é`. -/
theorem parseText_error_placed_of_symbol :
    ∃ f e, parseText .strict 1000 [0x2B, 0xC3, 0xA9] = .error f ∧ f.cause = .lexical e ∧
      e.index = 1 ∧ e.Placed [0x2B, 0xC3, 0xA9] := by
  have hfault : Fault .strict [0x2B, 0xC3, 0xA9] 1 ⟨.unknownSymbol, 1, Quoted.char 'é'⟩ :=
    .foreign (b := 0xC3) (by decide) rfl (by decide)
  have htokens : Lexer.tokenize .strict [0x2B, 0xC3, 0xA9] =
      .error ⟨.unknownSymbol, 1, Quoted.char 'é'⟩ :=
    Lexer.tokenize_eq_error_iff.mpr
      ⟨_, .token (.symbol rfl rfl) (not_fault_of_symbol rfl rfl) (.fault hfault)⟩
  have herror : parseText .strict 1000 [0x2B, 0xC3, 0xA9] =
      .error (.during "tokenize" (.lexical ⟨.unknownSymbol, 1, Quoted.char 'é'⟩)) := by
    simp [parseText, htokens]
  rcases parseText_error_placed herror with ⟨e, hcause, hplaced, -, -⟩ | ⟨e, ts, hcause, -, -⟩
  · cases hcause
    exact ⟨_, _, herror, rfl, rfl, hplaced⟩
  · cases hcause

end Reckon
