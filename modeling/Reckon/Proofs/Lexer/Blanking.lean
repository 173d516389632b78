import Reckon.Proofs.Lexer.Tokenize

/-!
# Skipping symbols is reading blanks

A permissive reading skips the symbols it does not know.  It might as well have found blanks in their
place: it takes the tokens, and ends with the fault, that a strict reading takes and ends with on the
text in which every foreign byte is a blank.

The lexer skips a symbol of several bytes at once, whereas its bytes become as many blanks.  The
comparison is therefore made between readings, which skip byte by byte in either mode.  What makes the
two agree is that blanking keeps the length of the text and, at every index, all that a reading asks of
a byte but whether it is blank or foreign.
-/

namespace Reckon
namespace Alphabet

/-- A byte, or a blank in its place when it is foreign. -/
def blanked (b : UInt8) : UInt8 :=
  if isForeign b then 0x20 else b

theorem blanked_of_isForeign {b : UInt8} (h : isForeign b = true) : blanked b = 0x20 := by
  simp [blanked, h]

theorem blanked_eq_self {b : UInt8} (h : isForeign b = false) : blanked b = b := by
  simp [blanked, h]

theorem isForeign_of_isNumeric {b : UInt8} (h : Literal.isNumeric b = true) :
    isForeign b = false := by
  simp [isForeign, h]

theorem isForeign_blanked (b : UInt8) : isForeign (blanked b) = false := by
  by_cases hforeign : isForeign b = true
  · rw [blanked_of_isForeign hforeign]
    decide
  · have hknown : isForeign b = false := Bool.eq_false_iff.mpr hforeign
    rw [blanked_eq_self hknown]
    exact hknown

theorem isNumeric_blanked (b : UInt8) : Literal.isNumeric (blanked b) = Literal.isNumeric b := by
  by_cases hforeign : isForeign b = true
  · have hnumeric : Literal.isNumeric b = false := by
      rw [Bool.eq_false_iff]
      intro hnumeric
      simp [isForeign_of_isNumeric hnumeric] at hforeign
    rw [blanked_of_isForeign hforeign, hnumeric]
    decide
  · rw [blanked_eq_self (Bool.eq_false_iff.mpr hforeign)]

end Alphabet

namespace Lexical

open Alphabet

variable {s : Bytes} {i j : Nat}

/-- A text with every foreign byte replaced by a blank. -/
def blank (s : Bytes) : Bytes :=
  s.map blanked

theorem length_blank (s : Bytes) : (blank s).length = s.length :=
  List.length_map _

theorem getElem?_blank (s : Bytes) (k : Nat) : (blank s)[k]? = s[k]?.map blanked :=
  List.getElem?_map

theorem isForeign_of_mem_blank {b : UInt8} (h : b ∈ blank s) : isForeign b = false := by
  obtain ⟨b', -, rfl⟩ := List.mem_map.mp h
  exact isForeign_blanked b'

theorem blank_eq_self (h : ∀ b ∈ s, isForeign b = false) : blank s = s :=
  (List.map_congr_left fun b hb => blanked_eq_self (h b hb)).trans (List.map_id s)

/-! ## Runs, lexemes and faults of the blanked text -/

theorem byteAt_isNumeric_blank (s : Bytes) (k : Nat) :
    ByteAt Literal.isNumeric (blank s) k ↔ ByteAt Literal.isNumeric s k := by
  cases hb : s[k]? with
  | none => simp [ByteAt, getElem?_blank, hb]
  | some b =>
    have hblank : (blank s)[k]? = some (blanked b) := by
      rw [getElem?_blank, hb]
      rfl
    rw [byteAt_iff hb, byteAt_iff hblank, isNumeric_blanked]

theorem maximalRun_blank_iff : MaximalRun (blank s) i j ↔ MaximalRun s i j := by
  have hbytes := byteAt_isNumeric_blank s
  constructor
  · rintro ⟨hlt, hinside, hbefore, hafter⟩
    simp only [hbytes] at hinside hbefore hafter
    exact ⟨hlt, hinside, hbefore, hafter⟩
  · rintro ⟨hlt, hinside, hbefore, hafter⟩
    simp only [← hbytes] at hinside hbefore hafter
    exact ⟨hlt, hinside, hbefore, hafter⟩

/-- Blanking leaves the bytes of a run as they are. -/
theorem slice_blank (h : MaximalRun s i j) : slice (blank s) i j = slice s i j := by
  have hslice : slice (blank s) i j = (slice s i j).map blanked := by
    rw [slice, slice, blank, ← List.map_take, ← List.map_drop]
  rw [hslice]
  apply blank_eq_self
  intro b hb
  exact isForeign_of_isNumeric (h.isNumeric_of_mem hb)

theorem lexeme_blank {t : Token} (h : Lexeme s i j t) : Lexeme (blank s) i j t := by
  cases h with
  | number hrun =>
    rw [← slice_blank hrun]
    exact .number (maximalRun_blank_iff.mpr hrun)
  | symbol hb hkind =>
    refine .symbol ?_ hkind
    rw [getElem?_blank, hb, Option.map_some, blanked_eq_self]
    simp [isForeign, hkind]

/-- Of the two kinds of fault only literals are left, in the blanked text because it has no foreign
byte and in a permissive reading because these are skipped. -/
theorem fault_blank_iff {e : LexError} :
    Fault .strict (blank s) i e ↔ Fault .permissive s i e := by
  constructor
  · intro h
    cases h with
    | foreign _ hb hforeign =>
      rw [isForeign_of_mem_blank (List.mem_of_getElem? hb)] at hforeign
      cases hforeign
    | literal hrun hbad =>
      rw [maximalRun_blank_iff] at hrun
      rw [slice_blank hrun] at hbad ⊢
      rw [length_blank]
      exact .literal hrun hbad
  · intro h
    cases h with
    | foreign hmode => exact (hmode rfl).elim
    | literal hrun hbad =>
      rw [← slice_blank hrun] at hbad ⊢
      rw [← length_blank s]
      exact .literal (maximalRun_blank_iff.mpr hrun) hbad

theorem skips_blanked {b : UInt8} (h : Skips .permissive b) : Skips .strict (blanked b) := by
  rcases h with hblank | ⟨-, hforeign⟩
  · left
    rw [blanked_eq_self (by simp [isForeign, hblank])]
    exact hblank
  · left
    rw [blanked_of_isForeign hforeign]
    decide

/-! ## Reading the blanked text -/

/-- A permissive reading of a text is a strict reading of the blanked text. -/
theorem reads_blank {ts : List Token} {r : Option LexError}
    (h : Reads .permissive s i ts r) : Reads .strict (blank s) i ts r := by
  induction h with
  | finish =>
    rw [← length_blank s]
    exact .finish
  | @skip i b ts r hb hskip _ ih =>
    have hblank : (blank s)[i]? = some (blanked b) := by
      rw [getElem?_blank, hb]
      rfl
    exact .skip hblank (skips_blanked hskip) ih
  | token hlex hgood _ ih =>
    apply Reads.token (lexeme_blank hlex)
    · intro e hfault
      exact hgood e (fault_blank_iff.mp hfault)
    · exact ih
  | fault hfault => exact .fault (fault_blank_iff.mpr hfault)

end Lexical

namespace Lexer

open Lexical

theorem tokenize_permissive (s : Bytes) : tokenize .permissive s = tokenize .strict (blank s) := by
  rcases exists_reads_tokenize .permissive s with ⟨ts, htokens, hreads⟩ | ⟨ts, e, herror, hreads⟩
  · rw [htokens, tokenize_eq_ok_iff.mpr (reads_blank hreads)]
  · rw [herror, tokenize_eq_error_iff.mpr ⟨ts, reads_blank hreads⟩]

theorem kind_ne_unknownSymbol_of_fault {s : Bytes} {i : Nat} {e : LexError}
    (h : Fault .permissive s i e) : e.kind ≠ .unknownSymbol := by
  cases h with
  | foreign hmode => exact (hmode rfl).elim
  | literal => simp

/-- A text that has tokens in a strict reading has no foreign byte. -/
theorem isForeign_of_tokenize_strict {s : Bytes} {ts : List Token}
    (h : tokenize .strict s = .ok ts) : ∀ b ∈ s, Alphabet.isForeign b = false := by
  have hreads := tokenize_eq_ok_iff.mp h
  exact (forall_not_fault_iff.mp hreads.not_fault).2 (by decide)

/-- Reading a text permissively is reading the blanked text strictly: the tokens are the same, or
the error is the same.  No symbol is unknown then, and a text that has tokens in a strict reading has
the same tokens in a permissive one. -/
theorem tokenize_permissive_eq_strict_blank (s : Bytes) :
    tokenize .permissive s = tokenize .strict (blank s) ∧
      (∀ e, tokenize .permissive s = .error e → e.kind ≠ .unknownSymbol) ∧
      (∀ ts, tokenize .strict s = .ok ts → tokenize .permissive s = .ok ts) := by
  refine ⟨tokenize_permissive s, ?_, ?_⟩
  · intro e herror
    obtain ⟨ts, hreads⟩ := tokenize_eq_error_iff.mp herror
    obtain ⟨n, hfault, -⟩ := hreads.exists_first_fault
    exact kind_ne_unknownSymbol_of_fault hfault
  · intro ts htokens
    rw [tokenize_permissive, blank_eq_self (isForeign_of_tokenize_strict htokens)]
    exact htokens

/-- A symbol of two bytes between two literals is skipped as two blanks are, and a text that is a
sign alone has one token in either mode. -/
theorem tokenize_permissive_of_wide_symbol :
    tokenize .permissive [0x31, 0xC3, 0xA9, 0x32] = tokenize .strict [0x31, 0x20, 0x20, 0x32] ∧
      tokenize .strict [0x2B] = .ok [Token.make .plus [0x2B] 0] ∧
      tokenize .permissive [0x2B] = .ok [Token.make .plus [0x2B] 0] := by
  have hsign : tokenize .strict [0x2B] = .ok [Token.make .plus [0x2B] 0] := by
    apply tokenize_eq_ok_iff.mpr
    exact .token (.symbol rfl rfl) (not_fault_of_symbol rfl rfl) .finish
  refine ⟨(tokenize_permissive_eq_strict_blank _).1, hsign, ?_⟩
  exact (tokenize_permissive_eq_strict_blank _).2.2 _ hsign

end Lexer
end Reckon
