import Reckon.Proofs.Lexer.Tokenize
import Reckon.Proofs.Text.Encoding

/-!
# Texts joined by blanks

The tokens of two texts with blanks between them are those of the first and then those of the second,
with their positions moved.  So it is with errors: one of the first text is found where it was, and if
the first has none, one of the second text is found where that now stands.

What is said of a byte by its index depends on the bytes next to it.  A blank cuts runs of digits and
points, and it ends a character that was cut short.  The one thing that changes is where a faulty
literal is reported that runs to the end of the first text: its end is now followed by a blank, and it
is reported there.
-/

namespace Reckon

namespace Utf8

/-- A byte of the ASCII range ends what stands in front of it just as the end of a text does. -/
theorem front_append_of_lt
    {b c : UInt8} (rest more : Bytes) (hc : c.toNat < 0x80) :
    (front b (rest ++ c :: more)).1 = (front b rest).1 := by
  rcases front_cases b rest with ⟨hlow, hfront⟩ | ⟨hhigh, hfront⟩ | ⟨tail, after, rfl, hwide⟩
  · simp [front, hlow]
  · rcases front_cases b (rest ++ c :: more) with ⟨hlow, -⟩ | ⟨-, hfront'⟩ | ⟨tail, after, hsplit, hwide⟩
    · exact absurd hlow hhigh
    · rw [hfront, hfront']
    · -- The character would end in front of the ASCII byte, and then it would be there without it.
      have hinside : ∃ after', rest = tail ++ after' := by
        rcases List.append_eq_append_iff.mp hsplit with ⟨cut, rfl, hcut⟩ | ⟨after', rfl, -⟩
        · cases cut with
          | nil => exact ⟨[], by simp⟩
          | cons c' cut =>
            obtain ⟨rfl, -⟩ := List.cons.inj hcut
            exact (not_mem_tail_of_lt hwide hc (by simp)).elim
        · exact ⟨after', rfl⟩
      obtain ⟨after', rfl⟩ := hinside
      rw [front_append_eq hwide] at hfront
      cases hfront
  · rw [List.append_assoc, front_append_eq hwide, front_append_eq hwide]

end Utf8

/-- A token moved to the right. -/
def Token.shift (n : Nat) (t : Token) : Token :=
  { t with pos := t.pos + n }

/-- An error moved to the right. -/
def LexError.shift (n : Nat) (e : LexError) : LexError :=
  { e with index := e.index + n }

namespace Lexical

variable {mode : Mode} {s front more : Bytes} {i j k : Nat} {c : UInt8} {p : UInt8 → Bool}
variable {t : Token} {e : LexError} {ts us : List Token} {r : Option LexError}

/-! ## Behind another text -/

theorem getElem?_append_add (front s : Bytes) (k : Nat) :
    (front ++ s)[front.length + k]? = s[k]? := by
  rw [List.getElem?_append_right (Nat.le_add_right _ _), Nat.add_sub_cancel_left]

theorem byteAt_append_add : ByteAt p (front ++ s) (front.length + k) ↔ ByteAt p s k := by
  rw [ByteAt, getElem?_append_add, ByteAt]

theorem byteAt_append_left (hk : k < s.length) : ByteAt p (s ++ more) k ↔ ByteAt p s k := by
  rw [ByteAt, List.getElem?_append_left hk, ByteAt]

theorem slice_append_add (front s : Bytes) (i j : Nat) :
    slice (front ++ s) (front.length + i) (front.length + j) = slice s i j := by
  rw [slice, List.take_length_add_append, ← List.drop_drop, List.drop_left, slice]

theorem slice_append_left (more : Bytes) (hj : j ≤ s.length) : slice (s ++ more) i j = slice s i j := by
  rw [slice, List.take_append_of_le_length hj, slice]

/-- No run of a text goes on into what follows it. -/
def EndsRuns (front : Bytes) : Prop :=
  ∀ k, k + 1 = front.length → ¬ ByteAt Literal.isNumeric front k

theorem maximalRun_behind_iff (hfront : EndsRuns front) :
    MaximalRun (front ++ s) (front.length + i) (front.length + j) ↔ MaximalRun s i j := by
  constructor
  · rintro ⟨hlt, hinside, hbefore, hafter⟩
    refine ⟨by omega, ?_, ?_, ?_⟩
    · intro k hle hlt
      exact byteAt_append_add.mp (hinside (front.length + k) (by omega) (by omega))
    · intro k hk hnumeric
      exact hbefore (front.length + k) (by omega) (byteAt_append_add.mpr hnumeric)
    · intro hnumeric
      exact hafter (byteAt_append_add.mpr hnumeric)
  · rintro ⟨hlt, hinside, hbefore, hafter⟩
    refine ⟨by omega, ?_, ?_, ?_⟩
    · intro k hle hlt
      obtain ⟨k, rfl⟩ := Nat.exists_eq_add_of_le (show front.length ≤ k by omega)
      exact byteAt_append_add.mpr (hinside k (by omega) (by omega))
    · intro k hk hnumeric
      cases i with
      | zero =>
        rw [byteAt_append_left (by omega)] at hnumeric
        exact hfront k hk hnumeric
      | succ i =>
        obtain rfl : k = front.length + i := by omega
        exact hbefore i rfl (byteAt_append_add.mp hnumeric)
    · intro hnumeric
      exact hafter (byteAt_append_add.mp hnumeric)

theorem natCast_add_length (front : Bytes) (i : Nat) :
    (i : Int) + front.length = (front.length + i : Nat) := by
  omega

theorem lexeme_behind (hfront : EndsRuns front) (h : Lexeme s i j t) :
    Lexeme (front ++ s) (front.length + i) (front.length + j) (t.shift front.length) := by
  cases h with
  | number hrun =>
    have hlex := Lexeme.number ((maximalRun_behind_iff hfront).mpr hrun)
    rw [slice_append_add, ← natCast_add_length] at hlex
    exact hlex
  | symbol hb hkind =>
    have hlex := Lexeme.symbol ((getElem?_append_add front s i).trans hb) hkind
    rw [← natCast_add_length] at hlex
    exact hlex

theorem fault_behind (hfront : EndsRuns front) (h : Fault mode s i e) :
    Fault mode (front ++ s) (front.length + i) (e.shift front.length) := by
  cases h with
  | foreign hmode hb hforeign =>
    have hfault := Fault.foreign hmode ((getElem?_append_add front s i).trans hb) hforeign
    have hdrop : (front ++ s).drop (front.length + i + 1) = s.drop (i + 1) := by
      rw [Nat.add_assoc, ← List.drop_drop, List.drop_left]
    rw [hdrop, ← natCast_add_length] at hfault
    exact hfault
  | @literal j hrun hbad =>
    rw [← slice_append_add front s i j] at hbad
    have hfault : Fault mode (front ++ s) (front.length + i) _ :=
      .literal ((maximalRun_behind_iff hfront).mpr hrun) hbad
    have hindex : (if front.length + j = (front ++ s).length then ((front ++ s).length : Int) - 1
        else (front.length + j : Nat)) =
          (if j = s.length then (s.length : Int) - 1 else j) + front.length := by
      rw [List.length_append]
      by_cases hend : j = s.length
      · rw [if_pos (by omega), if_pos hend]
        omega
      · rw [if_neg (by omega), if_neg hend]
        omega
    rw [hindex, slice_append_add] at hfault
    exact hfault

theorem exists_fault_of_behind (hfront : EndsRuns front)
    (h : Fault mode (front ++ s) (front.length + i) e) : ∃ e', Fault mode s i e' := by
  cases h with
  | foreign hmode hb hforeign =>
    rw [getElem?_append_add] at hb
    exact ⟨_, .foreign hmode hb hforeign⟩
  | @literal j hrun hbad =>
    obtain ⟨j, rfl⟩ := Nat.exists_eq_add_of_le (show front.length ≤ j by have := hrun.lt; omega)
    rw [slice_append_add] at hbad
    exact ⟨_, .literal ((maximalRun_behind_iff hfront).mp hrun) hbad⟩

/-- Reading a text behind another one is reading it by itself, with all places moved. -/
theorem Reads.behind (hfront : EndsRuns front) (h : Reads mode s i ts r) :
    Reads mode (front ++ s) (front.length + i) (ts.map (Token.shift front.length))
      (r.map (LexError.shift front.length)) := by
  induction h with
  | finish =>
    rw [← List.length_append]
    exact .finish
  | @skip i b ts r hb hskip _ ih => exact .skip ((getElem?_append_add front s i).trans hb) hskip ih
  | token hlex hgood _ ih =>
    refine .token (lexeme_behind hfront hlex) ?_ ih
    intro e hfault
    obtain ⟨e', hfault'⟩ := exists_fault_of_behind hfront hfault
    exact hgood e' hfault'
  | fault hfault => exact .fault (fault_behind hfront hfault)

/-! ## In front of a blank -/

section InFront

variable (hc : Alphabet.isBlank c = true)
include hc

theorem not_byteAt_blank : ¬ ByteAt Literal.isNumeric (s ++ c :: more) s.length := by
  have hget : (s ++ c :: more)[s.length]? = some c := by simp
  rw [byteAt_iff hget, Alphabet.isNumeric_of_isBlank hc]
  decide

theorem maximalRun_inFront_iff (hi : i < s.length) :
    MaximalRun (s ++ c :: more) i j ↔ MaximalRun s i j := by
  have hblank : ¬ ByteAt Literal.isNumeric (s ++ c :: more) s.length := not_byteAt_blank hc
  -- There is no run across the blank, and in front of it the bytes are the same.
  have hbytes : ∀ k, k ≤ s.length →
      (ByteAt Literal.isNumeric (s ++ c :: more) k ↔ ByteAt Literal.isNumeric s k) := by
    intro k hk
    rcases Nat.lt_or_eq_of_le hk with hlt | rfl
    · exact byteAt_append_left hlt
    · refine iff_of_false hblank ?_
      intro hnumeric
      exact absurd (lt_length_of_byteAt hnumeric) (Nat.lt_irrefl _)
  constructor
  · rintro ⟨hlt, hinside, hbefore, hafter⟩
    have hj : j ≤ s.length := by
      rcases Nat.lt_or_ge s.length j with hgt | hle
      · exact (hblank (hinside s.length (by omega) hgt)).elim
      · exact hle
    refine ⟨hlt, ?_, ?_, ?_⟩
    · intro k hle hlt
      exact (hbytes k (by omega)).mp (hinside k hle hlt)
    · intro k hk hnumeric
      exact hbefore k hk ((hbytes k (by omega)).mpr hnumeric)
    · intro hnumeric
      exact hafter ((hbytes j hj).mpr hnumeric)
  · intro hrun
    have hj := hrun.le_length
    refine ⟨hrun.lt, ?_, ?_, ?_⟩
    · intro k hle hlt
      exact (hbytes k (by omega)).mpr (hrun.inside k hle hlt)
    · intro k hk hnumeric
      exact hrun.before k hk ((hbytes k (by omega)).mp hnumeric)
    · intro hnumeric
      exact hrun.after ((hbytes j hj).mp hnumeric)

theorem lexeme_inFront (h : Lexeme s i j t) : Lexeme (s ++ c :: more) i j t := by
  have hi : i < s.length := Nat.lt_of_lt_of_le h.lt h.le_length
  cases h with
  | number hrun =>
    have hlex : Lexeme (s ++ c :: more) i j _ := .number ((maximalRun_inFront_iff hc hi).mpr hrun)
    rw [slice_append_left _ hrun.le_length] at hlex
    exact hlex
  | symbol hb hkind => exact .symbol ((List.getElem?_append_left hi).trans hb) hkind

/-- A fault in front of a blank is the one that it is at the end of a text, but for the place at which
a literal is reported that ends there. -/
theorem fault_inFront (more : Bytes) (h : Fault mode s i e) :
    (MaximalRun s i s.length → Fault mode (s ++ c :: more) i { e with index := s.length }) ∧
      (¬ MaximalRun s i s.length → Fault mode (s ++ c :: more) i e) := by
  have hi := h.lt_length
  cases h with
  | foreign hmode hb hforeign =>
    constructor
    · intro hrun
      have hnumeric := (byteAt_iff hb).mp (hrun.inside i (Nat.le_refl i) hi)
      simp [Alphabet.isForeign, hnumeric] at hforeign
    · intro _
      have hfault : Fault mode (s ++ c :: more) i _ :=
        .foreign hmode ((List.getElem?_append_left hi).trans hb) hforeign
      have hlow : c.toNat < 0x80 := Alphabet.lt_of_isForeign (by simp [Alphabet.isForeign, hc])
      rw [List.drop_append_of_le_length hi, Utf8.front_append_of_lt _ _ hlow] at hfault
      exact hfault
  | @literal j hrun hbad =>
    have hle := hrun.le_length
    rw [← slice_append_left (c :: more) hle] at hbad
    have hfault : Fault mode (s ++ c :: more) i _ :=
      .literal ((maximalRun_inFront_iff hc hi).mpr hrun) hbad
    have hinside : j ≠ (s ++ c :: more).length := by
      rw [List.length_append, List.length_cons]
      omega
    rw [if_neg hinside, slice_append_left _ hle] at hfault
    constructor
    · intro hend
      obtain ⟨-, rfl⟩ := hrun.eq_of_start_lt hend (Nat.le_refl i) hrun.lt
      exact hfault
    · intro hend
      have hne : j ≠ s.length := by
        rintro rfl
        exact hend hrun
      rw [if_neg hne]
      exact hfault

theorem exists_fault_of_inFront (hi : i < s.length) (h : Fault mode (s ++ c :: more) i e) :
    ∃ e', Fault mode s i e' := by
  cases h with
  | foreign hmode hb hforeign =>
    rw [List.getElem?_append_left hi] at hb
    exact ⟨_, .foreign hmode hb hforeign⟩
  | literal hrun hbad =>
    rw [maximalRun_inFront_iff hc hi] at hrun
    rw [slice_append_left _ hrun.le_length] at hbad
    exact ⟨_, .literal hrun hbad⟩

/-- A text that is read to its end is read in the same way in front of a blank. -/
theorem Reads.inFront (h : Reads mode s i ts none) (hrest : Reads mode (s ++ c :: more) s.length us r) :
    Reads mode (s ++ c :: more) i (ts ++ us) r := by
  generalize hnone : none = r' at h
  induction h with
  | finish => exact hrest
  | @skip i b ts r' hb hskip _ ih =>
    have hi := (List.getElem?_eq_some_iff.mp hb).1
    exact .skip ((List.getElem?_append_left hi).trans hb) hskip (ih hnone)
  | token hlex hgood _ ih =>
    refine .token (lexeme_inFront hc hlex) ?_ (ih hnone)
    intro e hfault
    obtain ⟨e', hfault'⟩ :=
      exists_fault_of_inFront hc (Nat.lt_of_lt_of_le hlex.lt hlex.le_length) hfault
    exact hgood e' hfault'
  | fault => cases hnone

end InFront

/-- The leftmost fault of a text is a literal that runs to its end. -/
def EndsInFault (mode : Mode) (s : Bytes) : Prop :=
  ∃ i, MaximalRun s i s.length ∧ ¬ Literal.WellFormed (slice s i s.length) ∧
    ∀ k e, Fault mode s k e → i ≤ k

theorem endsInFault_iff (h : Fault mode s i e) (hfirst : ∀ k e', Fault mode s k e' → i ≤ k) :
    EndsInFault mode s ↔ MaximalRun s i s.length := by
  constructor
  · rintro ⟨i', hrun, hbad, hfirst'⟩
    obtain rfl : i = i' := Nat.le_antisymm (hfirst i' _ (.literal hrun hbad)) (hfirst' i e h)
    exact hrun
  · intro hrun
    refine ⟨i, hrun, ?_, hfirst⟩
    intro hgood
    exact not_fault_of_wellFormed hrun hgood e h

end Lexical

namespace Lexer

open Lexical

variable {mode : Mode} {a b w : Bytes} {ta tb : List Token} {e : LexError}

/-- The leftmost fault of a text is its error. -/
theorem tokenize_of_first_fault
    {s : Bytes} {i : Nat} (h : Fault mode s i e) (hfirst : ∀ k e', Fault mode s k e' → i ≤ k) :
    tokenize mode s = .error e := by
  rcases exists_reads_tokenize mode s with ⟨ts, -, hreads⟩ | ⟨ts, e', herror, hreads⟩
  · exact (hreads.not_fault i e h).elim
  · obtain ⟨i', hfault, hfirst'⟩ := hreads.exists_first_fault
    obtain rfl : i = i' := Nat.le_antisymm (hfirst i' e' hfault) (hfirst' i e h)
    rw [herror, h.unique hfault]

section Blanks

variable (hne : w ≠ []) (hblank : ∀ c ∈ w, Alphabet.isBlank c = true)
include hne hblank

theorem endsRuns_append (a : Bytes) : EndsRuns (a ++ w) := by
  have hpos : 0 < w.length := List.length_pos_iff.mpr hne
  intro k hk
  rw [List.length_append] at hk
  obtain ⟨k, rfl⟩ := Nat.exists_eq_add_of_le (show a.length ≤ k by omega)
  rw [byteAt_append_add]
  rintro ⟨c, hc, hnumeric⟩
  have hcblank := hblank c (List.mem_of_getElem? hc)
  simp [Alphabet.isNumeric_of_isBlank hcblank] at hnumeric

/-- What two texts are read as is read from the texts joined. -/
theorem reads_joined
    {r : Option LexError} (ha : Reads mode a 0 ta none) (hb : Reads mode b 0 tb r) :
    Reads mode (a ++ w ++ b) 0 (ta ++ tb.map (Token.shift (a.length + w.length)))
      (r.map (LexError.shift (a.length + w.length))) := by
  have hbehind := hb.behind (endsRuns_append hne hblank a)
  rw [Nat.add_zero, List.length_append] at hbehind
  have hblanks := hbehind.skips (Nat.le_add_right _ _) fun k hle hlt => by
    obtain ⟨k, rfl⟩ := Nat.exists_eq_add_of_le hle
    have hk : k < w.length := by omega
    refine ⟨w[k], ?_, Or.inl (hblank _ (List.getElem_mem hk))⟩
    rw [List.append_assoc, getElem?_append_add, List.getElem?_append_left hk,
      List.getElem?_eq_getElem hk]
  cases w with
  | nil => exact absurd rfl hne
  | cons c w =>
    rw [List.append_assoc, List.cons_append] at hblanks ⊢
    exact ha.inFront (hblank c List.mem_cons_self) hblanks

/-- The first text keeps its error, which is moved to the blank behind it if it was at its end. -/
theorem tokenize_joined_of_error (herror : tokenize mode a = .error e) :
    (EndsInFault mode a → tokenize mode (a ++ w ++ b) = .error { e with index := a.length }) ∧
      (¬ EndsInFault mode a → tokenize mode (a ++ w ++ b) = .error e) := by
  obtain ⟨ts, hreads⟩ := tokenize_eq_error_iff.mp herror
  obtain ⟨i, hfault, hfirst⟩ := hreads.exists_first_fault
  cases w with
  | nil => exact absurd rfl hne
  | cons c w =>
    have hc := hblank c List.mem_cons_self
    rw [endsInFault_iff hfault hfirst, List.append_assoc, List.cons_append]
    obtain ⟨hatEnd, hinside⟩ := fault_inFront hc (w ++ b) hfault
    -- No fault is added in front of the one that was leftmost.
    have hfirst' : ∀ k e', Fault mode (a ++ c :: (w ++ b)) k e' → i ≤ k := by
      intro k e' hfault'
      rcases Nat.lt_or_ge k i with hlt | hge
      · have hk : k < a.length := Nat.lt_trans hlt hfault.lt_length
        obtain ⟨e'', hfault''⟩ := exists_fault_of_inFront hc hk hfault'
        exact hfirst k e'' hfault''
      · exact hge
    constructor
    · intro hrun
      exact tokenize_of_first_fault (hatEnd hrun) hfirst'
    · intro hrun
      exact tokenize_of_first_fault (hinside hrun) hfirst'

end Blanks

/-- With blanks between them, two texts have the tokens of the first and then those of the second.  An
error of the second is found behind the tokens of the first, and an error of the first is the error of
both.  The errors are the same in all but their places: what stands in the second text is moved, and
so is the report of a literal that runs to the end of the first. -/
theorem tokenize_append_blanks
    (mode : Mode) (a b w : Bytes) (hne : w ≠ []) (hblank : ∀ c ∈ w, Alphabet.isBlank c = true) :
    (∀ ta tb, tokenize mode a = .ok ta → tokenize mode b = .ok tb →
        tokenize mode (a ++ w ++ b) =
          .ok (ta ++ tb.map (Token.shift (a.length + w.length)))) ∧
      (∀ ta e, tokenize mode a = .ok ta → tokenize mode b = .error e →
        tokenize mode (a ++ w ++ b) = .error (e.shift (a.length + w.length))) ∧
      ∀ e, tokenize mode a = .error e →
        (EndsInFault mode a → tokenize mode (a ++ w ++ b) = .error { e with index := a.length }) ∧
          (¬ EndsInFault mode a → tokenize mode (a ++ w ++ b) = .error e) := by
  refine ⟨?_, ?_, ?_⟩
  · intro ta tb ha hb
    rw [tokenize_eq_ok_iff] at ha hb ⊢
    exact reads_joined hne hblank ha hb
  · intro ta e ha hb
    rw [tokenize_eq_ok_iff] at ha
    obtain ⟨tb, hb⟩ := tokenize_eq_error_iff.mp hb
    exact tokenize_eq_error_iff.mpr ⟨_, reads_joined hne hblank ha hb⟩
  · intro e herror
    exact tokenize_joined_of_error hne hblank herror

/-- The literal `..` is reported at its last byte if nothing follows it, and at the blank behind it
otherwise. -/
theorem tokenize_append_blanks_of_points :
    tokenize .strict [0x2E, 0x2E] = .error ⟨.invalidConstant, 1, Quoted.text [0x2E, 0x2E]⟩ ∧
      tokenize .strict ([0x2E, 0x2E] ++ [0x20] ++ [0xFF]) =
        .error ⟨.invalidConstant, 2, Quoted.text [0x2E, 0x2E]⟩ := by
  have hrun : MaximalRun [0x2E, 0x2E] 0 2 := by
    refine ⟨by decide, ?_, by omega, ?_⟩
    · intro k _ hlt
      obtain rfl | rfl : k = 0 ∨ k = 1 := by omega
      · exact ⟨0x2E, rfl, rfl⟩
      · exact ⟨0x2E, rfl, rfl⟩
    · rintro ⟨b, hb, -⟩
      cases hb
  have hbad : ¬ Literal.WellFormed (slice [0x2E, 0x2E] 0 2) := by decide
  have hfirst : ∀ k e, Fault .strict [0x2E, 0x2E] k e → 0 ≤ k := fun k _ _ => Nat.zero_le k
  have hfault : Fault .strict [0x2E, 0x2E] 0 _ := .literal hrun hbad
  have herror := tokenize_of_first_fault hfault hfirst
  refine ⟨herror, ?_⟩
  have hblank : ∀ c ∈ ([0x20] : Bytes), Alphabet.isBlank c = true :=
    List.forall_mem_singleton.mpr rfl
  have hjoined := (tokenize_append_blanks .strict _ [0xFF] [0x20] (by decide) hblank).2.2 _ herror
  exact hjoined.1 ⟨0, hrun, hbad, hfirst⟩

end Lexer
end Reckon
