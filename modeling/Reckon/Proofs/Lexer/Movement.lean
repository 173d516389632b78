import Reckon.Proofs.Lexer.Alphabet

/-!
# What a cursor passes

A cursor moves by units, and this module says which bytes it moves over.  The text of a cursor never
changes.  A move over a byte of the alphabet is a move by one; a move over anything else is a move
over foreign bytes only.  A run of a class of bytes ends at the first byte that is not of the class.
-/

namespace Reckon

/-- The bytes of a text from one index up to another. -/
def slice (s : Bytes) (i j : Nat) : Bytes :=
  (s.take j).drop i

/-- The byte at an index is there and in a class. -/
def ByteAt (p : UInt8 → Bool) (s : Bytes) (k : Nat) : Prop :=
  ∃ b, s[k]? = some b ∧ p b = true

theorem lt_length_of_byteAt {p : UInt8 → Bool} {s : Bytes} {k : Nat} (h : ByteAt p s k) :
    k < s.length := by
  obtain ⟨b, hb, -⟩ := h
  exact (List.getElem?_eq_some_iff.mp hb).1

theorem byteAt_iff {p : UInt8 → Bool} {s : Bytes} {k : Nat} {b : UInt8} (h : s[k]? = some b) :
    ByteAt p s k ↔ p b = true := by
  constructor
  · rintro ⟨b', hb', hp⟩
    cases h.symm.trans hb'
    exact hp
  · intro hp
    exact ⟨b, h, hp⟩

theorem length_slice {s : Bytes} {i j : Nat} (hj : j ≤ s.length) :
    (slice s i j).length = j - i := by
  simp [slice]
  omega

namespace Cursor

/-- The whole text. -/
def text (c : Cursor) : Bytes :=
  c.behind.reverse ++ c.ahead

theorem length_text (c : Cursor) : c.text.length = c.pos + c.ahead.length := by
  simp [text, c.pos_eq]

theorem getElem?_text (c : Cursor) (k : Nat) : c.text[c.pos + k]? = c.ahead[k]? := by
  rw [text, List.getElem?_append_right (by simp [c.pos_eq])]
  simp [c.pos_eq]

/-- The byte at the place is the first one ahead. -/
theorem getElem?_text_pos {c : Cursor} {b : UInt8} {rest : Bytes} (h : c.ahead = b :: rest) :
    c.text[c.pos]? = some b := by
  have := c.getElem?_text 0
  simpa [h] using this

theorem getElem?_text_of_nil {c : Cursor} (h : c.ahead = []) : c.text[c.pos]? = none := by
  have := c.getElem?_text 0
  simpa [h] using this

/-- The bytes of the text up to the place are those behind it. -/
theorem take_text_pos (c : Cursor) : c.text.take c.pos = c.behind.reverse := by
  simp [text, c.pos_eq]

/-- The bytes of the text from the place on are those ahead. -/
theorem drop_text_pos (c : Cursor) : c.text.drop c.pos = c.ahead := by
  simp [text, c.pos_eq]

theorem drop_text {c : Cursor} {b : UInt8} {rest : Bytes} (h : c.ahead = b :: rest) :
    c.text.drop (c.pos + 1) = rest := by
  rw [← List.drop_drop, drop_text_pos, h]
  rfl

/-- The current piece is the part of the text from its start up to the place. -/
theorem piece_eq_slice (c : Cursor) : c.piece = slice c.text c.start c.pos := by
  rw [piece, slice, take_text_pos, c.pos_eq]
  exact List.drop_reverse.symm

/-! ## Moves -/

theorem text_next (c : Cursor) : c.next.2.text = c.text := by
  cases h : c.ahead with
  | nil => simp [next_of_ahead_eq_nil h, text]
  | cons b rest =>
    obtain ⟨-, hbehind, hahead, -⟩ := next_of_ahead_eq_cons h
    simp [text, hbehind, hahead, h]

/-- A move over a byte of the ASCII range is a move by one. -/
theorem pos_next_of_lt {c : Cursor} {b : UInt8} {rest : Bytes} (h : c.ahead = b :: rest)
    (hb : b.toNat < 0x80) : c.next.2.pos = c.pos + 1 := by
  obtain ⟨-, -, -, hpos, -⟩ := next_of_ahead_eq_cons h
  rcases Utf8.width_cases b rest with ⟨hwidth, -⟩ | ⟨tail, after, -, hwide, -⟩
  · rw [hpos, hwidth]
  · have := (Utf8.isWide_shape hwide).1
    omega

/-- A move over a foreign byte is a move over foreign bytes only. -/
theorem byteAt_next_of_isForeign {c : Cursor} {b : UInt8} {rest : Bytes} (h : c.ahead = b :: rest)
    (hb : Alphabet.isForeign b = true) {k : Nat} (hge : c.pos ≤ k) (hlt : k < c.next.2.pos) :
    ByteAt Alphabet.isForeign c.text k := by
  obtain ⟨-, -, -, hpos, -⟩ := next_of_ahead_eq_cons h
  obtain ⟨n, rfl⟩ := Nat.exists_eq_add_of_le hge
  rw [ByteAt, getElem?_text, h]
  cases n with
  | zero => exact ⟨b, rfl, hb⟩
  | succ n =>
    rcases Utf8.width_cases b rest with ⟨hwidth, -⟩ | ⟨tail, after, rfl, hwide, hwidth, -⟩
    · omega
    · have hn : n < tail.length := by omega
      refine ⟨tail[n], ?_, ?_⟩
      · rw [List.getElem?_cons_succ, List.getElem?_append_left hn, List.getElem?_eq_getElem hn]
      have htail := (Utf8.isWide_shape hwide).2.2.2 tail[n] (List.getElem_mem hn)
      exact Alphabet.isForeign_of_le (Utf8.isTail_iff.mp htail).1

/-! ## Runs -/

/-- A cursor moved over the bytes of a class, and as far as there were any. -/
structure Passes (q : UInt8 → Bool) (c d : Cursor) : Prop where
  text_eq : d.text = c.text
  start_eq : d.start = c.start
  pos_le : c.pos ≤ d.pos
  inside : ∀ k, c.pos ≤ k → k < d.pos → ByteAt q c.text k
  stops : ¬ ByteAt q c.text d.pos

/-- A run that starts at a byte of its class is not empty. -/
theorem Passes.pos_lt {q : UInt8 → Bool} {c d : Cursor} (h : Passes q c d)
    (hc : ByteAt q c.text c.pos) : c.pos < d.pos := by
  rcases Nat.lt_or_ge c.pos d.pos with hlt | hge
  · exact hlt
  · have heq : c.pos = d.pos := Nat.le_antisymm h.pos_le hge
    exact (h.stops (heq ▸ hc)).elim

section Runs

variable {p : Char → Bool} {q : UInt8 → Bool}
variable (hagree : ∀ b rest, p (Utf8.front b rest).1.toChar = q b)
include hagree

theorem passes_of_next {c : Cursor} (h : ∀ g, c.next.1 = some g → p g.toChar = false) :
    Passes q c (c.acceptRun p) := by
  rw [acceptRun_eq_settled h]
  refine ⟨rfl, rfl, Nat.le_refl _, fun k hge hlt => absurd hlt (Nat.not_lt.mpr hge), ?_⟩
  rintro ⟨b, hb, hq⟩
  cases hahead : c.ahead with
  | nil => simp [settled, getElem?_text_of_nil hahead] at hb
  | cons b' rest =>
    cases (getElem?_text_pos hahead).symm.trans hb
    have hp := h _ (next_of_ahead_eq_cons hahead).1
    simp [hagree, hq] at hp

/-- A run over characters whose class is told by their first byte, which is then the only one, is a
run over bytes. -/
theorem passes_acceptRun (hlow : ∀ b, q b = true → b.toNat < 0x80) (c : Cursor) :
    Passes q c (c.acceptRun p) := by
  fun_induction passRun p c with
  | case1 c g d h hp ih =>
    have hg : c.next.1 = some g := by rw [h]
    have hd : d = c.next.2 := by rw [h]
    rw [acceptRun_of_next h hp]
    subst hd
    cases hahead : c.ahead with
    | nil => simp [next_of_ahead_eq_nil hahead] at hg
    | cons b rest =>
      obtain ⟨hfront, -, -, -, hstart, -⟩ := next_of_ahead_eq_cons hahead
      cases hfront.symm.trans hg
      have hq : q b = true := by rwa [← hagree b rest]
      have hpos := pos_next_of_lt hahead (hlow b hq)
      have htext := c.text_next
      refine ⟨ih.text_eq.trans htext, ih.start_eq.trans hstart, ?_, ?_, ?_⟩
      · have := ih.pos_le
        omega
      · intro k hge hlt
        by_cases heq : k = c.pos
        · exact ⟨b, heq ▸ getElem?_text_pos hahead, hq⟩
        · exact htext ▸ ih.inside k (by omega) hlt
      · exact htext ▸ ih.stops
  | case2 c g d h hp =>
    apply passes_of_next hagree
    intro g' hg'
    rw [h] at hg'
    cases hg'
    simpa using hp
  | case3 c d h =>
    apply passes_of_next hagree
    intro g hg
    rw [h] at hg
    cases hg

end Runs

end Cursor
end Reckon
