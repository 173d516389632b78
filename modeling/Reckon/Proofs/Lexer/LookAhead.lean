import Reckon.Proofs.Lexer.Movement

/-!
# Looking ahead

The lexer looks at the next unit by moving over it and giving it back.  Giving it back searches for
the start of the unit from its end, and this finds the right place only because of how the place was
reached: by moves over whole units from the start of the text, so that no character begins in front of
the place and ends behind it.

At such a place a look ahead changes nothing, whatever the bytes are, and a run of a class of
characters ends in front of the first unit whose character is not in the class.
-/

namespace Reckon
namespace Cursor

/-- The cursor after some moves. -/
def moved (c : Cursor) : Nat → Cursor
  | 0 => c
  | n + 1 => (c.moved n).next.2

/-- The first of some moves may be made before the others. -/
theorem moved_next (c : Cursor) (n : Nat) : c.next.2.moved n = c.moved (n + 1) := by
  induction n with
  | zero => rfl
  | succ n ih => rw [moved, ih, ← moved]

theorem text_moved (c : Cursor) (n : Nat) : (c.moved n).text = c.text := by
  induction n with
  | zero => rfl
  | succ n ih => rw [moved, text_next, ih]

/-- A move takes the unit at the place, and the last unit of the text up to the new place is as wide
as the one that was taken. -/
theorem next_of_drop_text {c : Cursor} {b : UInt8} {rest : Bytes}
    (h : c.text.drop c.pos = b :: rest) :
    c.next.1 = some (Utf8.front b rest).1 ∧
      c.next.2.pos = c.pos + Utf8.width b rest ∧
      Utf8.lastWidth (c.text.take c.next.2.pos).reverse = Utf8.width b rest := by
  have hahead : c.ahead = b :: rest := c.drop_text_pos ▸ h
  obtain ⟨hunit, hbehind, -, hpos, -⟩ := next_of_ahead_eq_cons hahead
  refine ⟨hunit, hpos, ?_⟩
  rw [← c.text_next, take_text_pos, List.reverse_reverse, hbehind]
  exact (hahead ▸ c.boundary).lastWidth_next

/-- After two bytes of a character of three, where no move ends, a move takes one byte and would give
back all three. -/
example : Utf8.width 0xAC [] = 1 ∧ Utf8.lastWidth [0xAC, 0x82, 0xE2] = 3 := by decide

/-! ## Runs -/

/-- A cursor has moved over units of a class and stands in front of one that is not of the class, or at
the end of the text. -/
def RunsTo (p : Char → Bool) (c d : Cursor) : Prop :=
  ∃ k, d = (c.moved k).settled ∧
    (∀ j < k, ∃ g, (c.moved j).next.1 = some g ∧ p g.toChar = true) ∧
    ∀ g, (c.moved k).next.1 = some g → p g.toChar = false

section Runs

variable {p : Char → Bool} {c d : Cursor}

/-- A run is empty in front of a unit that is not of the class. -/
theorem runsTo_of_next (h : ∀ g, c.next.1 = some g → p g.toChar = false) :
    RunsTo p c (c.acceptRun p) :=
  ⟨0, acceptRun_eq_settled h, fun j hj => absurd hj (Nat.not_lt_zero j), h⟩

theorem RunsTo.of_next {g : Glyph} (hg : c.next.1 = some g) (hp : p g.toChar = true)
    (h : RunsTo p c.next.2 d) : RunsTo p c d := by
  obtain ⟨k, rfl, hinside, hafter⟩ := h
  refine ⟨k + 1, by rw [moved_next], ?_, ?_⟩
  · intro j hj
    cases j with
    | zero => exact ⟨g, hg, hp⟩
    | succ j =>
      rw [← moved_next]
      exact hinside j (by omega)
  · rwa [moved_next] at hafter

/-- A run ends exactly in front of the first unit that is not of its class. -/
theorem runsTo_acceptRun (p : Char → Bool) (c : Cursor) : RunsTo p c (c.acceptRun p) := by
  fun_induction passRun p c with
  | case1 c g d h hp ih =>
    obtain rfl : c.next.2 = d := by rw [h]
    rw [acceptRun_of_next h hp]
    exact ih.of_next (by rw [h]) hp
  | case2 c g d h hp =>
    refine runsTo_of_next fun g' hg' => ?_
    rw [h] at hg'
    cases hg'
    simpa using hp
  | case3 c d h =>
    refine runsTo_of_next fun g hg => ?_
    rw [h] at hg
    cases hg

end Runs

/-- At every place that is reached from the start of a text by moves, a move and its undoing lead back
to the place and leave no note of the end of the text, so that a look ahead from there changes nothing.
For the last unit of the text up to the place behind a move is as wide as the one that was taken.  A run
ends in front of the first unit that is not of its class. -/
theorem lookAhead_restores_place (s : Bytes) (n : Nat) :
    let c := (ofText s).moved n
    (c.next.2.backup.pos = c.pos ∧ c.next.2.backup.atEnd = false ∧ c.next.2.backup = c.settled) ∧
      (c.settled.peek = (c.next.1, c.settled) ∧ (c.atEnd = false → c.peek = (c.next.1, c))) ∧
      (∀ b rest, s.drop c.pos = b :: rest →
        c.next.1 = some (Utf8.front b rest).1 ∧ c.next.2.pos = c.pos + Utf8.width b rest ∧
          Utf8.lastWidth (s.take c.next.2.pos).reverse = Utf8.width b rest) ∧
      ∀ p, RunsTo p c (c.acceptRun p) := by
  intro c
  have htext : c.text = s := text_moved (ofText s) n
  have hback : c.next.2.backup = c.settled := c.backup_next
  refine ⟨⟨?_, ?_, hback⟩, ⟨?_, ?_⟩, ?_, fun p => runsTo_acceptRun p c⟩
  · rw [hback]
    rfl
  · rw [hback]
    rfl
  · rw [peek_eq, next_fst_settled]
    rfl
  · intro hend
    rw [peek_eq, show c.settled = c from ext rfl rfl rfl hend.symm]
  · intro b rest hdrop
    rw [← htext] at hdrop ⊢
    exact next_of_drop_text hdrop

end Cursor
end Reckon
