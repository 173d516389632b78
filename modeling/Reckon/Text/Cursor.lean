import Reckon.Text.Boundary

/-!
# Moving through a text

A cursor stands at a place of a text, between the bytes it has passed and those ahead of it, and
remembers where the piece it is reading started.  It moves forwards by a unit and can give the last
unit back; at the end of the text it does not move, and the next `backup` only takes note of that.

Every cursor stands at a boundary between characters, so that a look ahead, which is a move and its
undoing, leaves the cursor where it was.
-/

namespace Reckon

/-- A place in a text. -/
structure Cursor where
  /-- The bytes in front of the place, the latest first. -/
  behind : Bytes
  /-- The bytes from the place on. -/
  ahead : Bytes
  /-- The index of the place. -/
  pos : Nat
  /-- The index at which the current piece starts. -/
  start : Nat
  /-- Whether the last move met the end of the text. -/
  atEnd : Bool
  pos_eq : pos = behind.length
  boundary : Utf8.Boundary behind ahead
  ahead_eq_nil : atEnd = true → ahead = []

namespace Cursor

/-- The start of a text. -/
def ofText (s : Bytes) : Cursor where
  behind := []
  ahead := s
  pos := 0
  start := 0
  atEnd := false
  pos_eq := rfl
  boundary := Utf8.boundary_nil s
  ahead_eq_nil := by simp

/-- The index behind the first unit of what is ahead. -/
theorem pos_add_width (c : Cursor) (b : UInt8) (rest : Bytes) :
    c.pos + Utf8.width b rest =
      ((rest.take (Utf8.width b rest - 1)).reverse ++ b :: c.behind).length := by
  have hpos := Utf8.width_pos b rest
  have hle := Utf8.width_le b rest
  rw [List.length_append, List.length_reverse, List.length_take, List.length_cons, c.pos_eq]
  omega

theorem atEnd_eq_false {c : Cursor} {b : UInt8} {rest : Bytes} (h : c.ahead = b :: rest) :
    c.atEnd = false := by
  rw [Bool.eq_false_iff]
  intro hend
  rw [c.ahead_eq_nil hend] at h
  cases h

/-- Moves over the next unit and returns it; there is none at the end of the text. -/
def next (c : Cursor) : Option Glyph × Cursor :=
  match h : c.ahead with
  | [] => (none, { c with atEnd := true, ahead_eq_nil := fun _ => h })
  | b :: rest =>
    let width := Utf8.width b rest
    (some (Utf8.front b rest).1,
      { c with
        behind := (rest.take (width - 1)).reverse ++ b :: c.behind
        ahead := rest.drop (width - 1)
        pos := c.pos + width
        pos_eq := c.pos_add_width b rest
        boundary := (h ▸ c.boundary).next
        ahead_eq_nil := fun hend => absurd hend (by rw [atEnd_eq_false h]; decide) })

/-- The cursor with the end of the text forgotten. -/
def settled (c : Cursor) : Cursor :=
  { c with atEnd := false, ahead_eq_nil := by simp }

/-- Undoes a move: gives the last unit back, unless the move met the end of the text. -/
def backup (c : Cursor) : Cursor :=
  if h : c.atEnd || c.pos = 0 then c.settled
  else
    let width := Utf8.lastWidth c.behind
    { c with
      behind := c.behind.drop width
      ahead := (c.behind.take width).reverse ++ c.ahead
      pos := c.pos - width
      pos_eq := by simp [c.pos_eq]
      boundary := c.boundary.back
      ahead_eq_nil := fun hend => by simp [hend] at h }

/-- The next unit, looked at without moving. -/
def peek (c : Cursor) : Option Glyph × Cursor :=
  (c.next.1, c.next.2.backup)

/-- Starts a piece at the place. -/
def mark (c : Cursor) : Cursor :=
  { c with start := c.pos }

/-- The bytes of the current piece. -/
def piece (c : Cursor) : Bytes :=
  (c.behind.take (c.pos - c.start)).reverse

@[simp] theorem ahead_mark (c : Cursor) : c.mark.ahead = c.ahead := rfl

@[simp] theorem ahead_settled (c : Cursor) : c.settled.ahead = c.ahead := rfl

/-! ## Looking ahead -/

theorem next_of_ahead_eq_nil {c : Cursor} (h : c.ahead = []) :
    c.next = (none, { c with atEnd := true, ahead_eq_nil := fun _ => h }) := by
  unfold next
  split
  · rfl
  next heq => simp [h] at heq

/-- The unit at a place and the cursor behind it. -/
theorem next_of_ahead_eq_cons {c : Cursor} {b : UInt8} {rest : Bytes} (h : c.ahead = b :: rest) :
    c.next.1 = some (Utf8.front b rest).1 ∧
      c.next.2.behind = (rest.take (Utf8.width b rest - 1)).reverse ++ b :: c.behind ∧
      c.next.2.ahead = rest.drop (Utf8.width b rest - 1) ∧
      c.next.2.pos = c.pos + Utf8.width b rest ∧
      c.next.2.start = c.start ∧ c.next.2.atEnd = false := by
  have hend := atEnd_eq_false h
  unfold next
  split
  next heq => simp [h] at heq
  next b' rest' heq =>
    obtain ⟨rfl, rfl⟩ := List.cons.inj (h.symm.trans heq)
    exact ⟨rfl, rfl, rfl, rfl, rfl, hend⟩

/-- Two cursors that agree in what they hold are equal. -/
theorem ext {c d : Cursor} (hbehind : c.behind = d.behind) (hahead : c.ahead = d.ahead)
    (hstart : c.start = d.start) (hend : c.atEnd = d.atEnd) : c = d := by
  have hpos : c.pos = d.pos := by rw [c.pos_eq, d.pos_eq, hbehind]
  cases c
  cases d
  simp_all

/-- A move and its undoing leave the cursor where it was. -/
theorem backup_next (c : Cursor) : c.next.2.backup = c.settled := by
  cases h : c.ahead with
  | nil =>
    rw [next_of_ahead_eq_nil h]
    rfl
  | cons b rest =>
    obtain ⟨-, hbehind, hahead, hpos, hstart, hend⟩ := next_of_ahead_eq_cons h
    have hwidth : Utf8.lastWidth c.next.2.behind = Utf8.width b rest := by
      rw [hbehind]
      exact (h ▸ c.boundary).lastWidth_next
    have hlen : ((rest.take (Utf8.width b rest - 1)).reverse ++ [b]).length = Utf8.width b rest := by
      have := Utf8.width_pos b rest
      have := Utf8.width_le b rest
      simp
      omega
    have hmoved : ¬ (c.next.2.atEnd || c.next.2.pos = 0) = true := by
      have := Utf8.width_pos b rest
      simp [hend, hpos]
      omega
    have hsplit : c.next.2.behind =
        ((rest.take (Utf8.width b rest - 1)).reverse ++ [b]) ++ c.behind := by
      simp [hbehind]
    unfold backup
    rw [dif_neg hmoved]
    apply ext
    · simp only [hwidth]
      rw [hsplit, List.drop_left' hlen]
      rfl
    · simp only [hwidth]
      rw [hsplit, hahead, List.take_left' hlen]
      simp [settled, h]
    · exact hstart
    · exact hend

/-- A look ahead leaves the cursor where it was. -/
theorem peek_eq (c : Cursor) : c.peek = (c.next.1, c.settled) := by
  rw [peek, backup_next]

theorem next_fst_settled (c : Cursor) : c.settled.next.1 = c.next.1 := by
  cases h : c.ahead with
  | nil => rw [next_of_ahead_eq_nil h, next_of_ahead_eq_nil (c := c.settled) h]
  | cons b rest =>
    rw [(next_of_ahead_eq_cons h).1, (next_of_ahead_eq_cons (c := c.settled) h).1]

/-- A look ahead shows the unit that the next move takes. -/
theorem next_fst_of_peek {c d : Cursor} {g : Option Glyph} (h : c.peek = (g, d)) :
    d.ahead = c.ahead ∧ d.next.1 = g := by
  rw [peek_eq, Prod.mk.injEq] at h
  obtain ⟨rfl, rfl⟩ := h
  exact ⟨rfl, next_fst_settled c⟩

/-- A move over a unit shortens what is ahead. -/
theorem length_ahead_lt_of_next {c d : Cursor} {g : Glyph} (h : c.next = (some g, d)) :
    d.ahead.length < c.ahead.length := by
  cases hahead : c.ahead with
  | nil => simp [next_of_ahead_eq_nil hahead] at h
  | cons b rest =>
    have hd : d.ahead = rest.drop (Utf8.width b rest - 1) := by
      simpa only [h] using (next_of_ahead_eq_cons hahead).2.2.1
    simp only [hd, List.length_drop, List.length_cons]
    omega

theorem length_ahead_next_lt {c : Cursor} {g : Glyph} (h : c.next.1 = some g) :
    c.next.2.ahead.length < c.ahead.length :=
  length_ahead_lt_of_next (Prod.ext h rfl)

/-! ## Runs of characters -/

/-- Moves over the units whose characters are in a class, and over the first one whose character is
not. -/
def passRun (p : Char → Bool) (c : Cursor) : Cursor :=
  match _h : c.next with
  | (some g, d) => if p g.toChar then passRun p d else d
  | (none, d) => d
termination_by c.ahead.length
decreasing_by exact length_ahead_lt_of_next ‹_›

/-- Moves over the units whose characters are in a class. -/
def acceptRun (p : Char → Bool) (c : Cursor) : Cursor :=
  (c.passRun p).backup

theorem acceptRun_of_next {p : Char → Bool} {c d : Cursor} {g : Glyph}
    (h : c.next = (some g, d)) (hp : p g.toChar = true) :
    c.acceptRun p = d.acceptRun p := by
  rw [acceptRun, acceptRun, passRun, h]
  simp [hp]

/-- A run stops in front of the first unit that is not in the class. -/
theorem acceptRun_eq_settled {p : Char → Bool} {c : Cursor}
    (h : ∀ g, c.next.1 = some g → p g.toChar = false) : c.acceptRun p = c.settled := by
  have hpass : c.passRun p = c.next.2 := by
    rw [passRun]
    split
    next g d hnext =>
      have hg := h g (by rw [hnext])
      simp [hg, hnext]
    next d hnext => rw [hnext]
  rw [acceptRun, hpass, backup_next]

theorem length_ahead_acceptRun_le (p : Char → Bool) (c : Cursor) :
    (c.acceptRun p).ahead.length ≤ c.ahead.length := by
  fun_induction passRun p c with
  | case1 c g d h hp ih =>
    rw [acceptRun_of_next h hp]
    have := length_ahead_lt_of_next h
    omega
  | case2 c g d h hp =>
    rw [acceptRun_eq_settled]
    · exact Nat.le_refl _
    · intro g' hg'
      simp [h] at hg'
      simpa [← hg'] using hp
  | case3 c d h =>
    rw [acceptRun_eq_settled]
    · exact Nat.le_refl _
    · intro g' hg'
      simp [h] at hg'

/-- A run that starts with a unit of the class makes progress. -/
theorem length_ahead_acceptRun_lt {p : Char → Bool} {c : Cursor} {g : Glyph}
    (h : c.next.1 = some g) (hp : p g.toChar = true) :
    (c.acceptRun p).ahead.length < c.ahead.length := by
  rw [acceptRun_of_next (d := c.next.2) (Prod.ext h rfl) hp]
  have := length_ahead_acceptRun_le p c.next.2
  have := length_ahead_next_lt h
  omega

end Cursor
end Reckon
