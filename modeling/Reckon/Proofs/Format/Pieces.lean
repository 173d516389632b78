import Reckon.Format.Template

/-!
# The pieces of a format string

A format string is a sequence of *pieces*: bytes that are copied, and directives.  Where a directive
ends does not depend on what has become of the operand before it.  So the pieces are told from the
format string alone, and the output is what they write, one after the other, followed by the report of
an operand that is left over.
-/

namespace Reckon
namespace Format

/-! ## Openings in different states -/

/-- Whatever the state is, there is no operand number and nothing happens, or the operand is picked and
the same is read. -/
theorem takeIndex_cases (s : Bytes) :
    (∀ state, takeIndex state s = (state, s, false)) ∨
      ∃ out, ∀ state, (takeIndex state s).2 = out ∧ (takeIndex state s).1.picked = true := by
  unfold takeIndex
  split
  next rest =>
    refine Or.inr ?_
    dsimp only
    split
    · exact ⟨_, fun state => ⟨rfl, rfl⟩⟩
    · split
      · exact ⟨_, fun state => ⟨rfl, rfl⟩⟩
      · split
        all_goals exact ⟨_, fun state => ⟨rfl, rfl⟩⟩
  · exact Or.inl fun state => rfl

/-- An opening that was read in a state, compared with one that was read from the same text with the
operand unused and not picked.  They differ in the state only; and unless the operand is picked, the
number of the operand is valid, it is used up if either the state or the opening has used it, and an
opening that has not used it has written nothing. -/
structure Opening.Follows (state : State) (o fresh : Opening) : Prop where
  spec_eq : o.spec = fresh.spec
  written_eq : o.written = fresh.written
  indexed_eq : o.indexed = fresh.indexed
  rest_eq : o.rest = fresh.rest
  picked_eq : o.state.picked = (state.picked || fresh.state.picked)
  unpicked : fresh.state.picked = false →
    o.state.valid = true ∧ o.state.unused = (state.unused && fresh.state.unused) ∧
      fresh.indexed = false ∧ (fresh.state.unused = true → fresh.written = [])

theorem follows_startOpening (state : State) (s : Bytes) :
    (startOpening state s).Follows state (startOpening {} s) := by
  unfold startOpening
  rcases takeIndex_cases (takeFlags {} s).2 with hnone | ⟨out, hpick⟩
  · simp only [hnone]
    exact ⟨rfl, rfl, rfl, rfl, by simp, by simp⟩
  · obtain ⟨hout, hpicked⟩ := hpick { state with valid := true }
    obtain ⟨hout', hpicked'⟩ := hpick {}
    refine ⟨rfl, rfl, ?_, ?_, ?_, ?_⟩ <;> simp [hout, hout', hpicked, hpicked']

namespace Opening.Follows

variable {state : State} {o fresh : Opening}

theorem takeWidth (h : o.Follows state fresh) :
    (takeWidth o).Follows state (takeWidth fresh) := by
  unfold Format.takeWidth
  rw [h.rest_eq]
  split
  · exact ⟨h.spec_eq, by rw [h.written_eq], rfl, rfl, h.picked_eq,
      fun hp => ⟨(h.unpicked hp).1, by simp, rfl, by simp⟩⟩
  · refine ⟨by rw [h.spec_eq], h.written_eq, h.indexed_eq, rfl, h.picked_eq, fun hp => ?_⟩
    obtain ⟨hvalid, hunused, hindexed, hwritten⟩ := h.unpicked hp
    exact ⟨by simp [hvalid, h.indexed_eq, hindexed], hunused, hindexed, hwritten⟩

theorem takePrecision (h : o.Follows state fresh) :
    (takePrecision o).Follows state (takePrecision fresh) := by
  unfold Format.takePrecision
  rw [h.rest_eq]
  split
  next s _ =>
    rcases takeIndex_cases s with hnone | ⟨⟨rest, indexed⟩, hpick⟩
    · -- The state is as it was but for a number in front of the point, which is not valid there.
      simp only [hnone]
      split
      · exact ⟨h.spec_eq, by rw [h.written_eq], rfl, rfl, h.picked_eq,
          fun hp => ⟨by simp [(h.unpicked hp).1, h.indexed_eq, (h.unpicked hp).2.2.1], by simp, rfl,
            by simp⟩⟩
      · refine ⟨by rw [h.spec_eq], h.written_eq, rfl, rfl, h.picked_eq, fun hp => ?_⟩
        obtain ⟨hvalid, hunused, hindexed, hwritten⟩ := h.unpicked hp
        exact ⟨by simp [hvalid, h.indexed_eq, hindexed], hunused, rfl, hwritten⟩
    · obtain ⟨hout, hpicked⟩ := hpick { o.state with valid := o.state.valid && !o.indexed }
      obtain ⟨hout', hpicked'⟩ :=
        hpick { fresh.state with valid := fresh.state.valid && !fresh.indexed }
      simp only [hout, hout']
      split
      · refine ⟨h.spec_eq, by rw [h.written_eq], rfl, rfl, ?_, ?_⟩ <;> simp [hpicked, hpicked']
      · refine ⟨by rw [h.spec_eq], h.written_eq, rfl, rfl, ?_, ?_⟩ <;> simp [hpicked, hpicked']
  · exact h

theorem endOpening (h : o.Follows state fresh) :
    (endOpening o).Follows state (endOpening fresh) := by
  unfold Format.endOpening
  rw [h.indexed_eq, h.rest_eq]
  split
  · exact h
  next hindexed =>
    rcases takeIndex_cases fresh.rest with hnone | ⟨out, hpick⟩
    · simp only [hnone]
      refine ⟨h.spec_eq, h.written_eq, rfl, rfl, h.picked_eq, fun hp => ?_⟩
      obtain ⟨hvalid, hunused, -, hwritten⟩ := h.unpicked hp
      exact ⟨hvalid, hunused, rfl, hwritten⟩
    · obtain ⟨hout, hpicked⟩ := hpick o.state
      obtain ⟨hout', hpicked'⟩ := hpick fresh.state
      refine ⟨h.spec_eq, h.written_eq, ?_, ?_, ?_, ?_⟩ <;> simp [hout, hout', hpicked, hpicked']

end Opening.Follows

/-- A directive is read in the same way in every state. -/
theorem follows_takeOpening (state : State) (s : Bytes) :
    (takeOpening state s).Follows state (takeOpening {} s) :=
  (follows_startOpening state s).takeWidth.takePrecision.endOpening

/-! ## Pieces -/

/-- The verb of a directive that is read from the front of a text, unless the text ends before it. -/
def verb? (tail : Bytes) : Option Char :=
  match (takeOpening {} tail).rest with
  | [] => none
  | c :: after => some (Utf8.front c after).1.toChar

/-- What stands behind the directive that is read from the front of a text. -/
def behind (tail : Bytes) : Bytes :=
  match (takeOpening {} tail).rest with
  | [] => []
  | c :: after => (Utf8.front c after).2

theorem length_behind_le (tail : Bytes) : (behind tail).length ≤ tail.length := by
  have hopening := length_takeOpening_le {} tail
  unfold behind
  split
  · exact Nat.zero_le _
  next c after hrest =>
    have hfront := Utf8.length_front_le c after
    rw [hrest, List.length_cons] at hopening
    omega

theorem verb?_of_nil {state : State} {s : Bytes} (h : (takeOpening state s).rest = []) :
    verb? s = none ∧ behind s = [] := by
  rw [(follows_takeOpening state s).rest_eq] at h
  simp only [verb?, behind, h, and_self]

theorem verb?_of_cons {state : State} {s : Bytes} {c : UInt8} {after : Bytes}
    (h : (takeOpening state s).rest = c :: after) :
    verb? s = some (Utf8.front c after).1.toChar ∧ behind s = (Utf8.front c after).2 := by
  rw [(follows_takeOpening state s).rest_eq] at h
  simp only [verb?, behind, h, and_self]

/-- A piece of a format string: a byte that is copied, or a directive, given with all that follows its
percent sign. -/
inductive Piece where
  | byte (b : UInt8)
  | directive (tail : Bytes)
  deriving DecidableEq, Repr

/-- The pieces of a format string. -/
def pieces : Bytes → List Piece
  | [] => []
  | b :: s => if b = 0x25 then .directive s :: pieces (behind s) else .byte b :: pieces s
termination_by s => s.length
decreasing_by
  · have := length_behind_le s
    simp only [List.length_cons]
    omega
  · simp

/-- A format string with a percent sign has a directive. -/
theorem exists_directive_of_mem {s : Bytes} (h : 0x25 ∈ s) : ∃ tail, .directive tail ∈ pieces s := by
  fun_induction pieces s with
  | case1 => cases h
  | case2 s ih => exact ⟨s, List.mem_cons_self⟩
  | case3 b s hb ih =>
    have hmem : (0x25 : UInt8) ∈ s := by simpa [Ne.symm hb] using h
    obtain ⟨tail, htail⟩ := ih hmem
    exact ⟨tail, List.mem_cons_of_mem _ htail⟩

/-- What a piece writes in a state, and the state behind it. -/
def Piece.write (v : Operand) (state : State) : Piece → Bytes × State
  | .byte b => ([b], state)
  | .directive tail =>
    let o := takeOpening state tail
    match verb? tail with
    | none => (o.written ++ "%!(NOVERB)", o.state)
    | some verb =>
      let (text, state) := applyVerb v o.state o.spec verb
      (o.written ++ text, state)

/-- What some pieces write one after the other, and the state behind them. -/
def writeAll (v : Operand) (state : State) : List Piece → Bytes × State
  | [] => ([], state)
  | p :: ps =>
    let (text, state) := p.write v state
    let (rest, state) := writeAll v state ps
    (text ++ rest, state)

theorem writeAll_cons (v : Operand) (state : State) (p : Piece) (ps : List Piece) :
    writeAll v state (p :: ps) =
      ((p.write v state).1 ++ (writeAll v (p.write v state).2 ps).1,
        (writeAll v (p.write v state).2 ps).2) := rfl

theorem writeAll_append (v : Operand) (state : State) (ps qs : List Piece) :
    writeAll v state (ps ++ qs) =
      ((writeAll v state ps).1 ++ (writeAll v (writeAll v state ps).2 qs).1,
        (writeAll v (writeAll v state ps).2 qs).2) := by
  induction ps generalizing state with
  | nil => rfl
  | cons p ps ih => simp only [List.cons_append, writeAll_cons, ih, List.append_assoc]

/-- The rest of a format string writes what its pieces write, and the report of an operand that is left
over. -/
theorem fillFrom_eq (v : Operand) (state : State) (done s : Bytes) :
    fillFrom v state done s =
      done.reverse ++ (writeAll v state (pieces s)).1 ++
        closing v (writeAll v state (pieces s)).2 := by
  fun_induction fillFrom v state done s with
  | case1 state done => simp [pieces, writeAll]
  | case2 state done s o hrest =>
    obtain ⟨hverb, hbehind⟩ := verb?_of_nil hrest
    have hpieces : pieces (0x25 :: s) = [.directive s] := by
      rw [pieces, if_pos rfl, hbehind, pieces]
    simp [hpieces, writeAll, Piece.write, hverb, o]
  | case3 state done s o c after hrest text state' happly ih =>
    obtain ⟨hverb, hbehind⟩ := verb?_of_cons hrest
    have hpieces : pieces (0x25 :: s) = .directive s :: pieces (Utf8.front c after).2 := by
      rw [pieces, if_pos rfl, hbehind]
    have hwrite : (Piece.directive s).write v state = (o.written ++ text, state') := by
      simp only [Piece.write, hverb, happly, o]
    rw [ih, hpieces, writeAll_cons, hwrite]
    simp
  | case4 state done b s hb ih =>
    have hpieces : pieces (b :: s) = .byte b :: pieces s := by rw [pieces, if_neg hb]
    rw [ih, hpieces, writeAll_cons]
    simp [Piece.write]

/-- The output of a format string is what its pieces write, and the report of an operand that is left
over. -/
theorem fill_eq (template : Bytes) (v : Operand) :
    fill template v =
      (writeAll v {} (pieces template)).1 ++ closing v (writeAll v {} (pieces template)).2 :=
  fillFrom_eq v {} [] template

end Format
end Reckon
