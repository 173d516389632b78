import Reckon.Proofs.Format.Pieces
import Reckon.Proofs.Text.Encoding

/-!
# What becomes of the operand

A piece of a format string is *idle* if it has no use for the operand: it is a byte, a percent sign that
is written as such, or a directive that ends before its verb.  An operand is reported as left over
exactly if all pieces are idle.

A piece that names the operand by number, or takes it as a width or a precision, is a special case.  If
there are no such pieces, the first one that is not idle shows the operand, and the others after it
report that it is missing.
-/

namespace Reckon
namespace Format

/-- The report of an operand that is left over. -/
def leftOverReport (v : Operand) : Bytes :=
  "%!(EXTRA " ++ v.typeName ++ "=" ++ v.general {} ++ ")"

namespace Piece

/-- Whether a piece names the operand by number. -/
def picks : Piece → Bool
  | .byte _ => false
  | .directive tail => (takeOpening {} tail).state.picked

/-- Whether a piece takes the operand as a width or a precision. -/
def takes : Piece → Bool
  | .byte _ => false
  | .directive tail => !(takeOpening {} tail).state.unused

/-- Whether a piece leaves the operand to its verb, if there is one. -/
def isPlain (p : Piece) : Bool :=
  !p.picks && !p.takes

/-- The flags, width and precision and the verb by which a piece asks for the operand.  A percent sign
asks for nothing. -/
def asks? : Piece → Option (Spec × Char)
  | .byte _ => none
  | .directive tail =>
    match verb? tail with
    | none => none
    | some verb => if verb = '%' then none else some ((takeOpening {} tail).spec, verb)

/-- Whether a piece has no use for the operand. -/
def isIdle (p : Piece) : Bool :=
  p.isPlain && p.asks?.isNone

/-- What a piece writes that does not get the operand. -/
def unserved : Piece → Bytes
  | .byte b => [b]
  | .directive tail =>
    match verb? tail with
    | none => "%!(NOVERB)"
    | some verb => if verb = '%' then "%" else "%!" ++ Utf8.encode verb ++ "(MISSING)"

variable {p : Piece} {state : State} {tail : Bytes}

/-- The opening of a plain directive writes nothing and leaves the operand as it is. -/
theorem takeOpening_of_isPlain (h : (directive tail).isPlain = true) (state : State) :
    (takeOpening state tail).state = { state with valid := true } ∧
      (takeOpening state tail).written = [] ∧
      (takeOpening state tail).spec = (takeOpening {} tail).spec := by
  have hfollows := follows_takeOpening state tail
  simp only [isPlain, picks, takes, Bool.and_eq_true, Bool.not_eq_true', Bool.not_eq_false'] at h
  obtain ⟨hvalid, hunused, -, hwritten⟩ := hfollows.unpicked h.1
  have hpicked := hfollows.picked_eq
  rw [h.1, Bool.or_false] at hpicked
  rw [h.2, Bool.and_true] at hunused
  refine ⟨?_, hfollows.written_eq.trans (hwritten h.2), hfollows.spec_eq⟩
  rw [← hvalid, ← hunused, ← hpicked]

/-- A plain piece that does not ask for the operand, or comes when it has been used, writes the same for
every operand. -/
theorem write_of_unserved (h : p.isPlain = true) (hunserved : p.asks? = none ∨ state.unused = false)
    (v : Operand) :
    (p.write v state).1 = p.unserved ∧ (p.write v state).2.unused = state.unused := by
  cases p with
  | byte b => exact ⟨rfl, rfl⟩
  | directive tail =>
    obtain ⟨hstate, hwritten, -⟩ := takeOpening_of_isPlain h state
    simp only [write, hstate, hwritten, unserved]
    cases hverb : verb? tail with
    | none => simp
    | some verb =>
      by_cases hpercent : verb = '%'
      · simp [applyVerb, hpercent]
      · have hunused : state.unused = false := by simpa [asks?, hverb, hpercent] using hunserved
        simp [applyVerb, hpercent, hunused]

/-- A plain piece that asks for an operand that is unused shows it, and uses it up. -/
theorem write_of_asks (h : p.isPlain = true) {spec : Spec} {verb : Char}
    (hasks : p.asks? = some (spec, verb)) (hunused : state.unused = true) (v : Operand) :
    (p.write v state).1 = v.format spec verb ∧ (p.write v state).2.unused = false := by
  cases p with
  | byte b => cases hasks
  | directive tail =>
    obtain ⟨hstate, hwritten, hspec⟩ := takeOpening_of_isPlain h state
    simp only [asks?] at hasks
    simp only [write, hstate, hwritten, hspec]
    cases hverb : verb? tail with
    | none => simp [hverb] at hasks
    | some c =>
      by_cases hpercent : c = '%'
      · simp [hverb, hpercent] at hasks
      · simp only [hverb, hpercent, if_false, Option.some.injEq, Prod.mk.injEq] at hasks
        obtain ⟨rfl, rfl⟩ := hasks
        simp [applyVerb, hpercent, hunused]

end Piece

/-! ## The report -/

/-- Whether the operand is reported as left over if nothing follows. -/
def State.isLeftOver (state : State) : Bool :=
  state.unused && !state.picked

theorem closing_eq (v : Operand) (state : State) :
    closing v state = if state.isLeftOver then leftOverReport v else [] := rfl

theorem picked_applyVerb (v : Operand) (state : State) (spec : Spec) (verb : Char) :
    (applyVerb v state spec verb).2.picked = state.picked := by
  unfold applyVerb
  repeat' split
  all_goals rfl

/-- A verb leaves the operand over if it asks for nothing or cannot get it. -/
theorem isLeftOver_applyVerb (v : Operand) (state : State) (spec : Spec) (verb : Char) :
    (applyVerb v state spec verb).2.isLeftOver =
      (state.isLeftOver && (verb = '%' || !state.valid)) := by
  unfold applyVerb
  by_cases hpercent : verb = '%'
  · simp [hpercent]
  · cases hvalid : state.valid
    · simp [hpercent]
    · cases hunused : state.unused <;> simp [hpercent, State.isLeftOver, hunused]

namespace Piece

/-- The opening of a directive leaves the operand over exactly if the directive is plain. -/
theorem isLeftOver_takeOpening (state : State) (tail : Bytes) :
    (takeOpening state tail).state.isLeftOver =
      (state.isLeftOver && (directive tail).isPlain) := by
  have hfollows := follows_takeOpening state tail
  cases hpicks : (takeOpening {} tail).state.picked
  · obtain ⟨-, hunused, -, -⟩ := hfollows.unpicked hpicks
    cases hstate : state.unused <;>
      simp [State.isLeftOver, isPlain, picks, takes, hunused, hfollows.picked_eq, hpicks, hstate,
        Bool.and_comm]
  · simp [State.isLeftOver, isPlain, picks, hfollows.picked_eq, hpicks]

/-- Once an operand has been named by number, it stays so. -/
theorem picked_write (p : Piece) (v : Operand) (state : State) :
    (p.write v state).2.picked = (state.picked || p.picks) := by
  cases p with
  | byte b => simp [write, picks]
  | directive tail =>
    have hopening := (follows_takeOpening state tail).picked_eq
    simp only [write, picks]
    cases verb? tail with
    | none => exact hopening
    | some verb => simp only [picked_applyVerb, hopening]

/-- A piece leaves the operand over exactly if it is idle. -/
theorem isLeftOver_write (p : Piece) (v : Operand) (state : State) :
    (p.write v state).2.isLeftOver = (state.isLeftOver && p.isIdle) := by
  cases p with
  | byte b => simp [write, isIdle, isPlain, picks, takes, asks?]
  | directive tail =>
    have hopening := isLeftOver_takeOpening state tail
    cases hplain : (directive tail).isPlain
    · -- The verb cannot undo what the opening did.
      rw [hplain, Bool.and_false] at hopening
      simp only [write, isIdle, hplain, Bool.false_and, Bool.and_false]
      cases verb? tail with
      | none => exact hopening
      | some verb => simp only [isLeftOver_applyVerb, hopening, Bool.false_and]
    · obtain ⟨hstate, -, -⟩ := takeOpening_of_isPlain hplain state
      rw [hplain, Bool.and_true] at hopening
      simp only [write, isIdle, hplain, Bool.true_and, asks?]
      cases verb? tail with
      | none => simpa using hopening
      | some verb =>
        have hvalid : (takeOpening state tail).state.valid = true := by rw [hstate]
        by_cases hpercent : verb = '%' <;>
          simp [isLeftOver_applyVerb, hopening, hvalid, hpercent]

end Piece

variable {ps : List Piece} {state : State}

/-- Pieces leave the operand over exactly if all of them are idle. -/
theorem isLeftOver_writeAll (v : Operand) (state : State) (ps : List Piece) :
    (writeAll v state ps).2.isLeftOver = (state.isLeftOver && ps.all Piece.isIdle) := by
  induction ps generalizing state with
  | nil => simp [writeAll]
  | cons p ps ih => rw [writeAll_cons, ih, Piece.isLeftOver_write, List.all_cons, Bool.and_assoc]

theorem picked_writeAll (v : Operand) (state : State) (ps : List Piece) :
    (writeAll v state ps).2.picked = (state.picked || ps.any Piece.picks) := by
  induction ps generalizing state with
  | nil => simp [writeAll]
  | cons p ps ih => rw [writeAll_cons, ih, Piece.picked_write, List.any_cons, Bool.or_assoc]

/-- Pieces that are not all idle use the operand up, unless one of them names it by number. -/
theorem unused_writeAll (hidle : ps.all Piece.isIdle = false) (hpicks : ps.any Piece.picks = false)
    (v : Operand) : (writeAll v {} ps).2.unused = false := by
  have hover := isLeftOver_writeAll v {} ps
  rw [hidle, Bool.and_false] at hover
  simpa [State.isLeftOver, picked_writeAll, hpicks] using hover

/-- The output of a format string ends with the report of an operand that is left over exactly if all
its pieces are idle. -/
theorem fill_eq_report (template : Bytes) (v : Operand) :
    fill template v =
      (writeAll v {} (pieces template)).1 ++
        if (pieces template).all Piece.isIdle then leftOverReport v else [] := by
  rw [fill_eq, closing_eq, isLeftOver_writeAll]
  rfl

/-! ## Plain pieces -/

/-- Pieces that do not ask for the operand, or come when it has been used, write the same for every
operand. -/
theorem writeAll_of_unserved (state : State) (hplain : ∀ p ∈ ps, p.isPlain = true)
    (hunserved : (∀ p ∈ ps, p.asks? = none) ∨ state.unused = false) (v : Operand) :
    (writeAll v state ps).1 = ps.flatMap Piece.unserved ∧
      (writeAll v state ps).2.unused = state.unused := by
  induction ps generalizing state with
  | nil => exact ⟨rfl, rfl⟩
  | cons p ps ih =>
    rw [List.forall_mem_cons] at hplain hunserved
    obtain ⟨htext, hunused⟩ :=
      Piece.write_of_unserved hplain.1 (hunserved.imp_left And.left) v
    obtain ⟨hrest, hkept⟩ := ih _ hplain.2 (by rw [hunused]; exact hunserved.imp_left And.right)
    rw [writeAll_cons, List.flatMap_cons]
    exact ⟨by rw [htext, hrest], hkept.trans hunused⟩

/-- Idle pieces write the same for every operand. -/
theorem writeAll_of_isIdle (hidle : ps.all Piece.isIdle = true) (v : Operand) :
    (writeAll v state ps).1 = ps.flatMap Piece.unserved := by
  have hboth : ∀ p ∈ ps, p.isPlain = true ∧ p.asks? = none := by
    simpa [Piece.isIdle] using hidle
  have hplain : ∀ p ∈ ps, p.isPlain = true := fun p hp => (hboth p hp).1
  have hasks : ∀ p ∈ ps, p.asks? = none := fun p hp => (hboth p hp).2
  exact (writeAll_of_unserved state hplain (.inl hasks) v).1

/-- Among plain pieces that are not all idle, the first one that is not shows the operand.  What the
others write is the same for every operand. -/
theorem exists_writeAll_eq (hplain : ∀ p ∈ ps, p.isPlain = true)
    (hasks : ps.all Piece.isIdle = false) (v : Operand) :
    ∃ front p back spec verb, ps = front ++ p :: back ∧ front.all Piece.isIdle = true ∧
      p.asks? = some (spec, verb) ∧
      (writeAll v {} ps).1 =
        front.flatMap Piece.unserved ++ v.format spec verb ++ back.flatMap Piece.unserved := by
  obtain ⟨p, hfirst⟩ : ∃ p, ps.find? (!·.isIdle) = some p := by
    rw [← Option.isSome_iff_exists, List.find?_isSome]
    simpa using hasks
  obtain ⟨hp, front, back, rfl, hfront⟩ := List.find?_eq_some_iff_append.mp hfirst
  simp only [List.forall_mem_append, List.forall_mem_cons] at hplain
  obtain ⟨hplainFront, hplainPiece, hplainBack⟩ := hplain
  obtain ⟨⟨spec, verb⟩, hasked⟩ : ∃ asked, p.asks? = some asked := by
    rw [← Option.isSome_iff_exists]
    simpa [Piece.isIdle, hplainPiece, Option.isSome_iff_ne_none] using hp
  have hidle : ∀ q ∈ front, q.asks? = none := by
    intro q hq
    simpa [Piece.isIdle, hplainFront q hq] using hfront q hq
  refine ⟨front, p, back, spec, verb, rfl, by simpa using hfront, hasked, ?_⟩
  obtain ⟨hbefore, hunused⟩ := writeAll_of_unserved {} hplainFront (.inl hidle) v
  obtain ⟨hshown, hused⟩ := Piece.write_of_asks hplainPiece hasked hunused v
  obtain ⟨hafter, -⟩ := writeAll_of_unserved _ hplainBack (.inr hused) v
  rw [writeAll_append, writeAll_cons, hbefore, hshown, hafter, List.append_assoc]

/-! ## Format strings without brackets and stars -/

/-- A text has no bracket that could open the number of an operand, and no star that could stand for a
width or a precision. -/
def Ordinary (s : Bytes) : Prop :=
  0x5B ∉ s ∧ 0x2A ∉ s

instance (s : Bytes) : Decidable (Ordinary s) :=
  inferInstanceAs (Decidable (_ ∧ _))

theorem Ordinary.of_subset {s t : Bytes} (h : Ordinary s) (hsub : t ⊆ s) : Ordinary t :=
  ⟨fun hmem => h.1 (hsub hmem), fun hmem => h.2 (hsub hmem)⟩

theorem takeFlags_subset (spec : Spec) (s : Bytes) : (takeFlags spec s).2 ⊆ s := by
  fun_induction takeFlags spec s with
  | case1 => exact List.Subset.refl _
  | case7 => exact List.Subset.refl _
  | _ => exact List.subset_cons_of_subset _ ‹_›

theorem takeNumber_subset (read : Option Nat) (s : Bytes) : (takeNumber read s).2 ⊆ s := by
  fun_induction takeNumber read s with
  | case3 => exact List.subset_cons_of_subset _ ‹_›
  | case2 => exact List.nil_subset _
  | _ => exact List.Subset.refl _

theorem takeIndex_of_ordinary {s : Bytes} (h : Ordinary s) (state : State) :
    takeIndex state s = (state, s, false) := by
  unfold takeIndex
  split
  · exact absurd List.mem_cons_self h.1
  · rfl

/-- An opening has not touched the operand, and is read from an ordinary text. -/
structure Opening.Untouched (o : Opening) : Prop where
  picked_eq : o.state.picked = false
  unused_eq : o.state.unused = true
  ordinary : Ordinary o.rest

theorem untouched_startOpening {s : Bytes} (h : Ordinary s) : (startOpening {} s).Untouched := by
  have hrest := h.of_subset (takeFlags_subset {} s)
  simp only [startOpening, takeIndex_of_ordinary hrest]
  exact ⟨rfl, rfl, hrest⟩

namespace Opening.Untouched

variable {o : Opening}

theorem takeWidth (h : o.Untouched) : (takeWidth o).Untouched := by
  unfold Format.takeWidth
  split
  next hrest =>
    refine absurd ?_ h.ordinary.2
    rw [hrest]
    exact List.mem_cons_self
  · exact ⟨h.picked_eq, h.unused_eq, h.ordinary.of_subset (takeNumber_subset _ _)⟩

theorem takePrecision (h : o.Untouched) : (takePrecision o).Untouched := by
  unfold Format.takePrecision
  split
  next s hrest =>
    have hs : Ordinary s := by
      apply h.ordinary.of_subset
      rw [hrest]
      exact List.subset_cons_self _ _
    simp only [takeIndex_of_ordinary hs]
    split
    · exact absurd List.mem_cons_self hs.2
    · exact ⟨h.picked_eq, h.unused_eq, hs.of_subset (takeNumber_subset _ _)⟩
  · exact h

theorem endOpening (h : o.Untouched) : (endOpening o).Untouched := by
  unfold Format.endOpening
  split
  · exact h
  · rw [takeIndex_of_ordinary h.ordinary]
    exact ⟨h.picked_eq, h.unused_eq, h.ordinary⟩

end Opening.Untouched

theorem untouched_takeOpening {s : Bytes} (h : Ordinary s) : (takeOpening {} s).Untouched :=
  (untouched_startOpening h).takeWidth.takePrecision.endOpening

theorem Ordinary.behind {s : Bytes} (h : Ordinary s) : Ordinary (behind s) := by
  have hrest := (untouched_takeOpening h).ordinary
  unfold Format.behind
  split
  · exact ⟨List.not_mem_nil, List.not_mem_nil⟩
  next c after heq =>
    apply hrest.of_subset
    rw [heq, ← Utf8.bytes_front]
    exact List.subset_append_right _ _

/-- The pieces of an ordinary format string are plain. -/
theorem isPlain_of_ordinary {s : Bytes} (h : Ordinary s) : ∀ p ∈ pieces s, p.isPlain = true := by
  fun_induction pieces s with
  | case1 => exact List.forall_mem_nil _
  | case2 s ih =>
    have hs : Ordinary s := h.of_subset (List.subset_cons_self _ _)
    have hopening := untouched_takeOpening hs
    refine List.forall_mem_cons.mpr ⟨?_, ih hs.behind⟩
    simp [Piece.isPlain, Piece.picks, Piece.takes, hopening.picked_eq, hopening.unused_eq]
  | case3 b s hb ih =>
    exact List.forall_mem_cons.mpr ⟨rfl, ih (h.of_subset (List.subset_cons_self _ _))⟩

end Format
end Reckon
