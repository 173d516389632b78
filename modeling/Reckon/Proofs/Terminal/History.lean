import Reckon.Proofs.Session.Leaving
import Reckon.Proofs.Text.Trimming
import Reckon.Terminal.Screen
import Mathlib.Data.List.DropRight

/-!
# The history of a terminal session

The history on the screen is a window on a longer list: the outcomes of all lines that were entered
since the history was last cleared, blank lines and those that ask to leave apart.  It shows the last
ones, as many as are kept, the oldest first.

The lines that were entered are told from the events alone.  Only the line editor decides what a line is
when the enter key is pressed; neither the history nor the wish to leave has a part in it.
-/

namespace Reckon
namespace Terminal

/-! ## The lines that were entered -/

/-- The line after an event. -/
def LineEditor.react (line : LineEditor) : Event → LineEditor
  | .text cs => line.type cs
  | .edit k => line.press k
  | .replace other => other
  | .enter _ => .empty
  | .leave | .clear | .resize => line

/-- The line after events. -/
def lineAfter (events : List Event) : LineEditor :=
  events.foldl LineEditor.react .empty

/-- The line that an event sends off, if it does. -/
def LineEditor.sent (line : LineEditor) : Event → List Line
  | .enter location => [⟨line.value, location⟩]
  | _ => []

/-- The lines that are entered during events. -/
def entered (line : LineEditor) : List Event → List Line
  | [] => []
  | e :: events => line.sent e ++ entered (line.react e) events

/-- Whether a line is evaluated: there is more in it than white space, and that is no word for
leaving. -/
def IsExpression (l : Line) : Prop :=
  trimBlank l.raw ≠ [] ∧ ¬ Session.SpellsLeaving (trimBlank l.raw)

instance (l : Line) : Decidable (IsExpression l) :=
  inferInstanceAs (Decidable (_ ∧ _))

/-- The lines that were entered since the history was last cleared and are evaluated. -/
def expressions (events : List Event) : List Line :=
  (entered (lineAfter (events.rdropWhile (· != .clear))) (events.rtakeWhile (· != .clear))).filter
    fun l => IsExpression l

/-- Whether an event behind others asks to leave. -/
def AsksToLeave (before : List Event) (e : Event) : Prop :=
  e = .leave ∨
    ∃ location, e = .enter location ∧ Session.SpellsLeaving (trimBlank (lineAfter before).value)

theorem lineAfter_concat (events : List Event) (e : Event) :
    lineAfter (events ++ [e]) = (lineAfter events).react e := by
  simp [lineAfter]

theorem entered_concat (line : LineEditor) (events : List Event) (e : Event) :
    entered line (events ++ [e]) =
      entered line events ++ (events.foldl LineEditor.react line).sent e := by
  induction events generalizing line with
  | nil => simp [entered]
  | cons e' events ih => simp [entered, ih]

theorem expressions_concat_clear (events : List Event) : expressions (events ++ [.clear]) = [] := by
  simp [expressions, List.rtakeWhile_concat_neg, entered]

theorem rdropWhile_append_rtakeWhile (p : Event → Bool) (events : List Event) :
    events.rdropWhile p ++ events.rtakeWhile p = events := by
  rw [List.rdropWhile, List.rtakeWhile, ← List.reverse_append, List.takeWhile_append_dropWhile,
    List.reverse_reverse]

theorem expressions_concat
    {e : Event} (he : e ≠ .clear) (events : List Event) :
    expressions (events ++ [e]) =
      expressions events ++ ((lineAfter events).sent e).filter fun l => IsExpression l := by
  have hkeep : (e != .clear) = true := by simpa using he
  have hline : (events.rtakeWhile (· != .clear)).foldl LineEditor.react
      (lineAfter (events.rdropWhile (· != .clear))) = lineAfter events := by
    rw [lineAfter, ← List.foldl_append, rdropWhile_append_rtakeWhile]
    rfl
  rw [expressions, List.rdropWhile_concat_pos (fun x => x != .clear) events e hkeep,
    List.rtakeWhile_concat_pos (fun x => x != .clear) events e hkeep, entered_concat,
    List.filter_append, hline]
  rfl

/-! ## The window -/

/-- Adding an entry to a window and cutting it again is the window of the longer list. -/
theorem drop_rtake_concat {α : Type} (n : Nat) (xs : List α) (x : α) :
    (xs.rtake n ++ [x]).drop ((xs.rtake n ++ [x]).length - n) = (xs ++ [x]).rtake n := by
  simp only [List.rtake, List.length_append, List.length_singleton, List.length_drop,
    List.drop_append, List.drop_drop]
  congr 2 <;> omega

/-! ## Every run -/

namespace Screen

/-- The outcome of a line, which is evaluated without the white space at its ends. -/
def outcome (s : Session) (fraction : Binary.FractionalPower) (l : Line) : Outcome :=
  s.evaluate (trimBlank l.raw) fraction l.location

/-- What is on a screen after events. -/
structure Shows (s : Session) (fraction : Binary.FractionalPower) (events : List Event)
    (screen : Screen) : Prop where
  session_eq : screen.session = s
  line_eq : screen.line = lineAfter events
  history_eq : screen.history = ((expressions events).map (outcome s fraction)).rtake maxHistory
  quitting_iff : screen.quitting = true ↔
    ∃ before e after, events = before ++ e :: after ∧ AsksToLeave before e

/-- The last event of a list asks to leave, or an earlier one does. -/
theorem exists_asksToLeave_concat (events : List Event) (e : Event) :
    (∃ before e' after, events ++ [e] = before ++ e' :: after ∧ AsksToLeave before e') ↔
      (∃ before e' after, events = before ++ e' :: after ∧ AsksToLeave before e') ∨
        AsksToLeave events e := by
  constructor
  · rintro ⟨before, e', after, heq, hleave⟩
    rcases List.eq_nil_or_concat after with rfl | ⟨after, last, rfl⟩
    · obtain ⟨rfl, hlast⟩ := List.append_inj' heq rfl
      cases hlast
      exact Or.inr hleave
    · rw [List.concat_eq_append, ← List.cons_append, ← List.append_assoc] at heq
      obtain ⟨rfl, -⟩ := List.append_inj' heq rfl
      exact Or.inl ⟨before, e', after, rfl, hleave⟩
  · rintro (⟨before, e', after, rfl, hleave⟩ | hleave)
    · exact ⟨before, e', after ++ [e], by simp, hleave⟩
    · exact ⟨events, e, [], rfl, hleave⟩

theorem shows_start (s : Session) (fraction : Binary.FractionalPower) :
    Shows s fraction [] (start s) := by
  refine ⟨rfl, rfl, rfl, ?_⟩
  simp [start]

variable {s : Session} {fraction : Binary.FractionalPower} {events : List Event} {screen : Screen}

theorem Shows.next
    (h : Shows s fraction events screen) {e : Event} {screen' : Screen}
    (hsession : screen'.session = screen.session) (hline : screen'.line = screen.line.react e)
    (hhistory : screen'.history =
      ((expressions (events ++ [e])).map (outcome s fraction)).rtake maxHistory)
    (hquitting : screen'.quitting = true ↔ screen.quitting = true ∨ AsksToLeave events e) :
    Shows s fraction (events ++ [e]) screen' := by
  refine ⟨hsession.trans h.session_eq, ?_, hhistory, ?_⟩
  · rw [hline, h.line_eq, lineAfter_concat]
  · rw [hquitting, h.quitting_iff, exists_asksToLeave_concat]

/-- The history stays when no expression is entered and nothing is cleared. -/
theorem Shows.history_concat
    (h : Shows s fraction events screen) {e : Event} (hclear : e ≠ .clear)
    (hnone : ∀ l ∈ screen.line.sent e, ¬ IsExpression l) :
    screen.history = ((expressions (events ++ [e])).map (outcome s fraction)).rtake maxHistory := by
  rw [h.line_eq] at hnone
  have hfilter : ((lineAfter events).sent e).filter (fun l => IsExpression l) = [] := by
    simpa using hnone
  rw [h.history_eq, expressions_concat hclear, hfilter, List.append_nil]

/-- Entering a line adds its outcome to the window, if the line is evaluated. -/
theorem Shows.submit (h : Shows s fraction events screen) (location : UInt64) :
    Shows s fraction (events ++ [.enter location]) (screen.submit fraction location) := by
  have hclear : Event.enter location ≠ .clear := by simp
  have hleave : AsksToLeave events (.enter location) ↔
      Session.SpellsLeaving (trimBlank screen.line.value) := by
    simp [AsksToLeave, h.line_eq]
  rw [← Session.isExit_iff] at hleave
  have hexpression : IsExpression ⟨screen.line.value, location⟩ ↔
      trimBlank screen.line.value ≠ [] ∧ Session.isExit (trimBlank screen.line.value) = false := by
    rw [IsExpression, ← Session.isExit_iff, Bool.not_eq_true]
  unfold Screen.submit
  by_cases hblank : trimBlank screen.line.value = []
  · have hstay : Session.isExit [] = false := by decide +kernel
    simp only [hblank, List.isEmpty_nil, ↓reduceIte]
    refine h.next rfl rfl (h.history_concat hclear ?_) ?_
    · simp [LineEditor.sent, hexpression, hblank]
    · simp [hleave, hblank, hstay]
  · have hkept : (trimBlank screen.line.value).isEmpty = false := by simpa using hblank
    cases hexit : Session.isExit (trimBlank screen.line.value) with
    | true =>
      simp only [hkept, hexit, Bool.false_eq_true, ↓reduceIte]
      refine h.next rfl rfl (h.history_concat hclear ?_) ?_
      · simp [LineEditor.sent, hexpression, hexit]
      · simp [hleave, hexit]
    | false =>
      simp only [hkept, hexit, Bool.false_eq_true, ↓reduceIte]
      refine h.next rfl rfl ?_ ?_
      · have hadded : expressions (events ++ [.enter location]) =
            expressions events ++ [⟨screen.line.value, location⟩] := by
          have hkeeps : IsExpression ⟨screen.line.value, location⟩ := hexpression.mpr ⟨hblank, hexit⟩
          rw [expressions_concat hclear, ← h.line_eq]
          simp [LineEditor.sent, hkeeps]
        rw [hadded, List.map_append, List.map_singleton, ← drop_rtake_concat, ← h.history_eq,
          ← h.session_eq]
        rfl
      · simp [remember, hleave, hexit]

theorem Shows.update (h : Shows s fraction events screen) (e : Event) :
    Shows s fraction (events ++ [e]) (screen.update e fraction) := by
  cases e with
  | enter location => exact h.submit location
  | clear =>
    refine h.next rfl rfl ?_ ?_
    · rw [expressions_concat_clear]
      rfl
    · simp [Screen.update, AsksToLeave]
  | leave | text | edit | replace | resize =>
    refine h.next rfl rfl (h.history_concat (by simp) (List.forall_mem_nil _)) ?_
    simp [Screen.update, AsksToLeave]

theorem shows_run (s : Session) (fraction : Binary.FractionalPower) (events : List Event) :
    Shows s fraction events ((start s).run events fraction) := by
  induction events using List.reverseRecOn with
  | nil => exact shows_start s fraction
  | append_singleton events e ih =>
    rw [run, List.foldl_append]
    exact ih.update e

/-- After any events, the history is the last outcomes, at most as many as are kept, of the lines that
were entered since the history was last cleared and that are neither blank nor ask to leave.  The line
is empty whenever one was just entered.  A screen is left from the first event on that asks for it, and
then it stays empty. -/
theorem run_shows_history
    (s : Session) (fraction : Binary.FractionalPower) (events : List Event) :
    let screen := (start s).run events fraction
    let outcomes := (expressions events).map fun l =>
      s.evaluate (trimBlank l.raw) fraction l.location
    screen.history = outcomes.drop (outcomes.length - 100) ∧
      screen.history.length = min outcomes.length 100 ∧
      (∀ location, ((start s).run (events ++ [.enter location]) fraction).line.value = []) ∧
      (screen.quitting = true ↔
        ∃ before e after, events = before ++ e :: after ∧ AsksToLeave before e) ∧
      (screen.quitting = true → screen.view = []) := by
  intro screen outcomes
  have hshows := shows_run s fraction events
  refine ⟨hshows.history_eq, ?_, ?_, hshows.quitting_iff, ?_⟩
  · have hhistory : screen.history = outcomes.rtake maxHistory := hshows.history_eq
    rw [hhistory, List.rtake, List.length_drop]
    show outcomes.length - (outcomes.length - 100) = min outcomes.length 100
    omega
  · intro location
    have hentered := (shows_run s fraction (events ++ [.enter location])).line_eq
    rw [hentered, lineAfter_concat]
    rfl
  · intro hquitting
    rw [view, hquitting, if_pos rfl]

end Screen
end Terminal
end Reckon
