import Reckon.Proofs.Format.Location
import Reckon.Proofs.Session.Leaving
import Reckon.Proofs.Text.Trimming
import Mathlib.Data.List.TakeWhile

/-!
# A session line by line

What a session writes is put together from one piece for each line.  A piece depends on its line and on
the settings, not on the lines before it; where the value of the line is stored is seen in it only if
results show that.  The pieces stop at the first line that asks to leave; without such a line there is
one more prompt, and the input has ended.
-/

namespace Reckon

/-- What a session makes of a line. -/
inductive Verdict where
  | blank
  | leave
  | result (text : Bytes)
  | failure (text : Bytes)
  deriving DecidableEq

/-- What is written for a line behind the prompt. -/
def Verdict.written : Verdict → Bytes
  | .blank | .leave => []
  | .result text => ("Result: " : Bytes) ++ text ++ Session.lineFeed
  | .failure text => text ++ Session.lineFeed

namespace Transcript

@[simp] theorem after_nil_nil (t : Transcript) : t.after [] [] = t := rfl

@[simp] theorem after_after (t : Transcript) (output log output' log' : Bytes) :
    (t.after output log).after output' log' = t.after (output' ++ output) (log' ++ log) := by
  simp [after]

end Transcript

namespace Session

/-- What a session makes of a line.  White space alone is nothing, and a word for leaving asks to leave,
whatever white space is around it; anything else is evaluated without that white space. -/
def judge (s : Session) (fraction : Binary.FractionalPower) (l : Line) : Verdict :=
  let line := trimBlank l.raw
  if ∀ g ∈ Utf8.glyphs l.raw, g.isBlank = true then .blank
  else if SpellsLeaving line then .leave
  else
    match s.calculator.eval line fraction l.location with
    | .ok r =>
      .result
        (Format.fill (if s.format.isEmpty then Result.defaultFormat else s.format) r.operand)
    | .error f => .failure (f.describe line)

variable (s : Session) (fraction : Binary.FractionalPower) (broken : Bool)

/-- What is logged for a line. -/
def logged (l : Line) : Bytes :=
  match s.judge fraction l with
  | .blank | .leave => []
  | _ => (s.evaluate (trimBlank l.raw) fraction l.location).log

/-- What is written for a line and, unless it asks to leave, from the next prompt on. -/
def respond (l : Line) (next : Transcript) : Transcript :=
  if s.judge fraction l = .leave then ⟨[], [], false⟩
  else next.after (s.judge fraction l).written (s.logged fraction l)

/-! ## One line -/

theorem judge_of_blank {l : Line} (hline : trimBlank l.raw = []) :
    s.judge fraction l = .blank := by
  rw [judge, if_pos (trimBlank_eq_nil_iff.mp hline)]

theorem judge_of_exit
    {l : Line} (hline : trimBlank l.raw ≠ []) (hexit : isExit (trimBlank l.raw) = true) :
    s.judge fraction l = .leave := by
  rw [judge, if_neg (mt trimBlank_eq_nil_iff.mpr hline), if_pos (isExit_iff.mp hexit)]

theorem judge_of_expression
    {l : Line} (hline : trimBlank l.raw ≠ []) (hexit : isExit (trimBlank l.raw) = false) :
    s.judge fraction l =
      match s.calculator.eval (trimBlank l.raw) fraction l.location with
      | .ok r => .result (r.format s.format)
      | .error f => .failure (f.describe (trimBlank l.raw)) := by
  have hstay : ¬ SpellsLeaving (trimBlank l.raw) := by
    rw [← isExit_iff, hexit]
    exact Bool.false_ne_true
  rw [judge, if_neg (mt trimBlank_eq_nil_iff.mpr hline), if_neg hstay]
  rfl

theorem respond_of_blank {l : Line} (hline : trimBlank l.raw = []) (next : Transcript) :
    s.respond fraction l next = next := by
  simp [respond, logged, s.judge_of_blank fraction hline, Verdict.written]

theorem respond_of_exit
    {l : Line} (hline : trimBlank l.raw ≠ []) (hexit : isExit (trimBlank l.raw) = true)
    (next : Transcript) : s.respond fraction l next = ⟨[], [], false⟩ := by
  simp [respond, s.judge_of_exit fraction hline hexit]

theorem respond_of_expression
    {l : Line} (hline : trimBlank l.raw ≠ []) (hexit : isExit (trimBlank l.raw) = false)
    (next : Transcript) :
    s.respond fraction l next =
      next.after (report (s.evaluate (trimBlank l.raw) fraction l.location))
        (s.evaluate (trimBlank l.raw) fraction l.location).log := by
  have hjudge := s.judge_of_expression fraction hline hexit
  cases heval : s.calculator.eval (trimBlank l.raw) fraction l.location with
  | ok r =>
    rw [heval] at hjudge
    simp [respond, logged, hjudge, evaluate, heval, report, Verdict.written]
  | error f =>
    rw [heval] at hjudge
    simp [respond, logged, hjudge, evaluate, heval, report, Verdict.written]

/-- A session prompts, responds to a line, and goes on with the lines that follow. -/
theorem proceed_cons (l : Line) (rest : List Line) :
    s.proceed fraction broken (l :: rest) =
      (s.respond fraction l (s.proceed fraction broken rest)).after s.prompt [] := by
  rw [proceed]
  by_cases hline : trimBlank l.raw = []
  · rw [s.respond_of_blank fraction hline]
    simp [hline]
  · cases hexit : isExit (trimBlank l.raw) with
    | true =>
      rw [s.respond_of_exit fraction hline hexit]
      simp [hline, Transcript.after]
    | false =>
      rw [s.respond_of_expression fraction hline hexit]
      simp [hline]

/-- Whether results show where they are stored. -/
def ShowsLocation : Prop :=
  Result.ShowsLocation s.calculator.precision s.format

/-- Where the value of a line is stored makes no difference, unless results show it. -/
theorem judge_location (h : ¬ s.ShowsLocation) {l l' : Line} (hraw : l'.raw = l.raw) :
    s.judge fraction l' = s.judge fraction l := by
  have htext := s.calculator.format_eval_location fraction l.location l'.location h (trimBlank l.raw)
  rw [s.calculator.eval_location fraction l.location l'.location] at htext
  simp only [judge, hraw]
  rw [s.calculator.eval_location fraction l.location l'.location]
  cases heval : s.calculator.eval (trimBlank l.raw) fraction l.location with
  | error f => rfl
  | ok r =>
    rw [heval] at htext
    have hsame : Format.fill (if s.format.isEmpty then Result.defaultFormat else s.format)
          ({ r with location := l'.location } : Result).operand =
        Format.fill (if s.format.isEmpty then Result.defaultFormat else s.format) r.operand :=
      Except.ok.inj htext
    simp only [Except.map, hsame]

/-! ## All lines -/

theorem raw_mem_of_mem_placed
    {locations : Nat → UInt64} {lines : List Bytes} {l : Line} (h : l ∈ Line.placed locations lines) :
    l.raw ∈ lines := by
  obtain ⟨n, hn, rfl⟩ := List.mem_mapIdx.mp h
  exact List.getElem_mem hn

/-- Where the values of lines are stored makes no difference, unless results show it. -/
theorem map_judge_placed
    (h : ¬ s.ShowsLocation) (locations locations' : Nat → UInt64) (lines : List Bytes) :
    (Line.placed locations' lines).map (s.judge fraction) =
      (Line.placed locations lines).map (s.judge fraction) := by
  refine List.ext_getElem (by simp [Line.placed]) fun n hn hn' => ?_
  simp only [Line.placed, List.getElem_map, List.getElem_mapIdx]
  exact s.judge_location fraction h rfl

/-- The lines in front of the first one that asks to leave. -/
def answered (lines : List Line) : List Line :=
  lines.takeWhile fun l => s.judge fraction l != .leave

/-- Whether a line asks to leave. -/
def isLeft (lines : List Line) : Bool :=
  lines.any fun l => s.judge fraction l == .leave

/-- From a prompt on, a session writes a prompt and what each line comes to, up to the line that asks to
leave, and a last prompt, with the line ended if it was the input that did. -/
theorem proceed_eq (lines : List Line) :
    s.proceed fraction broken lines =
      ⟨((s.answered fraction lines).flatMap fun l => s.prompt ++ (s.judge fraction l).written) ++
          s.prompt ++ (if s.isLeft fraction lines then [] else lineFeed),
        (s.answered fraction lines).flatMap (s.logged fraction),
        broken && !s.isLeft fraction lines⟩ := by
  induction lines with
  | nil => simp [proceed, answered, isLeft]
  | cons l rest ih =>
    rw [proceed_cons, ih, respond]
    by_cases hleave : s.judge fraction l = .leave
    · simp [answered, isLeft, hleave, Transcript.after]
    · have hanswered : s.answered fraction (l :: rest) = l :: s.answered fraction rest := by
        simp [answered, hleave]
      have hleft : s.isLeft fraction (l :: rest) = s.isLeft fraction rest := by
        simp [isLeft, hleave]
      rw [if_neg hleave, hanswered, hleft]
      simp [Transcript.after]

theorem judge_eq_leave_iff {l : Line} :
    s.judge fraction l = .leave ↔
      trimBlank l.raw ≠ [] ∧ isExit (trimBlank l.raw) = true := by
  by_cases hline : trimBlank l.raw = []
  · simp [s.judge_of_blank fraction hline, hline]
  · cases hexit : isExit (trimBlank l.raw) with
    | true => simp [s.judge_of_exit fraction hline hexit, hline]
    | false =>
      rw [s.judge_of_expression fraction hline hexit]
      cases s.calculator.eval (trimBlank l.raw) fraction l.location with
      | ok r => simp
      | error f => simp

/-- A session that nobody leaves answers every line. -/
theorem proceed_of_stay
    {lines : List Line} (hstay : ∀ l ∈ lines, isExit (trimBlank l.raw) = false) :
    (s.proceed fraction broken lines).output =
        (lines.flatMap fun l => s.prompt ++ (s.judge fraction l).written) ++ s.prompt ++ lineFeed ∧
      (s.proceed fraction broken lines).broken = broken := by
  have hjudge : ∀ l ∈ lines, s.judge fraction l ≠ .leave := by
    intro l hmem hleave
    have hexit := ((s.judge_eq_leave_iff fraction).mp hleave).2
    simp [hstay l hmem] at hexit
  have hanswered : s.answered fraction lines = lines := by
    rw [answered, List.takeWhile_eq_self_iff]
    intro l hmem
    simpa using hjudge l hmem
  have hleft : s.isLeft fraction lines = false := by
    simpa [isLeft] using hjudge
  rw [proceed_eq, hanswered, hleft]
  simp

end Session
end Reckon
