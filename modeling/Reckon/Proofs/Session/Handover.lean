import Reckon.Proofs.Calculator.Outcome
import Reckon.Proofs.Session.LineByLine
import Mathlib.Logic.Relation

/-!
# Reading beside the session

Reading a line may take long, so that it is done by a party of its own.  The *reader* offers one line
after the other and waits with each until it is taken.  At the end of the input it leaves word of how
the input ended and then offers no more.  The *loop* prompts, waits for a line or for the end of the
offers, and answers the line.  Once the loop has returned, an offer is withdrawn.

The two take their steps in any order that the handover of lines allows.  The invariant is that what was
written so far and what the loop will still write for the lines that are left make up the transcript of
the session; so the order does not matter.  Every step uses something up, and as long as the two have
not both stopped one of them can step.
-/

namespace Reckon
namespace Session

/-- Where the reader is. -/
inductive Reader where
  | reading (rest : List Line)
  /-- A line was read and is offered. -/
  | offering (l : Line) (rest : List Line)
  /-- Word was left of how the input ended. -/
  | reported
  | stopped

/-- Where the loop is. -/
inductive Loop where
  | prompting
  | waiting
  /-- A line was taken and is to be answered. -/
  | answering (l : Line)
  /-- There are no more offers; how the input ended is still to be asked. -/
  | closing
  | returned (broken : Bool)

/-- The two parties with what passed between them and what was written. -/
structure Handover where
  reader : Reader
  loop : Loop
  /-- The word left by the reader until it is asked for. -/
  word : Option Bool
  written : Bytes
  log : Bytes

/-- Where the loop is after a line. -/
def Loop.after (s : Session) (fraction : Binary.FractionalPower) (l : Line) : Loop :=
  if s.judge fraction l = .leave then .returned false else .prompting

namespace Handover

/-- The start of a session: the banner is written and nothing was read. -/
def start (s : Session) (lines : List Line) : Handover :=
  ⟨.reading lines, .prompting, none, s.greeting, []⟩

/-- One step of one of the parties, or of both when a line is handed over; `broken` tells that the input
cannot be read to its end. -/
inductive Step (s : Session) (fraction : Binary.FractionalPower) (broken : Bool) :
    Handover → Handover → Prop
  | read {l rest loop word written log} :
      Step s fraction broken ⟨.reading (l :: rest), loop, word, written, log⟩
        ⟨.offering l rest, loop, word, written, log⟩
  | report {loop written log} :
      Step s fraction broken ⟨.reading [], loop, none, written, log⟩
        ⟨.reported, loop, some broken, written, log⟩
  | stop {loop word written log} :
      Step s fraction broken ⟨.reported, loop, word, written, log⟩
        ⟨.stopped, loop, word, written, log⟩
  | prompt {reader word written log} :
      Step s fraction broken ⟨reader, .prompting, word, written, log⟩
        ⟨reader, .waiting, word, written ++ s.prompt, log⟩
  | take {l rest word written log} :
      Step s fraction broken ⟨.offering l rest, .waiting, word, written, log⟩
        ⟨.reading rest, .answering l, word, written, log⟩
  | answer {reader l word written log} :
      Step s fraction broken ⟨reader, .answering l, word, written, log⟩
        ⟨reader, .after s fraction l, word, written ++ (s.judge fraction l).written,
          log ++ s.logged fraction l⟩
  | close {word written log} :
      Step s fraction broken ⟨.stopped, .waiting, word, written, log⟩
        ⟨.stopped, .closing, word, written ++ lineFeed, log⟩
  | ask {reader ended written log} :
      Step s fraction broken ⟨reader, .closing, some ended, written, log⟩
        ⟨reader, .returned ended, none, written, log⟩
  | withdraw {l rest ended word written log} :
      Step s fraction broken ⟨.offering l rest, .returned ended, word, written, log⟩
        ⟨.stopped, .returned ended, word, written, log⟩

/-! ## What is still to be written -/

/-- The lines that were not taken. -/
def left : Reader → List Line
  | .reading rest => rest
  | .offering l rest => l :: rest
  | .reported | .stopped => []

/-- What is still to be written. -/
def toCome (s : Session) (fraction : Binary.FractionalPower) (broken : Bool) (c : Handover) :
    Transcript :=
  match c.loop with
  | .prompting => s.proceed fraction broken (left c.reader)
  | .waiting =>
    match left c.reader with
    | [] => ⟨lineFeed, [], broken⟩
    | l :: rest => s.respond fraction l (s.proceed fraction broken rest)
  | .answering l => s.respond fraction l (s.proceed fraction broken (left c.reader))
  | .closing => ⟨[], [], broken⟩
  | .returned ended => ⟨[], [], ended⟩

/-- Whether the word stands as it should: the reader leaves it behind its last line, and it stays until
the loop has returned. -/
def wordFits (broken : Bool) (reader : Reader) (loop : Loop) (word : Option Bool) : Prop :=
  match reader, loop with
  | .reading _, .closing | .offering _ _, .closing | .reported, .closing => False
  | .reading _, _ | .offering _ _, _ => word = none
  | .reported, .returned _ | .stopped, .returned _ => True
  | .reported, _ | .stopped, _ => word = some broken

/-- The invariant of the two parties: with what is still to be written they make up a transcript. -/
structure Sound (s : Session) (fraction : Binary.FractionalPower) (broken : Bool) (t : Transcript)
    (c : Handover) : Prop where
  total : (c.toCome s fraction broken).after c.written c.log = t
  word : wordFits broken c.reader c.loop c.word

variable {s : Session} {fraction : Binary.FractionalPower} {broken : Bool} {t : Transcript}
  {c d : Handover}

theorem sound_start
    (s : Session) (fraction : Binary.FractionalPower) (broken : Bool) (lines : List Line) :
    Sound s fraction broken ((s.proceed fraction broken lines).after s.greeting []) (start s lines) :=
  ⟨rfl, rfl⟩

theorem Step.toCome_eq
    (h : Step s fraction broken c d) (hword : wordFits broken c.reader c.loop c.word) :
    (d.toCome s fraction broken).after d.written d.log =
      (c.toCome s fraction broken).after c.written c.log := by
  cases h with
  | read => rfl
  | report => rfl
  | stop => rfl
  | @prompt reader word written log =>
    cases hleft : left reader with
    | nil => simp [toCome, hleft, proceed, Transcript.after]
    | cons l rest => simp [toCome, hleft, proceed_cons]
  | take => rfl
  | @answer reader l word written log =>
    by_cases hleave : s.judge fraction l = .leave
    · simp [toCome, Loop.after, respond, logged, hleave, Verdict.written]
    · simp [toCome, Loop.after, respond, hleave]
  | close => simp [toCome, left, Transcript.after]
  | @ask reader ended written log =>
    cases reader with
    | stopped =>
      obtain rfl : ended = broken := Option.some.inj hword
      rfl
    | reading rest => cases hword
    | offering l rest => cases hword
    | reported => cases hword
  | withdraw => rfl

theorem Step.wordFits
    (h : Step s fraction broken c d) (hword : wordFits broken c.reader c.loop c.word) :
    Handover.wordFits broken d.reader d.loop d.word := by
  cases h with
  | @read l rest loop word written log => cases loop <;> exact hword
  | @report loop written log =>
    cases loop with
    | closing => cases hword
    | returned ended => trivial
    | prompting => rfl
    | waiting => rfl
    | answering l => rfl
  | @stop loop word written log =>
    cases loop with
    | closing => cases hword
    | returned ended => trivial
    | prompting => exact hword
    | waiting => exact hword
    | answering l => exact hword
  | @prompt reader word written log => cases reader <;> exact hword
  | take => exact hword
  | @answer reader l word written log =>
    unfold Loop.after
    by_cases hleave : s.judge fraction l = .leave
    · rw [if_pos hleave]
      cases reader with
      | reading rest => exact hword
      | offering l rest => exact hword
      | reported => trivial
      | stopped => trivial
    · rw [if_neg hleave]
      cases reader <;> exact hword
  | close => exact hword
  | @ask reader ended written log =>
    cases reader with
    | stopped => trivial
    | reading rest => cases hword
    | offering l rest => cases hword
    | reported => cases hword
  | withdraw => trivial

theorem Sound.step (h : Sound s fraction broken t c) (hstep : Step s fraction broken c d) :
    Sound s fraction broken t d :=
  ⟨(hstep.toCome_eq h.word).trans h.total, hstep.wordFits h.word⟩

/-- The invariant holds wherever the two parties get. -/
theorem sound_of_reaches
    {lines : List Line} (h : Relation.ReflTransGen (Step s fraction broken) (start s lines) c) :
    Sound s fraction broken ((s.proceed fraction broken lines).after s.greeting []) c := by
  induction h with
  | refl => exact sound_start s fraction broken lines
  | tail _ hstep ih => exact ih.step hstep

/-! ## The end -/

/-- How many steps are left at most. -/
def weight (c : Handover) : Nat :=
  let reading :=
    match c.reader with
    | .reading rest => 2 * rest.length + 2
    | .offering _ rest => 2 * rest.length + 3
    | .reported => 1
    | .stopped => 0
  let looping :=
    match c.loop with
    | .prompting => 3
    | .waiting => 2
    | .answering _ => 4
    | .closing => 1
    | .returned _ => 0
  3 * reading + looping

theorem Step.weight_lt (h : Step s fraction broken c d) : d.weight < c.weight := by
  cases h with
  | @answer reader l word written log =>
    unfold Loop.after
    by_cases hleave : s.judge fraction l = .leave
    · simp [weight, hleave]
    · simp [weight, hleave]
  | _ =>
    simp only [weight, List.length_cons]
    omega

theorem wellFounded_step (s : Session) (fraction : Binary.FractionalPower) (broken : Bool) :
    WellFounded (flip (Step s fraction broken)) :=
  Subrelation.wf (fun h => Step.weight_lt h) (measure weight).wf

/-- Unless both parties have stopped, one of them can step. -/
theorem stopped_or_exists_step (hword : wordFits broken c.reader c.loop c.word) :
    (c.reader = .stopped ∧ ∃ ended, c.loop = .returned ended) ∨ ∃ d, Step s fraction broken c d := by
  obtain ⟨reader, loop, word, written, log⟩ := c
  cases reader with
  | reading rest =>
    cases rest with
    | nil =>
      obtain rfl : word = none := by
        cases loop with
        | closing => cases hword
        | _ => exact hword
      exact Or.inr ⟨_, .report⟩
    | cons l rest => exact Or.inr ⟨_, .read⟩
  | reported => exact Or.inr ⟨_, .stop⟩
  | offering l rest =>
    right
    cases loop with
    | prompting => exact ⟨_, .prompt⟩
    | waiting => exact ⟨_, .take⟩
    | answering l => exact ⟨_, .answer⟩
    | closing => cases hword
    | returned ended => exact ⟨_, .withdraw⟩
  | stopped =>
    cases loop with
    | prompting => exact Or.inr ⟨_, .prompt⟩
    | waiting => exact Or.inr ⟨_, .close⟩
    | answering l => exact Or.inr ⟨_, .answer⟩
    | closing =>
      obtain rfl : word = some broken := hword
      exact Or.inr ⟨_, .ask⟩
    | returned ended => exact Or.inl ⟨rfl, ended, rfl⟩

/-- Two parties that cannot step have written the transcript and have stopped. -/
theorem Sound.finished (h : Sound s fraction broken t c) (hstuck : ∀ d, ¬ Step s fraction broken c d) :
    c.reader = .stopped ∧ c.loop = .returned t.broken ∧ c.written = t.output ∧ c.log = t.log := by
  rcases stopped_or_exists_step h.word with ⟨hreader, ended, hloop⟩ | ⟨d, hstep⟩
  · have htotal := h.total
    rw [toCome, hloop] at htotal
    subst htotal
    exact ⟨hreader, hloop, by simp [Transcript.after], by simp [Transcript.after]⟩
  · exact absurd hstep (hstuck d)

end Handover

open Handover

/-- What a session writes is its banner, a prompt and a piece for each line in front of the first that
asks to leave, and a last prompt, behind which the line is ended if there was no such line.  It breaks
off as the input does, unless it was left before.

A line is the text that was read, without the white space at its ends.  What is written for it is the
same wherever its value is stored, unless results show that place.

Reading beside the loop comes to the same, in whatever order the two take their steps: they always come
to an end, what is written at any time is the beginning of the transcript, and when no step is possible
both have stopped and all of it is written. -/
theorem run_line_by_line
    (s : Session) (input : Bytes) (fraction : Binary.FractionalPower) (locations : Nat → UInt64) :
    let lines := Line.placed locations (Lines.ofBytes false input).lines
    let broken := (Lines.ofBytes false input).tooLong
    let t := s.run .never input fraction locations
    t.output = s.greeting ++
        ((s.answered fraction lines).flatMap fun l => s.prompt ++ (s.judge fraction l).written) ++
        s.prompt ++ (if s.isLeft fraction lines then [] else lineFeed) ∧
      t.broken = (broken && !s.isLeft fraction lines) ∧
      (∀ l : Line, Trims l.raw (trimBlank l.raw)) ∧
      (¬ s.ShowsLocation → ∀ l l' : Line, l'.raw = l.raw →
        s.judge fraction l' = s.judge fraction l) ∧
      WellFounded (flip (Step s fraction broken)) ∧
      ∀ c, Relation.ReflTransGen (Step s fraction broken) (start s lines) c →
        c.written <+: t.output ∧
        ((∀ d, ¬ Step s fraction broken c d) →
          c.reader = .stopped ∧ c.loop = .returned t.broken ∧ c.written = t.output ∧
            c.log = t.log) := by
  intro lines broken t
  have ht : t = (s.proceed fraction broken lines).after s.greeting [] := rfl
  have hproceed := s.proceed_eq fraction broken lines
  refine ⟨?_, ?_, fun l => trims_trimBlank l.raw, fun h _ _ => s.judge_location fraction h,
    wellFounded_step s fraction broken, ?_⟩
  · rw [ht, hproceed]
    simp [Transcript.after]
  · rw [ht, hproceed]
    rfl
  · intro c hreach
    have hsound := sound_of_reaches hreach
    rw [← ht] at hsound
    refine ⟨?_, hsound.finished⟩
    rw [← hsound.total]
    exact List.prefix_append _ _

/-- A session that evaluates a number of 64 bits and is left at its second line: the third line is read
and offered, but the offer is withdrawn. -/
theorem run_line_by_line_of_quit :
    let s : Session := ⟨{ precision := 64, maxDepth := 0 }, [], "> ", "Hello", false⟩
    let lines : List Line := Line.placed (fun _ => 0) [" 2.5", "Quit", "1"]
    let c : Handover := ⟨.stopped, .returned false, none, "Hello\n> Result: 2.50\n> ", []⟩
    Relation.ReflTransGen (Step s .rounded false) (start s lines) c ∧
      (∀ d, ¬ Step s .rounded false c d) ∧
      (s.run .never " 2.5\nQuit\n1").output = "Hello\n> Result: 2.50\n> " := by
  intro s lines c
  have hlines : Lines.ofBytes false " 2.5\nQuit\n1" = ⟨[" 2.5", "Quit", "1"], false⟩ := by decide
  have hspells : Literal.Spells "2.5" (Double.readOrZero "2.5") :=
    Literal.spells_readOrZero (List.all_eq_true.mp rfl) ⟨⟨0x32, by decide, rfl⟩, by decide⟩
  have htrim : trimBlank " 2.5" = ("2.5" : Bytes) := by decide +kernel
  have heval := s.calculator.eval_literal hspells rfl .rounded 0
  have hjudge : s.judge .rounded ⟨" 2.5", 0⟩ = .result "2.50" := by
    simp only [judge, htrim, heval]
    decide +kernel
  have hlogged : s.logged .rounded ⟨" 2.5", 0⟩ = [] := by
    simp only [logged, hjudge, evaluate, htrim, heval]
    decide +kernel
  have hleave : s.judge .rounded ⟨"Quit", 0⟩ = .leave := by decide +kernel
  have hnumber := @Step.answer s .rounded false (.reading [⟨"Quit", 0⟩, ⟨"1", 0⟩]) ⟨" 2.5", 0⟩ none
    "Hello\n> " []
  have hquit := @Step.answer s .rounded false (.reading [⟨"1", 0⟩]) ⟨"Quit", 0⟩ none
    "Hello\n> Result: 2.50\n> " []
  simp only [Loop.after, hjudge, hlogged] at hnumber
  simp only [Loop.after, hleave, logged] at hquit
  have hrun : Relation.ReflTransGen (Step s .rounded false) (start s lines) c :=
    .head .read (.head .prompt (.head .take (.head hnumber (.head .read (.head .prompt
      (.head .take (.head hquit (.head .read (.head .withdraw .refl)))))))))
  have hstuck : ∀ d, ¬ Step s .rounded false c d := by
    intro d h
    unfold c at h
    cases h
  have hall := (run_line_by_line s " 2.5\nQuit\n1" .rounded fun _ => 0).2.2.2.2.2
  rw [hlines] at hall
  exact ⟨hrun, hstuck, ((hall c hrun).2 hstuck).2.2.1.symm⟩

end Session
end Reckon
