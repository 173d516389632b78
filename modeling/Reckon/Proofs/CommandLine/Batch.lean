import Reckon.CommandLine.Run
import Reckon.Proofs.Calculator.Outcome
import Reckon.Proofs.Session.LineByLine

/-!
# Evaluation in a batch

The lines of an input can be evaluated in a batch or in a session.  A batch writes results and failures
apart, a session writes both between its prompts, and line by line the texts are the same.  A batch also
counts: it fails when the input breaks off or when an expression has failed, and then says how many.

A batch that keeps a log writes it to the same stream as the failures, one entry in front of each.  The
entries are those that a session would log.

The comparison needs that no line asks to leave, which means something to a session only.  Values are
stored at some place in a batch and at some place in a session; unless results show these, they make no
difference.
-/

namespace Reckon

/-- The text of a result. -/
def Verdict.result? : Verdict → Option Bytes
  | .result text => some text
  | _ => none

/-- The text of a failure. -/
def Verdict.failure? : Verdict → Option Bytes
  | .failure text => some text
  | _ => none

namespace CommandLine

/-! ## Runs one after another -/

theorem linesOf_filterMap_cons (f : Verdict → Option Bytes) (v : Verdict) (vs : List Verdict) :
    linesOf ((v :: vs).filterMap f) = linesOf (f v).toList ++ linesOf (vs.filterMap f) := by
  cases h : f v with
  | none => simp [h, linesOf]
  | some text => simp [h, linesOf]

theorem foldr_andThen_silent (runs : List Run) :
    runs.foldr Run.andThen Run.silent =
      ⟨false, runs.flatMap (·.stdout), runs.flatMap (·.messages)⟩ := by
  induction runs with
  | nil => rfl
  | cons r runs ih => simp [ih, Run.andThen]

variable (s : Settings) (p : Parsed) (fraction : Binary.FractionalPower)

/-- The runs for the lines that are not blank. -/
def runsOf (lines : List Line) : List Run :=
  (lines.filter fun l => !(trimBlank l.raw).isEmpty).map fun l =>
    evalLine s p (trimBlank l.raw) fraction l.location

/-- What a batch fails with, by whether the input broke off and by the numbers of failures and of
expressions. -/
def batchError? (broken : Bool) (failures total : Nat) : Option Bytes :=
  if broken then some Session.brokenMessage
  else if failures > 0 then
    some (Bytes.ofNat failures ++ (" of " : Bytes) ++ Bytes.ofNat total
      ++ (" expressions failed" : Bytes))
  else none

/-- The error that ends a run, as it is written. -/
def complaint : Option Bytes → Bytes
  | none => []
  | some message => ("Error: " : Bytes) ++ message ++ ("\n" : Bytes)

/-- The error that ends a run, on the error stream. -/
def complaints (error? : Option Bytes) : List Message :=
  error?.toList.map fun message => .said (complaint (some message))

/-- A batch writes what the runs for its lines write, and the error behind them if there is one. -/
theorem evalLines_eq (input : Bytes) (locations : Nat → UInt64) :
    let runs := runsOf s p fraction (Line.placed locations (Lines.ofBytes false input).lines)
    let error? := batchError? (Lines.ofBytes false input).tooLong
      (runs.filter (·.failed)).length runs.length
    evalLines s p input fraction locations =
      ⟨error?.isSome, runs.flatMap (·.stdout), runs.flatMap (·.messages) ++ complaints error?⟩ := by
  intro runs error?
  have hevalLines : evalLines s p input fraction locations =
      match error? with
      | none => runs.foldr Run.andThen Run.silent
      | some message => (runs.foldr Run.andThen Run.silent).andThen (.fail message) := by
    have hdef : error? = batchError? (Lines.ofBytes false input).tooLong
        (runs.filter (·.failed)).length runs.length := rfl
    rw [hdef, batchError?]
    by_cases hbroken : (Lines.ofBytes false input).tooLong = true
    · simp only [hbroken, ↓reduceIte, evalLines]
      rfl
    · by_cases hfailed : (runs.filter (·.failed)).length > 0
      · simp only [hbroken, hfailed, ↓reduceIte, evalLines]
        exact if_pos hfailed
      · simp only [hbroken, hfailed, ↓reduceIte, evalLines]
        exact if_neg hfailed
  rw [hevalLines, foldr_andThen_silent]
  cases error? with
  | none => simp [complaints]
  | some message => simp [complaints, complaint, Run.andThen, Run.fail]

theorem runsOf_cons_of_blank
    {l : Line} (hline : trimBlank l.raw = []) (lines : List Line) :
    runsOf s p fraction (l :: lines) = runsOf s p fraction lines := by
  simp [runsOf, hline]

theorem runsOf_cons_of_not_blank
    {l : Line} (hline : trimBlank l.raw ≠ []) (lines : List Line) :
    runsOf s p fraction (l :: lines) =
      evalLine s p (trimBlank l.raw) fraction l.location :: runsOf s p fraction lines := by
  simp [runsOf, hline]

/-! ## One line -/

/-- What comes on the error stream for a line: its failure, if it has one, and in front of that the log
entry of a session that keeps a log. -/
def messagesFor (session : Session) (l : Line) : List Message :=
  match session.judge fraction l with
  | .failure text =>
    (if session.verbose then [.logged (session.logged fraction l)] else []) ++
      [.said (text ++ Session.lineFeed)]
  | _ => []

/-- A run writes a verdict: a result to its output, and a failure behind a log entry to the error
stream. -/
structure Run.Writes (r : Run) (v : Verdict) (messages : List Message) : Prop where
  stdout_eq : r.stdout = linesOf v.result?.toList
  messages_eq : r.messages = messages
  failed_eq : r.failed = v.failure?.isSome

section Lines

variable {s p} (htokens : p.isOn "tokens" = false) (htree : p.isOn "ast" = false)

include htokens htree

theorem writes_evalLine
    {l : Line} (hline : trimBlank l.raw ≠ []) (hstay : Session.isExit (trimBlank l.raw) = false) :
    let session := Session.ofSettings s (p.isOn "verbose")
    (evalLine s p (trimBlank l.raw) fraction l.location).Writes (session.judge fraction l)
      (messagesFor fraction session l) := by
  intro session
  have hcalculator : session.calculator = s.calculator := rfl
  have hformat : session.format = s.format := rfl
  have hjudge := session.judge_of_expression fraction hline hstay
  rw [hcalculator, hformat] at hjudge
  rw [messagesFor, evalLine, htokens, htree]
  cases heval : s.calculator.eval (trimBlank l.raw) fraction l.location with
  | ok r =>
    rw [heval] at hjudge
    rw [hjudge]
    exact ⟨by simp [linesOf, Verdict.result?], rfl, rfl⟩
  | error f =>
    rw [heval] at hjudge
    rw [hjudge]
    refine ⟨rfl, ?_, rfl⟩
    have hlogged : session.logged fraction l = (session.evaluate (trimBlank l.raw) fraction
        l.location).log := by rw [Session.logged, hjudge]
    have hverbose : session.verbose = p.isOn "verbose" := rfl
    have hend : (".\n" : Bytes) = ("." : Bytes) ++ Session.lineFeed := by decide
    rw [hlogged, Session.evaluate, hcalculator, heval, hverbose, hend]
    cases p.isOn "verbose" with
    | true => simp
    | false => rfl

/-! ## All lines -/

/-- The runs for the lines that are not blank write the verdicts of a session, and there are as many of
them that fail as there are failures. -/
theorem writes_runs
    (lines : List Line) (hstay : ∀ l ∈ lines, Session.isExit (trimBlank l.raw) = false) :
    let session := Session.ofSettings s (p.isOn "verbose")
    let runs := runsOf s p fraction lines
    let verdicts := lines.map (session.judge fraction)
    runs.flatMap (·.stdout) = linesOf (verdicts.filterMap Verdict.result?) ∧
      runs.flatMap (·.messages) = lines.flatMap (messagesFor fraction session) ∧
      (runs.filter (·.failed)).length = (verdicts.filterMap Verdict.failure?).length ∧
      runs.length = (lines.filter fun l => !(trimBlank l.raw).isEmpty).length := by
  intro session
  induction lines with
  | nil => exact ⟨rfl, rfl, rfl, rfl⟩
  | cons l lines ih =>
    obtain ⟨hout, herr, hfailed, hlength⟩ := ih fun l' hmem => hstay l' (.tail _ hmem)
    by_cases hline : trimBlank l.raw = []
    · have hjudge := session.judge_of_blank fraction hline
      have hmessages : messagesFor fraction session l = [] := by rw [messagesFor, hjudge]
      rw [runsOf_cons_of_blank s p fraction hline, List.map_cons, hjudge, List.flatMap_cons,
        hmessages]
      exact ⟨hout, herr, hfailed, by simpa [hline] using hlength⟩
    · have hwrites : Run.Writes _ (session.judge fraction l) _ :=
        writes_evalLine fraction htokens htree hline (hstay l (.head _))
      rw [runsOf_cons_of_not_blank s p fraction hline, List.map_cons]
      refine ⟨?_, ?_, ?_, ?_⟩
      · rw [List.flatMap_cons, linesOf_filterMap_cons, hwrites.stdout_eq, hout]
      · rw [List.flatMap_cons, List.flatMap_cons, hwrites.messages_eq, herr]
      · rw [List.filter_cons, List.filterMap_cons, hwrites.failed_eq]
        cases (session.judge fraction l).failure? with
        | none => exact hfailed
        | some text => exact congrArg (· + 1) hfailed
      · simp [hline, hlength]

end Lines

/-! ## The whole input -/

/-- What a batch itself writes to the error stream for some lines is their failures. -/
theorem flatMap_saidText_messagesFor (session : Session) (lines : List Line) :
    (lines.flatMap (messagesFor fraction session)).flatMap Message.saidText =
      linesOf ((lines.map (session.judge fraction)).filterMap Verdict.failure?) := by
  induction lines with
  | nil => rfl
  | cons l lines ih =>
    rw [List.flatMap_cons, List.flatMap_append, ih, List.map_cons, linesOf_filterMap_cons]
    congr 1
    rw [messagesFor]
    cases session.judge fraction l with
    | failure text => cases session.verbose <;> simp [Message.saidText, Verdict.failure?, linesOf]
    | _ => rfl

/-- Without a log, that is all there is on the error stream. -/
theorem flatMap_text_messagesFor
    {session : Session} (hverbose : session.verbose = false) (lines : List Line) :
    (lines.flatMap (messagesFor fraction session)).flatMap Message.text =
      linesOf ((lines.map (session.judge fraction)).filterMap Verdict.failure?) := by
  rw [← flatMap_saidText_messagesFor, List.flatMap_assoc, List.flatMap_assoc]
  congr 1
  funext l
  rw [messagesFor, hverbose]
  cases session.judge fraction l <;> rfl

theorem runSession_eq (w : World) (q : Parsed) (locations : Nat → UInt64) :
    let t := (Session.ofSettings s (q.isOn "verbose")).run .never w.input fraction locations
    runSession w s q fraction locations =
      ⟨t.broken, t.output,
        .logged t.log :: complaints (if t.broken then some Session.brokenMessage else none)⟩ := by
  unfold runSession
  generalize (Session.ofSettings s (q.isOn "verbose")).run .never w.input fraction locations = t
  cases hbroken : t.broken with
  | false => simp [hbroken, complaints]
  | true => simp [hbroken, Run.andThen, Run.fail, complaints, complaint]

theorem batchError?_eq_none_iff {broken : Bool} {failures total : Nat} :
    batchError? broken failures total = none ↔ broken = false ∧ failures = 0 := by
  unfold batchError?
  cases broken with
  | true => simp
  | false =>
    by_cases hfailures : failures > 0
    · simp [hfailures]
      omega
    · simp [hfailures]
      omega

/-- There are no failures when every line that is not blank has a value. -/
theorem failures_eq_nil_iff
    {session : Session} {lines : List Line}
    (hstay : ∀ l ∈ lines, Session.isExit (trimBlank l.raw) = false) :
    (lines.map (session.judge fraction)).filterMap Verdict.failure? = [] ↔
      ∀ l ∈ lines, trimBlank l.raw ≠ [] →
        ∃ r, session.calculator.eval (trimBlank l.raw) fraction l.location = .ok r := by
  rw [List.filterMap_eq_nil_iff, List.forall_mem_map]
  refine forall₂_congr fun l hmem => ?_
  by_cases hline : trimBlank l.raw = []
  · simp [session.judge_of_blank fraction hline, hline, Verdict.failure?]
  · rw [session.judge_of_expression fraction hline (hstay l hmem)]
    cases session.calculator.eval (trimBlank l.raw) fraction l.location with
    | ok r => simp [Verdict.failure?]
    | error f => simp [hline, Verdict.failure?]

/-- For an input in which no line asks to leave, a batch writes the results that a session writes, and
apart from them the failures that it writes, both in their order.  If it keeps a log, an entry stands in
front of each failure; otherwise there is nothing else on the error stream before the error that ends the
batch.  It fails when the input breaks off, as a session does, and when an expression fails, and then it
says how many did and of how many.  Values are stored at places of their own in the two; unless results
show these, the texts are the same. -/
theorem runEval_agrees_with_session
    (w : World) (q : Parsed) (locations locations' : Nat → UInt64) (hargs : p.args = [])
    (htokens : p.isOn "tokens" = false) (htree : p.isOn "ast" = false)
    (hstay : ∀ line ∈ (Lines.ofBytes false w.input).lines,
      ¬ Session.SpellsLeaving (trimBlank line)) :
    let session := Session.ofSettings s (q.isOn "verbose")
    let lines := Line.placed locations (Lines.ofBytes false w.input).lines
    let lines' := Line.placed locations' (Lines.ofBytes false w.input).lines
    let broken := (Lines.ofBytes false w.input).tooLong
    let verdicts := lines.map (session.judge fraction)
    let verdicts' := lines'.map (session.judge fraction)
    let failures := verdicts'.filterMap Verdict.failure?
    let total := (lines'.filter fun l => !(trimBlank l.raw).isEmpty).length
    let error? := batchError? broken failures.length total
    let batch := runEval w s p fraction locations'
    (runSession w s q fraction locations).stdout =
        session.greeting ++ (verdicts.flatMap fun v => s.prompt ++ v.written) ++ s.prompt ++
          Session.lineFeed ∧
      batch.stdout = linesOf (verdicts'.filterMap Verdict.result?) ∧
      batch.messages =
        lines'.flatMap (messagesFor fraction (Session.ofSettings s (p.isOn "verbose"))) ++
          complaints error? ∧
      batch.stderr = linesOf failures ++ complaint error? ∧
      (p.isOn "verbose" = false → batch.errorStream = linesOf failures ++ complaint error?) ∧
      (batch.failed = false ↔
        broken = false ∧
          ∀ l ∈ lines', trimBlank l.raw ≠ [] →
            ∃ r, s.calculator.eval (trimBlank l.raw) fraction l.location = .ok r) ∧
      (runSession w s q fraction locations).failed = broken ∧
      (runSession w s q fraction locations).stderr =
        complaint (if broken then some Session.brokenMessage else none) ∧
      (locations' = locations ∨ ¬ session.ShowsLocation → verdicts' = verdicts) := by
  intro session lines lines' broken verdicts verdicts' failures total error? batch
  have hexit : ∀ (places : Nat → UInt64), ∀ l ∈ Line.placed places (Lines.ofBytes false w.input).lines,
      Session.isExit (trimBlank l.raw) = false := by
    intro places l hmem
    rw [← Bool.not_eq_true, Session.isExit_iff]
    exact hstay l.raw (Session.raw_mem_of_mem_placed hmem)
  obtain ⟨hout, herr, hfailed, htotal⟩ :=
    writes_runs fraction htokens htree (s := s) lines' (hexit locations')
  -- Whether there is a log has no part in what becomes of a line.
  have hverdicts :
      lines'.map ((Session.ofSettings s (p.isOn "verbose")).judge fraction) = verdicts' := rfl
  have hbatch : batch = ⟨error?.isSome, linesOf (verdicts'.filterMap Verdict.result?),
      lines'.flatMap (messagesFor fraction (Session.ofSettings s (p.isOn "verbose"))) ++
        complaints error?⟩ := by
    have hrun : batch = evalLines s p w.input fraction locations' := by
      simp [batch, runEval, hargs]
    rw [hrun, evalLines_eq, hout, herr, hfailed, htotal]
    rfl
  have hcomplaint : (complaints error?).flatMap Message.saidText = complaint error? ∧
      (complaints error?).flatMap Message.text = complaint error? := by
    cases error? with
    | none => exact ⟨rfl, rfl⟩
    | some message => simp [complaints, Message.saidText, Message.text]
  have hsession : session.run .never w.input fraction locations =
      (session.proceed fraction broken lines).after session.greeting [] := rfl
  obtain ⟨houtput, hbroken⟩ := session.proceed_of_stay fraction broken (hexit locations)
  rw [runSession_eq, hsession, hbatch]
  refine ⟨?_, rfl, rfl, ?_, ?_, ?_, hbroken, ?_, ?_⟩
  · show session.greeting ++ (session.proceed fraction broken lines).output = _
    rw [houtput, List.flatMap_map]
    simp only [List.append_assoc]
    rfl
  · rw [Run.stderr, List.flatMap_append, flatMap_saidText_messagesFor, hverdicts, hcomplaint.1]
  · intro hverbose
    rw [Run.errorStream, List.flatMap_append, flatMap_text_messagesFor fraction hverbose, hverdicts,
      hcomplaint.2]
  · rw [Option.isSome_eq_false_iff, Option.isNone_iff_eq_none, batchError?_eq_none_iff,
      List.length_eq_zero_iff, failures_eq_nil_iff fraction (hexit locations')]
    exact Iff.rfl
  · show (Message.logged _ :: complaints
      (if (session.proceed fraction broken lines).broken then _ else _)).flatMap Message.saidText = _
    rw [hbroken]
    cases broken <;> simp [complaints, complaint, Message.saidText]
  · rintro (rfl | hshows)
    · rfl
    · exact session.map_judge_placed fraction hshows locations locations' _

/-- A number of 64 bits and an unknown symbol, in a batch that keeps a log and in a session that does
not. -/
theorem runEval_agrees_with_session_of_number :
    let s : Settings := { Settings.blank with precision := 64, prompt := "> " }
    let w : World := ⟨fun _ => .error .missing, [], " 2.5\n#\n"⟩
    let p : Parsed := ⟨[("verbose", .switch true)], []⟩
    let batch := runEval w s p .rounded fun _ => 0
    let session := runSession w s .empty .rounded fun _ => 0
    session.stdout = "> Result: 2.50\n> UnknownSymbol at index: 0 => '#'\n> \n" ∧
      session.failed = false ∧
      batch.stdout = "2.50\n" ∧
      batch.failed = true ∧
      batch.errorStream = "Eval \"#\": parse: tokenize: UnknownSymbol at index 0: '#'.\n"
        ++ "UnknownSymbol at index: 0 => '#'\nError: 1 of 2 expressions failed\n" := by
  intro s w p batch session
  have hlines : Lines.ofBytes false w.input = ⟨[" 2.5", "#"], false⟩ := by decide
  have hspells : Literal.Spells "2.5" (Double.readOrZero "2.5") :=
    Literal.spells_readOrZero (List.all_eq_true.mp rfl) ⟨⟨0x32, by decide, rfl⟩, by decide⟩
  have htrim : trimBlank " 2.5" = ("2.5" : Bytes) := by decide +kernel
  have heval := s.calculator.eval_literal hspells rfl .rounded 0
  have hnumber : (Session.ofSettings s false).judge .rounded ⟨" 2.5", 0⟩ = .result "2.50" := by
    simp only [Session.judge, htrim]
    rw [show (Session.ofSettings s false).calculator = s.calculator from rfl, heval]
    decide +kernel
  have hsymbol : (Session.ofSettings s false).judge .rounded ⟨"#", 0⟩ =
      .failure "UnknownSymbol at index: 0 => '#'" := by
    decide +kernel
  have hlogged : (Session.ofSettings s true).logged .rounded ⟨"#", 0⟩ =
      ("Eval \"#\": parse: tokenize: UnknownSymbol at index 0: '#'.\n" : Bytes) := by
    decide +kernel
  obtain ⟨hsession, hresults, hmessages, -, -, hworks, hbroken, -⟩ :=
    runEval_agrees_with_session s p .rounded w .empty (fun _ => 0) (fun _ => 0) rfl (by decide)
      (by decide) (by decide +kernel)
  have hplaced : Line.placed (fun _ => 0) (Lines.ofBytes false w.input).lines =
      [⟨" 2.5", 0⟩, ⟨"#", 0⟩] := by
    rw [hlines]
    rfl
  have hverdicts : [(⟨" 2.5", 0⟩ : Line), ⟨"#", 0⟩].map
      ((Session.ofSettings s (Parsed.isOn .empty "verbose")).judge .rounded) =
        [.result "2.50", .failure "UnknownSymbol at index: 0 => '#'"] := by
    rw [List.map_cons, List.map_cons, List.map_nil]
    exact congrArg₂ (fun v v' => [v, v']) hnumber hsymbol
  rw [hplaced] at hsession hresults hmessages
  rw [hverdicts] at hsession hresults hmessages
  have hsilent : messagesFor .rounded (Session.ofSettings s true) ⟨" 2.5", 0⟩ = [] := by
    rw [messagesFor, show (Session.ofSettings s true).judge .rounded ⟨" 2.5", 0⟩ = _ from hnumber]
  have htold : messagesFor .rounded (Session.ofSettings s true) ⟨"#", 0⟩ =
      [.logged "Eval \"#\": parse: tokenize: UnknownSymbol at index 0: '#'.\n",
        .said "UnknownSymbol at index: 0 => '#'\n"] := by
    rw [messagesFor, hlogged,
      show (Session.ofSettings s true).judge .rounded ⟨"#", 0⟩ = _ from hsymbol]
    decide
  have hfails : ¬ batch.failed = false := by
    rw [hworks]
    rintro ⟨-, h⟩
    obtain ⟨r, hr⟩ := h ⟨"#", 0⟩ (by rw [hplaced]; decide) (by decide +kernel)
    have hsymbolFails : (s.calculator.eval (trimBlank "#")).toBool = false := by decide +kernel
    rw [hr] at hsymbolFails
    cases hsymbolFails
  refine ⟨hsession.trans ?_, ?_, hresults.trans ?_, Bool.of_not_eq_false hfails, ?_⟩
  · decide +kernel
  · rw [hbroken, hlines]
  · decide +kernel
  · have hverbose : p.isOn "verbose" = true := by decide
    rw [Run.errorStream, hmessages, hlines, hverbose, List.flatMap_cons, List.flatMap_cons, hsilent,
      htold]
    decide +kernel

end CommandLine
end Reckon
