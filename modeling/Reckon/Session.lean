import Reckon.Settings.Basic
import Reckon.Text.Blank
import Reckon.Text.Lines
import Reckon.Text.LowerCase

/-!
# Sessions

A session evaluates one line after the other.  Each line gives a result or the description of a
failure, and the session goes on; it ends with the input, with a word for leaving, or when it is
interrupted.
-/

namespace Reckon

/-- The settings of a session. -/
structure Session where
  calculator : Calculator
  /-- The format string of results; empty stands for the default one. -/
  format : Bytes
  prompt : Bytes
  banner : Bytes
  /-- Whether failures are logged. -/
  verbose : Bool
  deriving DecidableEq, Repr

/-- What became of a line. -/
structure Outcome where
  input : Bytes
  /-- The formatted result, or the description of the failure. -/
  text : Bytes
  failed : Bool
  /-- What is logged. -/
  log : Bytes
  deriving DecidableEq, Repr

/-- A line as it was read, and where in memory the value of its expression is going to stand if it has
one in arbitrary precision. -/
structure Line where
  raw : Bytes
  location : UInt64 := 0
  deriving DecidableEq, Repr

/-- The lines of an input with the places of their values, told by their numbers. -/
def Line.placed (locations : Nat → UInt64) (lines : List Bytes) : List Line :=
  lines.mapIdx fun n raw => ⟨raw, locations n⟩

/-- What a session writes. -/
structure Transcript where
  output : Bytes
  log : Bytes
  /-- Whether the session ended because the input could not be read on. -/
  broken : Bool
  deriving DecidableEq, Repr

/-- When a session is interrupted. -/
inductive Interruption where
  | never
  | beforeStart
  /-- Once every line is done and the session waits for more. -/
  | whenWaiting
  deriving DecidableEq, Repr

namespace Transcript

/-- A transcript with more in front of it. -/
def after (t : Transcript) (output log : Bytes) : Transcript :=
  { t with output := output ++ t.output, log := log ++ t.log }

end Transcript

namespace Session

/-- The session that settings describe. -/
def ofSettings (s : Settings) (verbose : Bool) : Session where
  calculator := s.calculator
  format := s.format
  prompt := s.prompt
  banner := s.banner
  verbose := verbose

/-- The line feed. -/
def lineFeed : Bytes :=
  [0x0A]

/-- Evaluates a text. -/
def evaluate (s : Session) (line : Bytes) (fraction : Binary.FractionalPower := .rounded)
    (location : UInt64 := 0) : Outcome :=
  match s.calculator.eval line fraction location with
  | .ok r => ⟨line, r.format s.format, false, []⟩
  | .error f =>
    let log :=
      if s.verbose then "Eval " ++ Quoted.text line ++ ": " ++ f.message ++ "." ++ lineFeed
      else []
    ⟨line, f.describe line, true, log⟩

/-- Whether a line asks to leave. -/
def isExit (line : Bytes) : Bool :=
  let word := lowerText line
  word = ("exit" : Bytes) || word = ("quit" : Bytes)

/-- An outcome as it is printed. -/
def report (o : Outcome) : Bytes :=
  if o.failed then o.text ++ lineFeed else "Result: " ++ o.text ++ lineFeed

/-- The part of a session from a prompt on; `broken` tells that the input cannot be read to its
end. -/
def proceed (s : Session) (fraction : Binary.FractionalPower) (broken : Bool) :
    List Line → Transcript
  | [] => ⟨s.prompt ++ lineFeed, [], broken⟩
  | l :: rest =>
    let line := trimBlank l.raw
    if line.isEmpty then (s.proceed fraction broken rest).after s.prompt []
    else if isExit line then ⟨s.prompt, [], false⟩
    else
      let o := s.evaluate line fraction l.location
      (s.proceed fraction broken rest).after (s.prompt ++ report o) o.log

/-- The banner on lines of its own, if there is one. -/
def greeting (s : Session) : Bytes :=
  if s.banner.isEmpty then [] else s.banner ++ lineFeed

/-- What a session writes for an input. -/
def run (s : Session) (interruption : Interruption) (input : Bytes)
    (fraction : Binary.FractionalPower := .rounded) (locations : Nat → UInt64 := fun _ => 0) :
    Transcript :=
  match interruption with
  | .beforeStart => ⟨s.greeting, [], false⟩
  | _ =>
    let lines := Lines.ofBytes (interruption = .whenWaiting) input
    (s.proceed fraction lines.tooLong (Line.placed locations lines.lines)).after s.greeting []

/-- What is said when the input cannot be read on. -/
def brokenMessage : Bytes :=
  "read input: " ++ Lines.tooLongMessage

end Session
end Reckon
