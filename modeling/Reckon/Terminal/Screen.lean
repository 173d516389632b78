import Reckon.Session
import Reckon.Terminal.LineEditor
import Reckon.Text.Width

/-!
# The terminal interface

A screen shows the banner, the outcomes of the latest lines, and the line that is being typed.  Keys
edit the line, evaluate it, clear the outcomes or leave.
-/

namespace Reckon
namespace Terminal

/-- What happens at the keyboard. -/
inductive Event where
  /-- Characters typed or pasted at once. -/
  | text (cs : List Char)
  /-- The line is sent off; if its expression has a value in arbitrary precision, that is going to stand
  at a place in memory. -/
  | enter (location : UInt64 := 0)
  /-- One of the keys for leaving. -/
  | leave
  | clear
  | edit (k : EditKey)
  /-- The line was changed by other means than these keys, such as the clipboard. -/
  | replace (line : LineEditor)
  /-- The window has another size. -/
  | resize
  deriving DecidableEq, Repr

/-- The state of the interface. -/
structure Screen where
  session : Session
  line : LineEditor
  /-- The outcomes on the screen, the oldest first. -/
  history : List Outcome
  quitting : Bool
  /-- All that was logged. -/
  log : Bytes
  deriving DecidableEq, Repr

namespace Screen

/-- The most outcomes that are kept. -/
def maxHistory : Nat :=
  100

/-- The screen at the start of a session. -/
def start (s : Session) : Screen :=
  ⟨s, .empty, [], false, []⟩

/-- Adds an outcome and forgets the oldest ones that are too many. -/
def remember (s : Screen) (o : Outcome) : Screen :=
  let history := s.history ++ [o]
  { s with history := history.drop (history.length - maxHistory), log := s.log ++ o.log }

/-- Evaluates the line, unless it is blank or asks to leave. -/
def submit (s : Screen) (fraction : Binary.FractionalPower) (location : UInt64) : Screen :=
  let line := trimBlank s.line.value
  let s := { s with line := .empty }
  if line.isEmpty then s
  else if Session.isExit line then { s with quitting := true }
  else s.remember (s.session.evaluate line fraction location)

/-- The screen after an event. -/
def update (s : Screen) (e : Event) (fraction : Binary.FractionalPower := .rounded) : Screen :=
  match e with
  | .leave => { s with quitting := true }
  | .clear => { s with history := [] }
  | .enter location => s.submit fraction location
  | .text cs => { s with line := s.line.type cs }
  | .edit k => { s with line := s.line.press k }
  | .replace line => { s with line }
  | .resize => s

/-- The screen after events. -/
def run (s : Screen) (events : List Event) (fraction : Binary.FractionalPower := .rounded) :
    Screen :=
  events.foldl (fun s e => s.update e fraction) s

/-- The screen after an event that happens several times. -/
def updateTimes (s : Screen) (e : Event) : Nat → Screen
  | 0 => s
  | n + 1 => (s.update e).updateTimes e n

/-! ## The picture -/

/-- A text with four spaces for each tab. -/
def expandTabs (s : Bytes) : Bytes :=
  s.flatMap fun b => if b = 0x09 then List.replicate 4 0x20 else [b]

/-- A text with plain line feeds as line endings. -/
def plainEndings : Bytes → Bytes
  | [] => []
  | 0x0D :: 0x0A :: s => 0x0A :: plainEndings s
  | b :: s => b :: plainEndings s

/-- Lines filled up with spaces to the width of the widest, and that width. -/
def justify (s : Bytes) : List Bytes × Nat :=
  let lines := Bytes.splitOn 0x0A (plainEndings (expandTabs s))
  let width := (lines.map Width.ofText).foldl max 0
  (lines.map fun l => l ++ List.replicate (width - Width.ofText l) 0x20, width)

/-- A text as a block of lines of one width. -/
def block (s : Bytes) : Bytes :=
  Bytes.join Session.lineFeed (justify s).1

/-- A blank line of a width. -/
def blankLine (width : Nat) : Bytes :=
  List.replicate width 0x20

/-- The help at the bottom of the screen. -/
def help : Bytes :=
  "enter: evaluate • ctrl+l: clear • esc: quit"

/-- The example of which the first character is shown on an empty line. -/
def sample : Bytes :=
  "2+5*9/3^2"

/-- The banner and a blank line of its width. -/
def bannerRows (s : Screen) : List Bytes :=
  if s.session.banner.isEmpty then []
  else
    let (lines, width) := justify s.session.banner
    lines ++ [blankLine width]

/-- The rows of an outcome: the expression, and below it the result or the failure. -/
def outcomeRows (o : Outcome) : List Bytes :=
  [block o.input, if o.failed then block o.text else "Result: " ++ block o.text]

/-- The row of the line that is being typed.  The cursor takes a column of its own at the end. -/
def lineRow (s : Screen) : Bytes :=
  let shown :=
    if s.line.chars.isEmpty then sample.take 1
    else if s.line.after.isEmpty then s.line.value ++ [0x20]
    else s.line.value
  expandTabs s.session.prompt ++ shown

/-- The picture of a screen without colours; there is none after leaving. -/
def view (s : Screen) : Bytes :=
  if s.quitting then []
  else
    Bytes.join Session.lineFeed <|
      s.bannerRows ++ s.history.flatMap outcomeRows
        ++ [s.lineRow, blankLine (Width.ofText help), help]

end Screen
end Terminal
end Reckon
