import Reckon.CommandLine.Command
import Reckon.Expr.Outline
import Reckon.Service.Address
import Reckon.Session
import Reckon.Settings.Load

/-!
# Running the command line

A command line is run in a world of files and variables with an input.  The outcome is what the run
writes and whether it failed.  Serving on a socket and the terminal interface are outside of it: a run
reads lines, and a service ends as soon as it was announced.

The error stream has two writers, which take turns: the command says why it failed, and the log, if it is
asked for, tells of each failure in front of that.
-/

namespace Reckon
namespace CommandLine

/-- What a run can see. -/
structure World where
  /-- The content of a file. -/
  file : Bytes → Except FileFault Bytes
  environment : Environment
  input : Bytes

/-- A piece of the error stream, by who wrote it. -/
inductive Message where
  /-- Written by the command itself. -/
  | said (text : Bytes)
  | logged (text : Bytes)
  deriving DecidableEq, Repr

namespace Message

/-- What is written. -/
def text : Message → Bytes
  | .said text | .logged text => text

/-- What the command itself writes. -/
def saidText : Message → Bytes
  | .said text => text
  | .logged _ => []

/-- What the log writes. -/
def loggedText : Message → Bytes
  | .said _ => []
  | .logged text => text

end Message

/-- What a run writes and whether it failed. -/
structure Run where
  failed : Bool
  stdout : Bytes
  /-- What comes on the error stream, in order. -/
  messages : List Message
  deriving DecidableEq, Repr

/-- How the program was built. -/
structure Build where
  version : Bytes := "0.1.0"
  commit : Bytes := "development"
  date : Bytes := "unknown"
  runtime : Bytes := "unknown"
  platform : Bytes := "unknown"
  deriving DecidableEq, Repr

namespace Run

/-- The error stream. -/
def errorStream (r : Run) : Bytes :=
  r.messages.flatMap Message.text

/-- What the command itself writes to the error stream. -/
def stderr (r : Run) : Bytes :=
  r.messages.flatMap Message.saidText

/-- What the log writes to the error stream. -/
def log (r : Run) : Bytes :=
  r.messages.flatMap Message.loggedText

/-- A run that wrote nothing. -/
def silent : Run :=
  ⟨false, [], []⟩

/-- A run that only writes to its output. -/
def printed (text : Bytes) : Run :=
  { silent with stdout := text }

/-- A run and another one after it. -/
def andThen (a b : Run) : Run :=
  ⟨b.failed, a.stdout ++ b.stdout, a.messages ++ b.messages⟩

/-- The end of a run that fails with a message. -/
def fail (message : Bytes) : Run :=
  ⟨true, [], [.said ("Error: " ++ message ++ "\n")]⟩

end Run

/-- Sets what the flags set. -/
def applyFlags (s : Settings) (p : Parsed) : Settings :=
  let s :=
    match p.get? "permissive" with
    | some (.switch on) => { s with permissive := on }
    | _ => s
  let s :=
    match p.get? "precision" with
    | some (.unsigned n) => { s with precision := n }
    | _ => s
  match p.text? "format" with
  | some format => { s with format }
  | none => s

/-- Puts the settings of a command in force: those that are loaded, with the flags over them.  When
they cannot be had there is a message, and the current settings stay in force. -/
def enforce (current : Settings) (w : World) (p : Parsed) (decoders : Decoders := .standard) :
    Settings × Option Bytes :=
  let path := (p.text? "config").getD []
  match Settings.loadOrBlank path (w.file path) w.environment decoders with
  | (_, some e) => (current, some ("load config: " ++ e.message))
  | (s, none) =>
    let s := applyFlags s p
    match s.validate with
    | .error text => (current, some ("invalid settings: " ++ text))
    | .ok _ => (s, none)

/-- Texts on lines of their own. -/
def linesOf (texts : List Bytes) : Bytes :=
  texts.flatMap (· ++ Session.lineFeed)

/-- The tokens of a line up to the first fault, one to a line. -/
def tokenLines (mode : Mode) (line : Bytes) : Bytes :=
  linesOf ((Lexer.items mode line).filterMap fun
    | .ok t => some t.render
    | .error _ => none)

/-- The tree of a line in short and as an outline; nothing when the line has none. -/
def treeLines (c : Calculator) (line : Bytes) : Bytes :=
  match parseText c.mode c.maxDepth line with
  | .error _ => []
  | .ok tree =>
    match tree.dump with
    | .ok text => linesOf [text, tree.outline]
    | .error _ => []

/-- Evaluates a line; what was asked for besides is written in front of the result. -/
def evalLine (s : Settings) (p : Parsed) (line : Bytes)
    (fraction : Binary.FractionalPower := .rounded) (location : UInt64 := 0) : Run :=
  let tokens := if p.isOn "tokens" then tokenLines s.calculator.mode line else []
  let tree := if p.isOn "ast" then treeLines s.calculator line else []
  match s.calculator.eval line fraction location with
  | .ok r => ⟨false, tokens ++ tree ++ r.format s.format ++ Session.lineFeed, []⟩
  | .error f =>
    let log : List Message :=
      if p.isOn "verbose" then
        [.logged ("Eval " ++ Quoted.text line ++ ": " ++ f.message ++ ".\n")]
      else []
    ⟨true, tokens ++ tree, log ++ [.said (f.describe line ++ Session.lineFeed)]⟩

/-- Evaluates every line of an input that is not blank. -/
def evalLines (s : Settings) (p : Parsed) (input : Bytes)
    (fraction : Binary.FractionalPower := .rounded) (locations : Nat → UInt64 := fun _ => 0) : Run :=
  let lines := Lines.ofBytes false input
  let expressions := (Line.placed locations lines.lines).filter fun l => !(trimBlank l.raw).isEmpty
  let runs := expressions.map fun l => evalLine s p (trimBlank l.raw) fraction l.location
  let all := runs.foldr Run.andThen Run.silent
  let failures := (runs.filter (·.failed)).length
  if lines.tooLong then all.andThen (.fail Session.brokenMessage)
  else if failures > 0 then
    all.andThen (.fail (Bytes.ofNat failures ++ " of " ++ Bytes.ofNat runs.length
      ++ " expressions failed"))
  else all

/-- Arguments joined to one text. -/
def joined (args : List Bytes) : Bytes :=
  Bytes.join " " args

/-- Evaluates the arguments, or the input when there are none. -/
def runEval (w : World) (s : Settings) (p : Parsed)
    (fraction : Binary.FractionalPower := .rounded) (locations : Nat → UInt64 := fun _ => 0) : Run :=
  if p.args.isEmpty then evalLines s p w.input fraction locations
  else
    let r := evalLine s p (joined p.args) fraction (locations 0)
    if r.failed then r.andThen (.fail "evaluation failed") else r

/-- Prints the tokens of the arguments. -/
def runTokens (s : Settings) (p : Parsed) : Run :=
  let line := joined p.args
  let printed := Run.printed (tokenLines s.calculator.mode line)
  match (Lexer.items s.calculator.mode line).findSome? fun
    | .error e => some e
    | .ok _ => none with
  | none => printed
  | some e =>
    let described : Bytes := Failure.describe line (.lexical e) ++ Session.lineFeed
    (printed.andThen { Run.silent with messages := [.said described] }).andThen
      (.fail ("tokenize: " ++ e.message))

/-- Runs a session on the input. -/
def runSession (w : World) (s : Settings) (p : Parsed)
    (fraction : Binary.FractionalPower := .rounded) (locations : Nat → UInt64 := fun _ => 0) : Run :=
  let t := (Session.ofSettings s (p.isOn "verbose")).run .never w.input fraction locations
  let written : Run := ⟨false, t.output, [.logged t.log]⟩
  if t.broken then written.andThen (.fail Session.brokenMessage) else written

/-- Starts the service. -/
def runService (s : Settings) (p : Parsed) : Run :=
  let address := (p.text? "addr").getD s.addr
  match Address.check address with
  | .error fault => .fail (Address.listenMessage address fault)
  | .ok _ => { Run.silent with messages := [.logged ("Listening on " ++ address ++ ".\n")] }

/-- The version of the program and how it was built. -/
def Build.render (b : Build) : Bytes :=
  linesOf ["pemdas v" ++ b.version, "  Git Commit: " ++ b.commit, "  Build Date: " ++ b.date,
    "  Go Version: " ++ b.runtime, "  OS/Arch:    " ++ b.platform]

/-- What the program is for. -/
def usage : Bytes :=
  "pemdas evaluates arithmetic expressions made of numbers, the binary\n"
    ++ "operators + - * / ^ and parentheses.\n"

/-- The number of arguments that a command needs. -/
def requiredArgs : Command → Nat
  | .tokens => 1
  | _ => 0

/-- What is said when there are too few arguments. -/
def tooFewMessage (needed given : Nat) : Bytes :=
  "requires at least " ++ Bytes.ofNat needed ++ " arg(s), only received " ++ Bytes.ofNat given

/-- What a run takes from other libraries and from the machine. -/
structure Surroundings where
  /-- Powers with a fractional exponent. -/
  fraction : Binary.FractionalPower := .rounded
  /-- The readers of settings files. -/
  decoders : Decoders := .standard
  /-- Where in memory the values of the lines stand, by the numbers of the lines. -/
  locations : Nat → UInt64 := fun _ => 0

/-- Carries out a command whose flags were parsed. -/
def runCommand (b : Build) (w : World) (c : Command) (p : Parsed) (around : Surroundings := {}) :
    Run :=
  if p.isOn "help" || c = .help || c = .completion then .printed usage
  else if p.args.length < requiredArgs c then
    .fail (tooFewMessage (requiredArgs c) p.args.length)
  else
    match enforce .blank w p around.decoders with
    | (_, some message) => .fail message
    | (s, none) =>
      match c with
      | .eval => runEval w s p around.fraction around.locations
      | .tokens => runTokens s p
      | .repl => runSession w s p around.fraction around.locations
      | .serve => runService s p
      | _ => .printed b.render

/-- The flags and arguments of a command line, if it names a command and they can be parsed. -/
def parsed? (words : List Bytes) : Option (Command × Parsed) :=
  match findCommand words with
  | .command c words =>
    match parseFlags (Command.helpFlag :: c.ownFlags ++ Command.sharedFlags) .empty words with
    | .ok p => some (c, p)
    | .error _ => none
  | _ => none

/-- The path of the settings file that a command line names, empty when it names none. -/
def settingsPath (words : List Bytes) : Bytes :=
  ((parsed? words).bind fun (_, p) => p.text? "config").getD []

/-- Whether a command line reads its input. -/
def readsInput (words : List Bytes) : Bool :=
  match parsed? words with
  | some (.eval, p) => p.args.isEmpty && !p.isOn "help"
  | some (.repl, p) => !p.isOn "help"
  | _ => false

/-- Runs a command line. -/
def run (b : Build) (w : World) (words : List Bytes) (around : Surroundings := {}) : Run :=
  match findCommand words with
  | .unknown name =>
    (Run.fail (unknownMessage name)).andThen
      ⟨true, [], [.said "Run 'pemdas --help' for usage.\n"]⟩
  | .none words =>
    match parseFlags (Command.helpFlag :: Command.sharedFlags) .empty words with
    | .error e => .fail e.message
    | .ok _ => .printed usage
  | .command c words =>
    match parseFlags (Command.helpFlag :: c.ownFlags ++ Command.sharedFlags) .empty words with
    | .error e => .fail e.message
    | .ok p => runCommand b w c p around

end CommandLine
end Reckon
