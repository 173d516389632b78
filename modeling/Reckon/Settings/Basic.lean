import Reckon.Calculator
import Reckon.Duration

/-!
# Settings

The settings shared by all ways of using the calculator: how expressions are read and evaluated, how
results are printed, how an interactive session looks and where the service listens.  A settings value
is checked as a whole, and every fault is reported.
-/

namespace Reckon

/-- What can be set from outside. -/
structure Settings where
  /-- Whether unknown symbols in an expression are skipped. -/
  permissive : Bool
  /-- The mantissa's bits, zero for double precision. -/
  precision : Nat
  maxDepth : Int
  /-- The format string of results. -/
  format : Bytes
  prompt : Bytes
  banner : Bytes
  /-- Whether a session reads plain lines even on a terminal. -/
  plain : Bool
  /-- The address of the service. -/
  addr : Bytes
  readTimeout : Duration
  deriving DecidableEq, Repr

/-- What is wrong with settings. -/
inductive SettingsFault where
  | emptyFormat
  | noVerb (format : Bytes)
  | negativeDepth (n : Int)
  | negativeTimeout (d : Duration)
  deriving DecidableEq, Repr

/-- The message of a fault. -/
def SettingsFault.message : SettingsFault → Bytes
  | .emptyFormat => "output.format is empty"
  | .noVerb format => "output.format " ++ Quoted.text format ++ " has no verb"
  | .negativeDepth n => "eval.max_depth " ++ Bytes.ofInt n ++ " is negative"
  | .negativeTimeout d => "server.read_timeout " ++ d.render ++ " is negative"

namespace Settings

/-- The line that greets the user of a session. -/
def defaultBanner : Bytes :=
  "PEMDAS calculator\nSupported operators: + - * / ^ and parentheses.\n"
    ++ "Type \"exit\" or \"quit\" to leave."

/-- The settings that hold unless others are given. -/
def default : Settings where
  permissive := false
  precision := 0
  maxDepth := Parser.defaultDepth
  format := Result.defaultFormat
  prompt := "Enter an expression: "
  banner := defaultBanner
  plain := false
  addr := "localhost:8080"
  readTimeout := ⟨10000000000⟩

/-- Settings that are all empty, which stand for settings that could not be loaded. -/
def blank : Settings where
  permissive := false
  precision := 0
  maxDepth := 0
  format := []
  prompt := []
  banner := []
  plain := false
  addr := []
  readTimeout := ⟨0⟩

/-- The percent sign, which opens a verb in a format string. -/
def percent : UInt8 :=
  0x25

/-- What is wrong with a format string, if anything. -/
def formatFault? (format : Bytes) : Option SettingsFault :=
  if format.isEmpty then some .emptyFormat
  else if format.contains percent then none
  else some (.noVerb format)

/-- Everything that is wrong with settings. -/
def faults (s : Settings) : List SettingsFault :=
  (formatFault? s.format).toList
    ++ (if s.maxDepth < 0 then [.negativeDepth s.maxDepth] else [])
    ++ (if s.readTimeout.ns < 0 then [.negativeTimeout s.readTimeout] else [])

/-- Messages one below the other. -/
def lines (messages : List Bytes) : Bytes :=
  Bytes.join "\n" messages

/-- The message of the faults of settings, if there are any. -/
def validate (s : Settings) : Except Bytes Unit :=
  match s.faults with
  | [] => .ok ()
  | fs => .error (lines (fs.map SettingsFault.message))

/-- The calculator that settings describe. -/
def calculator (s : Settings) : Calculator where
  mode := if s.permissive then .permissive else .strict
  precision := s.precision
  maxDepth := s.maxDepth

end Settings
end Reckon
