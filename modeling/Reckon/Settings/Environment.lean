import Reckon.Settings.Basic
import Reckon.Text.Integer

/-!
# Settings from the environment

Variables override settings one by one.  A variable with a value that cannot be read leaves its
setting as it was, except that the read timeout becomes zero; all such variables are reported, in a
fixed order.
-/

namespace Reckon

/-- The variables of an environment. -/
abbrev Environment := List (Bytes × Bytes)

/-- The value of a variable. -/
def Environment.get? (env : Environment) (name : Bytes) : Option Bytes :=
  (env.find? (·.1 = name)).map (·.2)

/-- A text that was given as a value and cannot be read. -/
inductive ValueFault where
  | truth (text : Bytes)
  | unsigned (text : Bytes) (fault : Integer.Fault)
  | integer (text : Bytes) (fault : Integer.Fault)
  | duration (fault : DurationError)
  deriving DecidableEq, Repr

namespace ValueFault

/-- The wording of a fault of an integer. -/
def reason : Integer.Fault → Bytes
  | .malformed => "invalid syntax"
  | .outOfRange => "value out of range"

/-- The message of a fault. -/
def message : ValueFault → Bytes
  | .truth text => "strconv.ParseBool: parsing " ++ Quoted.text text ++ ": " ++ reason .malformed
  | .unsigned text fault =>
    "strconv.ParseUint: parsing " ++ Quoted.text text ++ ": " ++ reason fault
  | .integer text fault => "strconv.Atoi: parsing " ++ Quoted.text text ++ ": " ++ reason fault
  | .duration fault => fault.message

end ValueFault

namespace Settings

/-- Reads a truth value. -/
def readTruth (text : Bytes) : Except ValueFault Bool :=
  if [("1" : Bytes), "t", "T", "true", "TRUE", "True"].contains text then .ok true
  else if [("0" : Bytes), "f", "F", "false", "FALSE", "False"].contains text then .ok false
  else .error (.truth text)

/-- Reads a number of mantissa bits, decimal and below 2^32. -/
def readPrecision (text : Bytes) : Except ValueFault Nat :=
  (Integer.ofDigits 10 (Nat.pow 2 32 - 1) text).mapError (.unsigned text)

/-- Reads a nesting limit. -/
def readDepth (text : Bytes) : Except ValueFault Int :=
  (Integer.ofDecimal text).mapError (.integer text)

/-- The start of the name of every variable. -/
def variableStart : Bytes :=
  "PEMDAS_"

/-- What a variable sets, given its value: the new settings, and what was wrong with the value. -/
abbrev Override := Settings → Bytes → Settings × Option ValueFault

/-- An override that leaves the settings alone when the value cannot be read. -/
def overrideWith {α : Type} (read : Bytes → Except ValueFault α) (set : Settings → α → Settings) :
    Override :=
  fun s text =>
    match read text with
    | .ok a => (set s a, none)
    | .error e => (s, some e)

/-- The override of the read timeout. -/
def overrideTimeout : Override :=
  fun s text =>
    match Duration.read text with
    | .ok d => ({ s with readTimeout := d }, none)
    | .error e => ({ s with readTimeout := ⟨0⟩ }, some (.duration e))

/-- The variables in the order in which they are looked at, without the common start of their
names. -/
def overrides : List (Bytes × Override) := [
  ("PERMISSIVE", overrideWith readTruth fun s b => { s with permissive := b }),
  ("PRECISION", overrideWith readPrecision fun s n => { s with precision := n }),
  ("MAX_DEPTH", overrideWith readDepth fun s n => { s with maxDepth := n }),
  ("FORMAT", overrideWith .ok fun s text => { s with format := text }),
  ("PROMPT", overrideWith .ok fun s text => { s with prompt := text }),
  ("PLAIN", overrideWith readTruth fun s b => { s with plain := b }),
  ("ADDR", overrideWith .ok fun s text => { s with addr := text }),
  ("READ_TIMEOUT", overrideTimeout)]

/-- Applies one variable and notes the message of its fault. -/
def applyVariable (env : Environment) (state : Settings × List Bytes) (entry : Bytes × Override) :
    Settings × List Bytes :=
  let (s, messages) := state
  let name := variableStart ++ entry.1
  match env.get? name with
  | none => state
  | some text =>
    match entry.2 s text with
    | (s, none) => (s, messages)
    | (s, some fault) => (s, messages ++ [name ++ ": " ++ fault.message])

/-- Overrides settings by an environment; gives the settings, and a message if values could not be
read. -/
def applyEnvironment (s : Settings) (env : Environment) : Settings × Option Bytes :=
  match overrides.foldl (applyVariable env) (s, []) with
  | (s, []) => (s, none)
  | (s, messages) => (s, some (lines messages))

end Settings
end Reckon
